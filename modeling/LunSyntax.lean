import LunSyntax.Ast.Reader
import LunSyntax.Diagnostic.Listing
import LunSyntax.Document.Json
import LunSyntax.Document.Yaml
import LunSyntax.Host
import LunSyntax.Main
import LunSyntax.Command.Run
import LunSyntax.Proofs.Grammar.Derivation
import LunSyntax.Proofs.Parser.Reading
import LunSyntax.Proofs.Grammar.Soundness
import LunSyntax.Proofs.Text.Digits
import LunSyntax.Proofs.Token.Rules
import LunSyntax.Proofs.Token.Accounting
import LunSyntax.Proofs.Grammar.Brackets
import LunSyntax.Proofs.Parser.Agreement
import LunSyntax.Proofs.Grammar.Locality
import LunSyntax.Proofs.Grammar.Containment
import LunSyntax.Proofs.Grammar.Canonical
import LunSyntax.Proofs.Grammar.Heads
import LunSyntax.Proofs.Grammar.Completeness
import LunSyntax.Proofs.Token.Lexemes
import LunSyntax.Proofs.Grammar.Spelling
import LunSyntax.Proofs.Parser.Spelling
import LunSyntax.Proofs.Grammar.Provenance
import LunSyntax.Proofs.Grammar.Totality
import LunSyntax.Proofs.Grammar.Spans
import LunSyntax.Proofs.Tree.Structure
import LunSyntax.Proofs.Tree.Numbering
import LunSyntax.Proofs.Tree.Refinement
import LunSyntax.Proofs.Tree.Settled
import LunSyntax.Proofs.Tree.Layout
import LunSyntax.Proofs.Tree.Rooted
import LunSyntax.Proofs.Tree.Insertion
import LunSyntax.Proofs.Tree.Errors
import LunSyntax.Proofs.Tree.Placement
import LunSyntax.Proofs.Tree.Comments
import LunSyntax.Proofs.Token.Patterns
import LunSyntax.Proofs.Token.Munch
import LunSyntax.Proofs.Parser.Blindness
import LunSyntax.Proofs.Grammar.Blindness
import LunSyntax.Proofs.Document.Scanning
import LunSyntax.Proofs.Document.Nesting
import LunSyntax.Proofs.Document.Recovery
import LunSyntax.Proofs.Token.Recovery
import LunSyntax.Proofs.Ast.Recovery
import LunSyntax.Proofs.Token.Shifting
import LunSyntax.Proofs.Token.Resumption
import LunSyntax.Proofs.Parser.Unclosed
import LunSyntax.Proofs.Grammar.Diagnostics
import LunSyntax.Proofs.Parser.Shifting
import LunSyntax.Proofs.Grammar.Shifting
import LunSyntax.Proofs.Parser.Sealing
import LunSyntax.Proofs.Grammar.Sealing
import LunSyntax.Proofs.Grammar.Concatenation
import LunSyntax.Proofs.Parser.Reporting
import LunSyntax.Proofs.Grammar.Semicolons
import LunSyntax.Proofs.Source.Numbering
import LunSyntax.Proofs.Token.Fidelity
import LunSyntax.Proofs.Grammar.Grouping
import LunSyntax.Proofs.Text.Rows
import LunSyntax.Proofs.Text.Utf8
import LunSyntax.Proofs.Tree.Points
import LunSyntax.Proofs.Tree.Positions
import LunSyntax.Proofs.Source.Lines
import LunSyntax.Proofs.Tree.Locations
import LunSyntax.Proofs.Source.Isolation
import LunSyntax.Proofs.Token.Integers
import LunSyntax.Proofs.Token.Strings
import LunSyntax.Proofs.Tree.Sexp
import LunSyntax.Proofs.Grammar.Wording
import LunSyntax.Proofs.Text.Ansi
import LunSyntax.Proofs.Parser.Wording
import LunSyntax.Proofs.Host
import LunSyntax.Proofs.Span
import LunSyntax.Proofs.Grammar.Choices
