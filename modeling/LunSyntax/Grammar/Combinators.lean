import LunSyntax.Grammar.Parser

/-!
# Ways to combine parsers

The grammar is written over `Combinators`, what it takes to put a parser together, and so can be
read in more than one way: as a `Parser`, or as one that says where a parse would be cut short.
-/

set_option autoImplicit false

namespace LunSyntax

/-- Parsers from tokens, and what is made of others. -/
class Combinators (P : Type → Type) extends Monad P where
  fail {α : Type} (expected : List (Option TokenKind)) : P α
  token {α : Type} (f : Lexeme → Option α) (expected : List (Option TokenKind)) : P α
  just (kind : TokenKind) : P Unit
  any : P TokenKind
  finish : P Unit
  withSpan {α β : Type} (f : α → Span → β) (p : P α) : P β
  check {α β : Type} (f : α → Span → β × List (Span × String)) (p : P α) : P β
  either {α : Type} (p q : P α) : P α
  choice {α : Type} (ps : List (P α)) : P α
  optional {α : Type} (p : P α) : P (Option α)
  many {α : Type} (p : P α) : P (List α)
  sepBy {α : Type} (item : P α) (sep : P Unit) : P (List α)
  recoverDelimited {α : Type} (pair other : Parser.Delimiters) (fallback : Span → α) (p : P α) :
    P α
  recoverSkipping {α : Type} (p : P α) : P α
  /-- for the number of tokens left -/
  deferred {α : Type} (f : Nat → P α) : P α
  /-- of two spans of one source -/
  merge (a b : Span) : P Span
  /-- of an offset which is not the last -/
  nextOffset (offset : Nat) : P Nat

instance : Combinators Parser where
  fail := Parser.fail
  token := Parser.token
  just := Parser.just
  any := Parser.any
  finish := Parser.finish
  withSpan := Parser.withSpan
  check := Parser.check
  either := Parser.or
  choice := Parser.choice
  optional := Parser.optional
  many := Parser.many
  sepBy := Parser.sepBy
  recoverDelimited := Parser.recoverDelimited
  recoverSkipping := Parser.recoverSkipping
  deferred := Parser.deferred
  merge := Parser.merge
  nextOffset := Parser.nextOffset

theorem Parser.deferred_apply {α : Type} (f : Nat → Parser α) (c : Cursor) :
    (Combinators.deferred f : Parser α) c = f c.left c := rfl

end LunSyntax
