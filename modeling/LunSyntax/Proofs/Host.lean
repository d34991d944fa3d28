import LunSyntax.Host
import LunSyntax.Proofs.Grammar.Diagnostics
import LunSyntax.Proofs.Grammar.Wording
import LunSyntax.Proofs.Source.Numbering
import LunSyntax.Proofs.Text.Ansi
import LunSyntax.Proofs.Text.Utf8
import LunSyntax.Proofs.Tree.Structure

/-!
# Hosts get all there is

A text with a zero in it is not handed over to a host.  There is no such text: a source ends before
the first zero, trees are written in printable chars, reasons quote no chars but those of the source
besides, and displays lose their controls along with their colors.

* `Shape.sexp_quotes`: S-expressions are printable;
* `Tree.messages_plain`: messages without color, one for each diagnostic;
* `Host.parserAfter`: the parser of a host after some calls to set a language, with the invariant
  `Host.Prepared`;
* `Host.parse_delivers`: a host gets the S-expression and the messages of the tree of its text.
-/

set_option autoImplicit false

namespace LunSyntax

open List (Forall₂)

/-! ## Texts without a zero -/

theorem Quotes.zero_not_mem {source : List Char} {text : String} (h : Quotes source text)
    (hsource : '\x00' ∉ source) : '\x00' ∉ text.toList := by
  intro hzero
  rcases h _ hzero with hmem | hprintable
  · exact hsource hmem
  · exact absurd hprintable (by decide)

theorem NodeKind.name_printable (kind : NodeKind) : kind.name.toList.all isPrintable = true := by
  cases kind <;> decide

theorem Field.text_printable (field : Field) : field.text.toList.all isPrintable = true := by
  cases field <;> decide

namespace Shape

mutual

/-- A node is written in printable chars, before a text of such chars. -/
theorem sexpBefore_printable {after : List Char} (hafter : after.all isPrintable = true) :
    ∀ s : Shape, (s.sexpBefore after).all isPrintable = true
  | node kind _ _ children => by
    have hclosed : (')' :: after).all isPrintable = true := by
      rw [List.all_cons, hafter]
      rfl
    rw [sexpBefore, List.all_cons, List.all_append, kind.name_printable,
      childrenBefore_printable hclosed children]
    rfl

theorem childrenBefore_printable {after : List Char} (hafter : after.all isPrintable = true) :
    ∀ children : List Shape, (childrenBefore after children).all isPrintable = true
  | [] => by rw [childrenBefore, hafter]
  | node kind field extent children :: rest => by
    have hnode := sexpBefore_printable (childrenBefore_printable hafter rest)
      (node kind field extent children)
    cases field with
    | none =>
      rw [childrenBefore, List.all_cons, hnode]
      rfl
    | some field =>
      rw [childrenBefore, List.all_cons, List.all_append, field.text_printable, List.all_cons,
        List.all_cons, hnode]
      rfl

end

/-- **S-expressions are printable.** -/
theorem sexp_quotes (source : List Char) (s : Shape) : Quotes source s.sexp :=
  .of_printable (by rw [sexp_toList, sexpBefore_printable rfl])

end Shape

theorem Tree.sexp_quotes (source : List Char) (t : Tree) (id : Nat) :
    Quotes source (t.sexp id) := by
  unfold Tree.sexp
  split
  · exact Shape.sexp_quotes source _
  · exact .of_printable rfl

/-! ## Messages without color -/

theorem Message.plain_plain (m : Message) : m.plain.plain = m.plain := by
  have htwice : stripAnsi ∘ stripAnsi = stripAnsi := funext stripAnsi_idempotent
  simp only [Message.plain, Option.map_map, htwice]

/-- A message about a source, with the location and the display of its span but no color. -/
def Message.plainIn (source : String) (m : Message) : Message :=
  let lines := SourceLines.ofSource source
  { m with
    location := m.span.bind (Span.locate? · lines)
    display := (m.span.bind fun span =>
      drawDisplay lines "" m span.start span.stop).map stripAnsi }

/-- Without color it does not matter whether there were colors. -/
theorem Message.compose?_plain {source : String} {id : UInt16} {d : Diagnostic}
    (h : d.Bounded source id) (colored : Bool) :
    ∃ composed, (Message.ofDiagnostic d).compose? (.single id "" source) colored = some composed ∧
      composed.plain = (Message.ofDiagnostic d).plainIn source := by
  obtain ⟨span, hspan, rfl, hforward, hle⟩ := h
  have hpath : (SourceTree.single span.source "" source).path? span.source = some "" := by
    rw [SourceTree.path?_single, if_pos rfl]
  have hcontent : (SourceTree.single span.source "" source).content? "" = some source := by
    rw [SourceTree.content?_single, if_pos (samePath_iff.2 rfl)]
  obtain ⟨location, hlocation⟩ := span.locate?_eq_some hforward hle
  replace hspan : (Message.ofDiagnostic d).span = some span := hspan
  unfold Message.compose? Message.plainIn
  simp only [hspan, hpath, hcontent, hlocation, hforward, Option.bind_eq_bind, Option.bind_some,
    Option.pure_def, if_true]
  refine ⟨_, rfl, ?_⟩
  cases colored with
  | true => rfl
  | false => exact Message.plain_plain _

/-- **Without color there is one message for each diagnostic**, whatever the terminal. -/
theorem Tree.messages_plain (language : Language) (source : String) {options : Options}
    (hplain : options.display = .plain) (colored : Bool) :
    let t := Tree.parse language source options
    t.messages colored = t.diagnostics.map fun d => (Message.ofDiagnostic d).plainIn source := by
  intro t
  have hcomposed : ∀ m ∈ t.diagnostics.map Message.ofDiagnostic, ∃ composed,
      m.compose? (.single options.source "" source) colored = some composed ∧
        composed.plain = m.plainIn source := by
    intro m hm
    obtain ⟨d, hd, rfl⟩ := List.mem_map.1 hm
    exact Message.compose?_plain (parse_bounded source options.source d hd) colored
  obtain ⟨composed, hmessages, heach⟩ := composeMessages?_each hcomposed
  have hshown : t.messages colored = composed.map Message.plain := by
    have happly : options.display.apply composed = composed.map Message.plain := by
      rw [hplain]
      rfl
    exact (congrArg (fun ms => options.display.apply (Option.getD ms _)) hmessages).trans happly
  rw [hshown, eq_comm, ← List.forall₂_eq_eq_eq, List.forall₂_map_left_iff,
    List.forall₂_map_right_iff]
  exact (List.forall₂_map_left_iff.1 heach).imp fun _ _ => Eq.symm

/-! ## Answers -/

/-- The texts of a message, which a host gets one by one. -/
def Message.texts (m : Message) : List String :=
  m.code.toList ++ m.display.toList ++ [m.reason, "\n".intercalate m.hints]

/-- **No message has a zero in a text**, if the source has none. -/
theorem Message.plainIn_texts {source : String} {d : Diagnostic} (h : d.Quotes source.toList)
    (hsource : '\x00' ∉ source.toList) :
    ∀ text ∈ ((Message.ofDiagnostic d).plainIn source).texts, '\x00' ∉ text.toList := by
  have hcode : ∀ text ∈ d.code.toList, '\x00' ∉ text.toList := fun text htext =>
    (h.code text (Option.mem_toList.1 htext)).zero_not_mem hsource
  have hreason := h.reason.zero_not_mem hsource
  have hhints : '\x00' ∉ ("\n".intercalate d.hints).toList := by
    rw [h.hints]
    decide
  have hdisplay : ∀ text ∈ ((Message.ofDiagnostic d).plainIn source).display.toList,
      '\x00' ∉ text.toList := by
    intro text htext
    obtain ⟨colored, -, rfl⟩ := Option.map_eq_some_iff.1 (Option.mem_toList.1 htext)
    exact zero_not_mem_stripAnsi colored
  refine List.forall_mem_append.2 ⟨List.forall_mem_append.2 ⟨hcode, hdisplay⟩, ?_⟩
  exact List.forall_mem_cons.2 ⟨hreason, List.forall_mem_singleton.2 hhints⟩

namespace Host

theorem handOver_eq_self {text : String} (h : '\x00' ∉ text.toList) : handOver text = text := by
  rw [handOver, if_neg (by rwa [List.contains_iff_mem])]

/-- A message which a host gets says the same. -/
structure Delivers (m : Message) (delivered : HostMessage) : Prop where
  code : delivered.code = m.code
  reason : delivered.reason = m.reason
  hint : delivered.hint = if m.hints = [] then none else some ("\n".intercalate m.hints)
  span : delivered.span = m.span.map fun span => ⟨span.start, span.stop⟩
  display : delivered.display = m.display
  location : delivered.location = m.location

theorem ofMessage_delivers {m : Message} (h : ∀ text ∈ m.texts, '\x00' ∉ text.toList) :
    Delivers m (ofMessage m) := by
  have hoption : ∀ option : Option String, (∀ text ∈ option.toList, text ∈ m.texts) →
      option.map handOver = option := by
    rintro (_ | text) hmem
    · rfl
    · exact congrArg some (handOver_eq_self (h text (hmem text List.mem_cons_self)))
  have hreason : m.reason ∈ m.texts := by simp [Message.texts]
  have hhints : "\n".intercalate m.hints ∈ m.texts := by simp [Message.texts]
  refine ⟨hoption _ fun text ht => ?_, handOver_eq_self (h _ hreason), ?_, rfl,
    hoption _ fun text ht => ?_, rfl⟩
  · exact List.mem_append_left _ (List.mem_append_left _ ht)
  · simp only [ofMessage, List.isEmpty_iff, handOver_eq_self (h _ hhints)]
  · exact List.mem_append_left _ (List.mem_append_right _ ht)

/-! ## Parsers -/

/-- The parser of a host after some calls to set a language, some of them without one. -/
def parserAfter (languages : List (Option Language)) : Option Session :=
  languages.foldl (fun parser language => (setLanguage parser language).1) (some newParser)

/-- A parser of a host has the options of a new one, and a language it knows. -/
structure Prepared (parser : Session) : Prop where
  options : parser.options = newParser.options
  compatible : ∀ language ∈ parser.language, language.isCompatible = true

theorem newParser_prepared : Prepared newParser := ⟨rfl, nofun⟩

/-- Setting a language keeps a parser prepared, be it refused or not. -/
theorem setLanguage_prepared {parser : Session} (h : Prepared parser) (language : Option Language) :
    ∃ parser', (setLanguage (some parser) language).1 = some parser' ∧ Prepared parser' := by
  unfold setLanguage Session.setLanguage
  cases language with
  | none => exact ⟨parser, rfl, h⟩
  | some language =>
    by_cases hknown : language.isCompatible = true
    · refine ⟨{ parser with language := some language }, by simp [hknown], h.options, ?_⟩
      rintro _ ⟨⟩
      exact hknown
    · exact ⟨parser, by simp [hknown], h⟩

/-- **There always is a parser, and it is prepared.** -/
theorem parserAfter_prepared (languages : List (Option Language)) :
    ∃ parser, parserAfter languages = some parser ∧ Prepared parser := by
  have hrun : ∀ {parser : Session}, Prepared parser → ∃ parser',
      languages.foldl (fun parser language => (setLanguage parser language).1) (some parser) =
        some parser' ∧ Prepared parser' := by
    induction languages with
    | nil => exact fun h => ⟨_, rfl, h⟩
    | cons language rest ih =>
      intro parser h
      obtain ⟨parser', hset, h'⟩ := setLanguage_prepared h language
      rw [List.foldl_cons, hset]
      exact ih h'
  exact hrun newParser_prepared

/-- A parser with a language is a new one without color which got the language. -/
theorem Prepared.setLanguage_eq {parser : Session} (h : Prepared parser) {language : Language}
    (hset : parser.language = some language) :
    (Session.withoutColor {}).setLanguage language = .ok parser := by
  obtain ⟨_, _⟩ := parser
  obtain ⟨rfl, hknown⟩ := h
  obtain rfl := hset
  rw [Session.setLanguage, if_pos (hknown language rfl)]
  rfl

/-- The diagnostics of a tree quote its text, and its messages have no color. -/
theorem Prepared.parse?_eq {parser : Session} (h : Prepared parser) {language : Language}
    (hset : parser.language = some language) (source : String) :
    ∃ tree, parser.parse? source = some tree ∧
      (∀ d ∈ tree.diagnostics, d.Quotes source.toList) ∧
      ∀ colored, tree.messages colored =
        tree.diagnostics.map fun d => (Message.ofDiagnostic d).plainIn source := by
  refine ⟨Tree.parse language source parser.options, ?_, parse_quotes _ _,
    Tree.messages_plain language source (congrArg Options.display h.options)⟩
  rw [Session.parse?, hset]
  rfl

/-! ## Parsing -/

/-- The text of bytes ends before the first zero. -/
theorem zero_not_mem_textOf (bytes : List UInt8) : '\x00' ∉ (textOf bytes).toList := by
  rw [textOf, decodeUtf8Lossy, String.toList_ofList]
  refine zero_not_mem_lossyChars fun hzero => ?_
  exact absurd (List.all_eq_true.1 List.all_takeWhile 0 hzero) (by decide)

/-- What a diagnostic says is in a message. -/
structure Presents (d : Diagnostic) (m : Message) : Prop where
  code : m.code = d.code
  reason : m.reason = d.reason.message
  span : m.span = d.span

/-- **A host gets all there is.**  Whatever languages a parser was given, if it has one, then any
bytes up to the first zero are parsed as their text is by a parser without color.  The answer has
the S-expression of the tree and one message for each of its diagnostics, in order, which says the
same as the message of the tree.  No text has a zero in it, so none is given up. -/
theorem parse_delivers (colored colored' : Bool) {languages : List (Option Language)}
    {parser : Session} {language : Language} (hparser : parserAfter languages = some parser)
    (hlanguage : parser.language = some language) (bytes : List UInt8) :
    let answer := parseOn colored (some parser) (some bytes)
    ∃ session tree, (Session.withoutColor {}).setLanguage language = .ok session ∧
      session.parse? (decodeUtf8Lossy (bytes.takeWhile (· != 0))) = some tree ∧
      answer.output = tree.sexp 0 ∧
      Forall₂ Presents tree.diagnostics (tree.messages colored') ∧
      Forall₂ Delivers (tree.messages colored') answer.messages ∧
      ∀ text ∈ tree.sexp 0 :: (tree.messages colored').flatMap Message.texts,
        '\x00' ∉ text.toList := by
  intro answer
  have hprepared : Prepared parser := by
    obtain ⟨parser', hrun, h⟩ := parserAfter_prepared languages
    exact Option.some.inj (hrun.symm.trans hparser) ▸ h
  have hzero := zero_not_mem_textOf bytes
  obtain ⟨tree, hparse, hquotes, hplain⟩ := hprepared.parse?_eq hlanguage (textOf bytes)
  have hanswer : answer = Host.answer (tree.sexp 0) (tree.messages colored') := by
    -- without color the terminal of the host is no matter
    rw [hplain colored', ← hplain colored]
    simp only [answer, parseOn, hparse]
  have hsexp := (tree.sexp_quotes (textOf bytes).toList 0).zero_not_mem hzero
  have htexts : ∀ m ∈ tree.messages colored', ∀ text ∈ m.texts, '\x00' ∉ text.toList := by
    rw [hplain colored']
    intro m hm
    obtain ⟨d, hd, rfl⟩ := List.mem_map.1 hm
    exact Message.plainIn_texts (hquotes d hd) hzero
  refine ⟨parser, tree, hprepared.setLanguage_eq hlanguage, hparse, ?_, ?_, ?_, ?_⟩
  · rw [hanswer]
    exact handOver_eq_self hsexp
  · rw [hplain colored', List.forall₂_map_right_iff, List.forall₂_same]
    exact fun d _ => ⟨rfl, rfl, rfl⟩
  · rw [hanswer]
    exact List.forall₂_map_right_iff.2
      (List.forall₂_same.2 fun m hm => ofMessage_delivers (htexts m hm))
  · refine List.forall_mem_cons.2 ⟨hsexp, fun text htext => ?_⟩
    obtain ⟨m, hm, htext⟩ := List.mem_flatMap.1 htext
    exact htexts m hm text htext

/-- A host asks for a version which is not known, then for the current one, and hands over a byte
which is no text, a char which starts no token and an end before the last byte. -/
theorem parse_delivers_lossy :
    let languages : List (Option Language) := [some ⟨7⟩, some .current, none]
    let bytes : List UInt8 := [97, 32, 58, 58, 32, 255, 35, 59, 0, 98]
    ∃ parser, parserAfter languages = some parser ∧ parser.language = some .current ∧
      decodeUtf8Lossy (bytes.takeWhile (· != 0)) = "a :: \uFFFD#;" ∧
      let answer := parseOn true (some parser) (some bytes)
      answer.messages.map HostMessage.span = [some ⟨5, 7⟩, some ⟨0, 8⟩] ∧
      ∃ session tree, (Session.withoutColor {}).setLanguage .current = .ok session ∧
        session.parse? (decodeUtf8Lossy (bytes.takeWhile (· != 0))) = some tree ∧
        answer.output = tree.sexp 0 ∧
        Forall₂ Presents tree.diagnostics (tree.messages false) ∧
        Forall₂ Delivers (tree.messages false) answer.messages ∧
        ∀ text ∈ tree.sexp 0 :: (tree.messages false).flatMap Message.texts,
          '\x00' ∉ text.toList := by
  intro languages bytes
  have hparser : parserAfter languages =
      some { newParser with language := some .current } := by decide
  exact ⟨_, hparser, rfl, by decide +kernel, by decide +kernel,
    parse_delivers true false hparser rfl bytes⟩

end Host

end LunSyntax
