import LunSyntax.Ast.Reader
import LunSyntax.Proofs.Token.Recovery

/-!
# Reading syntax back

Files are read back from the documents they are written as, not only those which a parser makes:
names may hold any chars, spans may be of any sources and in any order, and forms may be inside of
each other in any way.  Numbers have to fit in machine words, as those of tokens do.

* `SourceFile.fits`: whether the numbers of a file are such;
* `Expr.recovers`: an expression comes back, or has more brackets than may be opened;
* `json_recovers`: the same of files and tokens, by the nesting of their texts.
-/

set_option autoImplicit false

namespace LunSyntax

open Reader

/-! ## Numbers of machine words -/

/-- Whether both ends fit in a machine word. -/
def Span.fits (s : Span) : Bool := s.start ≤ maxOffset && s.stop ≤ maxOffset

/-- Whether the start of a path has a span that fits. -/
def PathRoot.fits : PathRoot → Bool
  | orb span => span.fits
  | ident name => name.span.fits

def Path.fits (p : Path) : Bool := p.root.fits && p.segments.all (·.span.fits)

mutual

/-- Whether the numbers of an expression fit: those of its spans and those of its literals. -/
def Expr.fits : Expr → Bool
  | ⟨kind, span⟩ => kind.fits && span.fits

/-- Whether the numbers of a form fit. -/
def ExprKind.fits : ExprKind → Bool
  | .bool _ | .null | .error => true
  | .literal lit => lit.fits
  | .paren inner | .deref inner => inner.fits
  | .path path => path.fits
  | .binary lhs op rhs => lhs.fits && op.span.fits && rhs.fits
  | .assign lhs rhs => lhs.fits && rhs.fits
  | .unary op operand => op.span.fits && operand.fits
  | .borrow mutSpan operand => mutSpan.all Span.fits && operand.fits
  | .call callee args => callee.fits && args.fits
  | .field base name => base.fits && name.span.fits
  | .conditional cond consequent alternative =>
    cond.fits && consequent.fits && alternativeFits alternative
  | .ret value => optionFits value
  | .brk label value => label.all (·.span.fits) && optionFits value
  | .cont label => label.all (·.span.fits)
  | .block body | .loop body => body.fits
  | .whileLoop cond body => cond.fits && body.fits
  | .forLoop var iterator body => var.span.fits && iterator.fits && body.fits
  | .labeled label inner => label.span.fits && inner.fits

/-- Whether the numbers of arguments fit. -/
def Arguments.fits : Arguments → Bool
  | ⟨args, span⟩ => exprsFit args && span.fits

/-- Whether the numbers of the other case of a conditional fit. -/
def alternativeFits : Option Alternative → Bool
  | none => true
  | some (.chain conditional) => conditional.fits
  | some (.block body) => body.fits

def Block.fits : Block → Bool
  | ⟨stmts, lastExpr, span⟩ => stmtsFit stmts && optionFits lastExpr && span.fits

/-- Whether the numbers of an expression fit, if there is one. -/
def optionFits : Option Expr → Bool
  | none => true
  | some e => e.fits

def exprsFit : List Expr → Bool
  | [] => true
  | e :: rest => e.fits && exprsFit rest

def stmtsFit : List Stmt → Bool
  | [] => true
  | ⟨e, _⟩ :: rest => e.fits && stmtsFit rest

end

/-- Whether the numbers of a type fit. -/
def TypeExpr.fits : TypeExpr → Bool
  | primitive type => type.span.fits
  | expr e => e.fits

def GlobalDef.fits (d : GlobalDef) : Bool :=
  d.name.span.fits && d.type.all TypeExpr.fits && d.value.fits

def Item.fits (item : Item) : Bool := item.definition.fits && item.span.fits

def SourceFile.fits (file : SourceFile) : Bool := file.items.all Item.fits && file.span.fits

/-! ## Names and paths -/

variable {room : Nat}

theorem Span.recovers {s : Span} (h : s.fits = true) : Recovers place room s.toDocument s := by
  obtain ⟨hstart, hstop⟩ : s.start ≤ maxOffset ∧ s.stop ≤ maxOffset := by
    simpa [Span.fits] using h
  exact recovers_place hstart hstop

theorem Ident.recovers {i : Ident} (h : i.span.fits = true) :
    Recovers (Ident.read room) room i.toDocument i :=
  (recovers_record (by simp) fun _ =>
    .next (recovers_str i.name) (.next (Span.recovers h) .nil)).bind rfl

/-- A value which may be missing, with null in its place. -/
theorem recovers_ofOption {α : Type} {r : Reader α} {toDocument : α → Document} {fits : α → Bool}
    {value : Option α} (hvalue : value.all fits = true)
    (h : ∀ a, fits a = true → Recovers r room (toDocument a) a ∧ toDocument a ≠ .null) :
    Recovers (option r) room (Document.ofOption toDocument value) value := by
  cases value with
  | none => exact recovers_none
  | some a =>
    obtain ⟨hread, hnull⟩ := h a hvalue
    exact hread.option hnull

theorem Span.option_recovers {value : Option Span} (h : value.all Span.fits = true) :
    Recovers (option place) room (Document.ofOption Span.toDocument value) value :=
  recovers_ofOption h fun _ hs => ⟨Span.recovers hs, nofun⟩

theorem Ident.option_recovers {value : Option Ident} (h : value.all (·.span.fits) = true) :
    Recovers (option (Ident.read room)) room (Document.ofOption Ident.toDocument value) value :=
  recovers_ofOption h fun _ hi => ⟨Ident.recovers hi, nofun⟩

theorem recovers_named {α : Type} {all : List α} {name : α → String} {a : α}
    (h : all.find? (name · == name a) = some a) :
    Recovers (readNamed all name room) room (.str (name a)) a :=
  recovers_bare (List.mem_map_of_mem (List.mem_of_find?_eq_some h)) h

theorem Spanned.recovers {α : Type} {all : List α} {name : α → String} {s : Spanned α}
    (h : s.span.fits = true) (hnode : all.find? (name · == name s.node) = some s.node) :
    Recovers (Spanned.read all name room) room (s.toDocument name) s :=
  (recovers_record (by simp) fun _ =>
    .next (recovers_named hnode) (.next (Span.recovers h) .nil)).bind rfl

theorem BinOp.find?_caseName (op : BinOp) :
    BinOp.all.find? (BinOp.caseName · == op.caseName) = some op := by
  cases op <;> rfl

theorem UnOp.find?_caseName (op : UnOp) :
    UnOp.all.find? (UnOp.caseName · == op.caseName) = some op := by
  cases op <;> rfl

theorem PrimitiveType.find?_caseName (type : PrimitiveType) :
    PrimitiveType.all.find? (PrimitiveType.caseName · == type.caseName) = some type := by
  cases type <;> rfl

theorem PathRoot.recovers {root : PathRoot} (h : root.fits = true) :
    Recovers (PathRoot.read room) room root.toDocument root := by
  cases root with
  | orb span => exact recovers_variant (by simp) fun _ => ⟨_, rfl, (Span.recovers h).map _⟩
  | ident name => exact recovers_variant (by simp) fun _ => ⟨_, rfl, (Ident.recovers h).map _⟩

theorem Path.recovers {p : Path} (h : p.fits = true) :
    Recovers (Path.read room) room p.toDocument p := by
  obtain ⟨hroot, hsegments⟩ : p.root.fits = true ∧ ∀ i ∈ p.segments, i.span.fits = true := by
    simpa [Path.fits] using h
  have hlist : ∀ d, Recovers (list (deeper d Ident.read)) d
      (.list (p.segments.map Ident.toDocument)) p.segments :=
    fun _ => recovers_list fun _ i hi => Ident.recovers (hsegments i hi)
  exact (recovers_record (by simp) fun d =>
    .next (PathRoot.recovers hroot) (.next (hlist d) .nil)).bind rfl

/-! ## Expressions -/

/-- The readers of what is inside of the record of a form. -/
def Operands.within (depth : Nat) : Operands :=
  ⟨depth, Expr.read depth, Block.read depth, Arguments.read depth, Alternative.read depth⟩

theorem Expr.read_eq (depth : Nat) :
    Expr.read depth = readExprRecord (deeper depth ExprKind.read) := by
  cases depth <;> rfl

theorem ExprKind.read_eq (depth : Nat) :
    ExprKind.read depth = case ExprKind.caseNames ExprKind.bare? (deeper depth fun d =>
      readFormCase d (Expr.read d) (Block.read d) (deeper d Operands.within)) := by
  match depth with
  | 0 | 1 | _ + 2 => rfl

theorem Arguments.read_eq (depth : Nat) :
    Arguments.read depth = readArgumentsRecord (deeper depth fun d => deeper d Expr.read) := by
  match depth with
  | 0 | 1 | _ + 2 => rfl

theorem Alternative.read_eq (depth : Nat) :
    Alternative.read depth =
      readAlternativeCase (deeper depth fun d => (Expr.read d, Block.read d)) := by
  cases depth <;> rfl

theorem Block.read_eq (depth : Nat) :
    Block.read depth =
      readBlockRecord (deeper depth fun d => (deeper d Stmt.read, Expr.read d)) := by
  match depth with
  | 0 | 1 | _ + 2 => rfl

theorem Stmt.read_eq (depth : Nat) :
    Stmt.read depth = readStmtRecord (deeper depth Expr.read) := by
  cases depth <;> rfl

/-- A form with content, by the reader of its name. -/
theorem recovers_form {name : String} {content : Document} {kind : ExprKind}
    (hname : name ∈ ExprKind.caseNames)
    (h : ∀ d, ∃ r, readFormCase d (Expr.read d) (Block.read d) (deeper d Operands.within) name =
      .content r ∧ Recovers r d content kind) :
    Recovers (ExprKind.read room) room (.variant name content) kind := by
  rw [ExprKind.read_eq]
  exact recovers_variant hname h

/-- A statement as a record. -/
def Stmt.toDocument (s : Stmt) : Document :=
  .record [("expr", s.expr.toDocument), ("semicolon", .bool s.semicolon)]

theorem exprsToDocuments_eq (es : List Expr) : exprsToDocuments es = es.map Expr.toDocument := by
  induction es with
  | nil => rw [exprsToDocuments, List.map_nil]
  | cons e rest ih => rw [exprsToDocuments, List.map_cons, ih]

theorem stmtsToDocuments_eq (stmts : List Stmt) :
    stmtsToDocuments stmts = stmts.map Stmt.toDocument := by
  induction stmts with
  | nil => rw [stmtsToDocuments, List.map_nil]
  | cons s rest ih =>
    obtain ⟨e, semicolon⟩ := s
    rw [stmtsToDocuments, List.map_cons, ih, Stmt.toDocument]

theorem Expr.toDocument_ne_null (e : Expr) : e.toDocument ≠ .null := by
  obtain ⟨kind, span⟩ := e
  exact nofun

-- The induction is on the syntax.  Its depth has nothing to do with the number of brackets that may
-- be opened, so that all statements are about any such number.

mutual

/-- **An expression is read back from its document.** -/
theorem Expr.recovers : ∀ e : Expr, e.fits = true → ∀ room,
    Recovers (Expr.read room) room e.toDocument e
  | ⟨kind, span⟩, h, room => by
    obtain ⟨hkind, hspan⟩ : kind.fits = true ∧ span.fits = true := by simpa [Expr.fits] using h
    rw [Expr.read_eq, Expr.toDocument]
    exact (recovers_record_map (by simp) fun d =>
      .next (ExprKind.recovers kind hkind d) (.next (Span.recovers hspan) .nil)).bind rfl

theorem ExprKind.recovers : ∀ kind : ExprKind, kind.fits = true → ∀ room,
    Recovers (ExprKind.read room) room kind.toDocument kind
  | .bool value, _, _ => recovers_form (by decide) fun _ => ⟨_, rfl, (recovers_bool value).map _⟩
  | .literal lit, h, _ =>
    recovers_form (by decide) fun _ => ⟨_, rfl, (Literal.recovers h).map _⟩
  | .null, _, room => by
    rw [ExprKind.read_eq]
    exact recovers_bare (by decide) rfl
  | .paren inner, h, _ =>
    recovers_form (by decide) fun d => ⟨_, rfl, (Expr.recovers inner h d).map _⟩
  | .path path, h, _ => recovers_form (by decide) fun _ => ⟨_, rfl, (Path.recovers h).map _⟩
  | .binary lhs op rhs, h, _ => by
    simp only [ExprKind.fits, Bool.and_eq_true] at h
    obtain ⟨⟨hlhs, hop⟩, hrhs⟩ := h
    refine recovers_form (by decide) fun _ => ⟨_, rfl, ?_⟩
    exact (recovers_record_map (by simp) fun d => .next (Expr.recovers lhs hlhs d)
      (.next (Spanned.recovers hop op.node.find?_caseName)
        (.next (Expr.recovers rhs hrhs d) .nil))).bind rfl
  | .assign lhs rhs, h, _ => by
    simp only [ExprKind.fits, Bool.and_eq_true] at h
    refine recovers_form (by decide) fun _ => ⟨_, rfl, ?_⟩
    exact (recovers_record_map (by simp) fun d => .next (Expr.recovers lhs h.1 d)
      (.next (Expr.recovers rhs h.2 d) .nil)).bind rfl
  | .unary op operand, h, _ => by
    simp only [ExprKind.fits, Bool.and_eq_true] at h
    refine recovers_form (by decide) fun _ => ⟨_, rfl, ?_⟩
    exact (recovers_record_map (by simp) fun d =>
      .next (Spanned.recovers h.1 op.node.find?_caseName)
      (.next (Expr.recovers operand h.2 d) .nil)).bind rfl
  | .deref operand, h, _ =>
    recovers_form (by decide) fun d => ⟨_, rfl, (Expr.recovers operand h d).map _⟩
  | .borrow mutSpan operand, h, _ => by
    simp only [ExprKind.fits, Bool.and_eq_true] at h
    refine recovers_form (by decide) fun _ => ⟨_, rfl, ?_⟩
    exact (recovers_record_map (by simp) fun d => .next (Span.option_recovers h.1)
      (.next (Expr.recovers operand h.2 d) .nil)).bind rfl
  | .call callee args, h, _ => by
    simp only [ExprKind.fits, Bool.and_eq_true] at h
    refine recovers_form (by decide) fun _ => ⟨_, rfl, ?_⟩
    exact (recovers_record_map (by simp) fun d => .next (Expr.recovers callee h.1 d)
      (.next (Arguments.recovers args h.2 d) .nil)).bind rfl
  | .field base name, h, _ => by
    simp only [ExprKind.fits, Bool.and_eq_true] at h
    refine recovers_form (by decide) fun _ => ⟨_, rfl, ?_⟩
    exact (recovers_record_map (by simp) fun d => .next (Expr.recovers base h.1 d)
      (.next (Ident.recovers h.2) .nil)).bind rfl
  | .conditional cond consequent alternative, h, _ => by
    simp only [ExprKind.fits, Bool.and_eq_true] at h
    obtain ⟨⟨hcond, hconsequent⟩, halternative⟩ := h
    refine recovers_form (by decide) fun _ => ⟨_, rfl, ?_⟩
    exact (recovers_record_map (by simp) fun d => .next (Expr.recovers cond hcond d)
      (.next (Block.recovers consequent hconsequent d)
        (.next (alternative_recovers alternative halternative d) .nil))).bind rfl
  | .ret value, h, _ =>
    recovers_form (by decide) fun d => ⟨_, rfl, (option_recovers value h d).map _⟩
  | .brk label value, h, _ => by
    simp only [ExprKind.fits, Bool.and_eq_true] at h
    refine recovers_form (by decide) fun _ => ⟨_, rfl, ?_⟩
    exact (recovers_record_map (by simp) fun d => .next (Ident.option_recovers h.1)
      (.next (option_recovers value h.2 d) .nil)).bind rfl
  | .cont label, h, _ =>
    recovers_form (by decide) fun _ => ⟨_, rfl, (Ident.option_recovers h).map _⟩
  | .block body, h, _ =>
    recovers_form (by decide) fun d => ⟨_, rfl, (Block.recovers body h d).map _⟩
  | .whileLoop cond body, h, _ => by
    simp only [ExprKind.fits, Bool.and_eq_true] at h
    refine recovers_form (by decide) fun _ => ⟨_, rfl, ?_⟩
    exact (recovers_record_map (by simp) fun d => .next (Expr.recovers cond h.1 d)
      (.next (Block.recovers body h.2 d) .nil)).bind rfl
  | .forLoop var iterator body, h, _ => by
    simp only [ExprKind.fits, Bool.and_eq_true] at h
    obtain ⟨⟨hvar, hiterator⟩, hbody⟩ := h
    refine recovers_form (by decide) fun _ => ⟨_, rfl, ?_⟩
    exact (recovers_record_map (by simp) fun d => .next (Ident.recovers hvar)
      (.next (Expr.recovers iterator hiterator d)
        (.next (Block.recovers body hbody d) .nil))).bind rfl
  | .loop body, h, _ => by
    refine recovers_form (by decide) fun _ => ⟨_, rfl, ?_⟩
    exact (recovers_record_map (by simp) fun d => .next (Block.recovers body h d) .nil).bind rfl
  | .labeled label inner, h, _ => by
    simp only [ExprKind.fits, Bool.and_eq_true] at h
    refine recovers_form (by decide) fun _ => ⟨_, rfl, ?_⟩
    exact (recovers_record_map (by simp) fun d => .next (Ident.recovers h.1)
      (.next (Expr.recovers inner h.2 d) .nil)).bind rfl
  | .error, _, _ => by
    rw [ExprKind.read_eq]
    exact recovers_bare (by decide) rfl

theorem Arguments.recovers : ∀ args : Arguments, args.fits = true → ∀ room,
    Recovers (Arguments.read room) room args.toDocument args
  | ⟨args, span⟩, h, room => by
    obtain ⟨hargs, hspan⟩ : exprsFit args = true ∧ span.fits = true := by
      simpa [Arguments.fits] using h
    have hlist : ∀ d, Recovers (list (deeper d Expr.read)) d (.list (exprsToDocuments args))
        args := by
      intro d
      rw [exprsToDocuments_eq]
      exact recovers_list fun e arg harg => exprs_recover args hargs arg harg e
    rw [Arguments.read_eq, Arguments.toDocument]
    exact (recovers_record_map (by simp) fun d =>
      .next (hlist d) (.next (Span.recovers hspan) .nil)).bind rfl

theorem alternative_recovers : ∀ alternative : Option Alternative,
    alternativeFits alternative = true → ∀ room,
    Recovers (option (Alternative.read room)) room (alternativeToDocument alternative) alternative
  | none, _, room => by
    rw [alternativeToDocument]
    exact recovers_none
  | some (.chain conditional), h, room => by
    rw [alternativeFits] at h
    rw [alternativeToDocument, Alternative.read_eq, readAlternativeCase, deeper_map]
    refine Recovers.option (recovers_variant (by simp) fun d => ⟨_, rfl, ?_⟩) nofun
    exact (Expr.recovers conditional h d).map _
  | some (.block body), h, room => by
    rw [alternativeFits] at h
    rw [alternativeToDocument, Alternative.read_eq, readAlternativeCase, deeper_map]
    refine Recovers.option (recovers_variant (by simp) fun d => ⟨_, rfl, ?_⟩) nofun
    exact (Block.recovers body h d).map _

theorem Block.recovers : ∀ body : Block, body.fits = true → ∀ room,
    Recovers (Block.read room) room body.toDocument body
  | ⟨stmts, lastExpr, span⟩, h, room => by
    simp only [Block.fits, Bool.and_eq_true] at h
    obtain ⟨⟨hstmts, hlast⟩, hspan⟩ := h
    have hlist : ∀ d, Recovers (list (deeper d Stmt.read)) d (.list (stmtsToDocuments stmts))
        stmts := by
      intro d
      rw [stmtsToDocuments_eq]
      exact recovers_list fun e s hs => stmts_recover stmts hstmts s hs e
    rw [Block.read_eq, Block.toDocument]
    exact (recovers_record_map (by simp) fun d => .next (hlist d)
      (.next (option_recovers lastExpr hlast d) (.next (Span.recovers hspan) .nil))).bind rfl

theorem option_recovers : ∀ value : Option Expr, optionFits value = true → ∀ room,
    Recovers (option (Expr.read room)) room (optionToDocument value) value
  | none, _, room => by
    rw [optionToDocument]
    exact recovers_none
  | some e, h, room => by
    rw [optionFits] at h
    rw [optionToDocument]
    exact (Expr.recovers e h room).option e.toDocument_ne_null

theorem exprs_recover : ∀ es : List Expr, exprsFit es = true → ∀ e ∈ es, ∀ room,
    Recovers (Expr.read room) room e.toDocument e
  | [], _ => fun e he => nomatch he
  | e :: rest, h => by
    obtain ⟨he, hrest⟩ : e.fits = true ∧ exprsFit rest = true := by simpa [exprsFit] using h
    exact List.forall_mem_cons.2 ⟨Expr.recovers e he, exprs_recover rest hrest⟩

theorem stmts_recover : ∀ stmts : List Stmt, stmtsFit stmts = true → ∀ s ∈ stmts, ∀ room,
    Recovers (Stmt.read room) room s.toDocument s
  | [], _ => fun s hs => nomatch hs
  | ⟨e, semicolon⟩ :: rest, h => by
    obtain ⟨he, hrest⟩ : e.fits = true ∧ stmtsFit rest = true := by simpa [stmtsFit] using h
    refine List.forall_mem_cons.2 ⟨fun room => ?_, stmts_recover rest hrest⟩
    rw [Stmt.read_eq]
    exact (recovers_record_map (by simp) fun d =>
      .next (Expr.recovers e he d) (.next (recovers_bool semicolon) .nil)).bind rfl

end

/-! ## Files -/

theorem TypeExpr.recovers {type : TypeExpr} (h : type.fits = true) :
    Recovers (TypeExpr.read room) room type.toDocument type := by
  cases type with
  | primitive type =>
    refine recovers_variant (by simp) fun _ => ⟨_, rfl, ?_⟩
    exact (Spanned.recovers h type.node.find?_caseName).map _
  | expr e => exact recovers_variant (by simp) fun d => ⟨_, rfl, (Expr.recovers e h d).map _⟩

theorem GlobalDef.recovers {definition : GlobalDef} (h : definition.fits = true) :
    Recovers (GlobalDef.read room) room definition.toDocument definition := by
  obtain ⟨name, type, mutable, value, semicolon⟩ := definition
  simp only [GlobalDef.fits, Bool.and_eq_true] at h
  obtain ⟨⟨hname, htype⟩, hvalue⟩ := h
  cases type with
  | none =>
    exact (recovers_record (by simp) fun d => .next (Ident.recovers hname) (.absent rfl
      (.next (recovers_bool mutable) (.next (Expr.recovers value hvalue d)
        (.next (recovers_bool semicolon) .nil))))).bind rfl
  | some type =>
    have hnull : type.toDocument ≠ .null := by
      cases type <;> exact nofun
    exact (recovers_record (by simp) fun d => .next (Ident.recovers hname)
      (.next ((TypeExpr.recovers htype).option hnull)
        (.next (recovers_bool mutable) (.next (Expr.recovers value hvalue d)
          (.next (recovers_bool semicolon) .nil))))).bind rfl

theorem Item.recovers {item : Item} (h : item.fits = true) :
    Recovers (Item.read room) room item.toDocument item := by
  obtain ⟨hdefinition, hspan⟩ : item.definition.fits = true ∧ item.span.fits = true := by
    simpa [Item.fits] using h
  have hkind : ∀ d, Recovers (case ["GlobalDef"] (fun _ => none)
      (deeper d fun e _ => .content (GlobalDef.read e))) d
      (.variant "GlobalDef" item.definition.toDocument) item.definition :=
    fun _ => recovers_variant (by simp) fun _ => ⟨_, rfl, GlobalDef.recovers hdefinition⟩
  exact (recovers_record (by simp) fun d =>
    .next (hkind d) (.next (Span.recovers hspan) .nil)).bind rfl

theorem SourceFile.recovers {file : SourceFile} (h : file.fits = true) :
    Recovers (SourceFile.read room) room file.toDocument file := by
  obtain ⟨hitems, hspan⟩ : (∀ item ∈ file.items, item.fits = true) ∧ file.span.fits = true := by
    simpa [SourceFile.fits] using h
  have hlist : ∀ d, Recovers (list (deeper d Item.read)) d
      (.list (file.items.map Item.toDocument)) file.items :=
    fun _ => recovers_list fun _ item hitem => Item.recovers (hitems item hitem)
  exact (recovers_record (by simp) fun d =>
    .next (hlist d) (.next (Span.recovers hspan) .nil)).bind rfl

/-! ## Texts -/

/-- **Files and tokens are read back from their JSON.**  Whatever a file or a list of tokens holds,
its text is read as the same file or the same tokens, as long as no more than `maxDepth` brackets
are open at once in the text.  Otherwise reading fails because of that, and never for another
reason. -/
theorem json_recovers :
    (∀ file : SourceFile, file.fits = true →
      (jsonNesting file.toDocument.toJson ≤ maxDepth →
        SourceFile.ofJson file.toDocument.toJson = .ok file) ∧
      (maxDepth < jsonNesting file.toDocument.toJson →
        ∃ place, SourceFile.ofJson file.toDocument.toJson = .error ⟨.tooDeep, some place⟩)) ∧
    (∀ tokens : List Token, tokens.all Token.fits = true →
      (jsonNesting (tokensToDocument tokens).toJson ≤ maxDepth →
        tokensOfJson (tokensToDocument tokens).toJson = .ok tokens) ∧
      (maxDepth < jsonNesting (tokensToDocument tokens).toJson →
        ∃ place, tokensOfJson (tokensToDocument tokens).toJson =
          .error ⟨.tooDeep, some place⟩)) := by
  refine ⟨fun file h => (SourceFile.recovers h).run, fun tokens h => ?_⟩
  have htokens := List.all_eq_true.1 h
  exact (recovers_list fun _ t ht => Token.recovers (htokens t ht)).run

/-- A file with one definition, whose value is in so many parentheses. -/
def SourceFile.parenthesized (n : Nat) : SourceFile :=
  let span : Span := ⟨0xFFFF, maxOffset, 0⟩
  let value := Nat.repeat (fun e => Expr.mk (.paren e) span) n ⟨.ret none, span⟩
  ⟨[⟨⟨⟨"\u0001\"😀\\\n", span⟩, none, true, value, false⟩, span⟩], span⟩

/-- One pair of parentheses too many is refused. -/
theorem json_recovers_parenthesized :
    SourceFile.ofJson (SourceFile.parenthesized 60).toDocument.toJson =
      .ok (SourceFile.parenthesized 60) ∧
    (∃ place, SourceFile.ofJson (SourceFile.parenthesized 61).toDocument.toJson =
      .error ⟨.tooDeep, some place⟩) ∧
    tokensOfJson (tokensToDocument [⟨.comment "// \u0000\t😀", ⟨0, 7⟩⟩,
        ⟨.literal (.string ⟨none, [.escape "\\n" '\n' ⟨9, 11⟩]⟩), ⟨8, 12⟩⟩]).toJson =
      .ok [⟨.comment "// \u0000\t😀", ⟨0, 7⟩⟩,
        ⟨.literal (.string ⟨none, [.escape "\\n" '\n' ⟨9, 11⟩]⟩), ⟨8, 12⟩⟩] := by
  refine ⟨(json_recovers.1 _ (by decide +kernel)).1 ?_,
    (json_recovers.1 _ (by decide +kernel)).2 ?_, (json_recovers.2 _ (by decide)).1 ?_⟩
  · rw [Document.jsonNesting_toJson]
    decide +kernel
  · rw [Document.jsonNesting_toJson]
    decide +kernel
  · rw [Document.jsonNesting_toJson]
    decide

end LunSyntax
