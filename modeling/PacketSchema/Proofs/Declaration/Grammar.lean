import Mathlib
import PacketSchema.Declaration.Reading

/-! The grammar of declarations. A derivation takes a sequence of tokens apart and tells which
declarations it stands for; every statement has the position of its first token. -/

namespace PacketSchema

def Token.ident (t : Token) : Ident := ⟨t.text, t.position⟩

/-- A number token stands for a signed integer of 64 bits. -/
def Token.InRange (t : Token) : Prop :=
  t.kind = .number → ∀ n, Literal.integer? t.text.toList = some n → Literal.InRange n

namespace Grammar

/-- The rest of a dotted name: `('.' IDENT)*`. -/
inductive Tail : List Token → List String → Prop
  | nil : Tail [] []
  | cons {dot t : Token} {ts : List Token} {names : List String} (hdot : dot.Reads ".")
      (ht : t.kind = .ident) (h : Tail ts names) : Tail (dot :: t :: ts) (t.text :: names)

/-- A dotted name or a literal. -/
inductive Operand : List Token → PacketSchema.Operand → Prop
  | name {t : Token} {ts : List Token} {names : List String} (ht : t.kind = .ident)
      (h : Tail ts names) : Operand (t :: ts) (.name ⟨t.ident, names⟩)
  | number {t : Token} {n : Int} (ht : t.kind = .number)
      (hn : Literal.integer? t.text.toList = some n) :
      Operand [t] (.value ⟨.number n, t.text, t.position⟩)
  | string {t : Token} (ht : t.kind = .string) :
      Operand [t] (.value ⟨.text (.ofList (Literal.unquote t.text.toList)), t.text, t.position⟩)

/-- The names of fields behind the first one: `(',' IDENT)*`. -/
inductive MoreNames : List Token → List Ident → Prop
  | nil : MoreNames [] []
  | cons {comma t : Token} {ts : List Token} {names : List Ident} (hcomma : comma.Reads ",")
      (ht : t.kind = .ident) (h : MoreNames ts names) :
      MoreNames (comma :: t :: ts) (t.ident :: names)

/-- The position of what has these tokens, with a position behind them. -/
def start (behind : Position) (ts : List Token) : Position :=
  (ts.head?.map Token.position).getD behind

mutual

/-- A body in front of a position. -/
inductive Body : Position → List Token → PacketSchema.Body → Prop
  | mk {behind : Position} {ts : List Token} {ss : List PacketSchema.Statement}
      (h : Statements ts ss) : Body behind ts (.mk (start behind ts) ss)

/-- Statements with a semicolon behind each, and semicolons that end nothing. -/
inductive Statements : List Token → List PacketSchema.Statement → Prop
  | nil : Statements [] []
  | skip {semicolon : Token} {ts : List Token} {ss : List PacketSchema.Statement}
      (hsemicolon : semicolon.Reads ";") (h : Statements ts ss) : Statements (semicolon :: ts) ss
  | cons {ts us : List Token} {semicolon : Token} {s : PacketSchema.Statement}
      {ss : List PacketSchema.Statement} (hs : Statement ts s) (hsemicolon : semicolon.Reads ";")
      (h : Statements us ss) : Statements (ts ++ semicolon :: us) (s :: ss)

inductive Statement : List Token → PacketSchema.Statement → Prop
  | space {t i : Token} {ts : List Token} {body : Option PacketSchema.Body}
      (ht : t.Reads "namespace") (hi : i.kind = .ident) (h : OptionalBlock ts body) :
      Statement (t :: i :: ts) (.space t.position i.ident body)
  | type {t i : Token} {ts : List Token} {e : Option PacketSchema.TypeExpr}
      (ht : t.Reads "type") (hi : i.kind = .ident) (h : OptionalType ts e) :
      Statement (t :: i :: ts) (.type t.position i.ident e)
  | variant {t i : Token} {ts : List Token} {body : Option PacketSchema.Body}
      (ht : t.Reads "variant") (hi : i.kind = .ident) (h : OptionalBlock ts body) :
      Statement (t :: i :: ts) (.variant t.position (some i.ident) body)
  | proxy {t : Token} {ts : List Token} {body : Option PacketSchema.Body}
      (ht : t.Reads "variant") (h : OptionalBlock ts body) :
      Statement (t :: ts) (.variant t.position none body)
  | constraint {t equals : Token} {ts us : List Token} {left right : PacketSchema.Operand}
      (hleft : Operand (t :: ts) left) (hequals : equals.Reads "=") (hright : Operand us right) :
      Statement (t :: ts ++ equals :: us) (.constraint t.position left right)
  | fields {t colon : Token} {ts us : List Token} {names : List Ident} {e : PacketSchema.TypeExpr}
      (ht : t.kind = .ident) (hnames : MoreNames ts names) (hcolon : colon.Reads ":")
      (h : Spec us e) :
      Statement (t :: ts ++ colon :: us) (.fields t.position (t.ident :: names) e)

/-- A body in braces. -/
inductive Block : List Token → PacketSchema.Body → Prop
  | mk {opening closing : Token} {ts : List Token} {b : PacketSchema.Body}
      (hopening : opening.Reads "\x7b") (h : Body closing.position ts b)
      (hclosing : closing.Reads "\x7d") : Block (opening :: ts ++ [closing]) b

inductive OptionalBlock : List Token → Option PacketSchema.Body → Prop
  | none : OptionalBlock [] none
  | some {ts : List Token} {b : PacketSchema.Body} (h : Block ts b) : OptionalBlock ts (some b)

/-- What may stand behind the name of a type. -/
inductive OptionalType : List Token → Option PacketSchema.TypeExpr → Prop
  | none : OptionalType [] none
  | spec {colon : Token} {ts : List Token} {e : PacketSchema.TypeExpr} (hcolon : colon.Reads ":")
      (h : Spec ts e) : OptionalType (colon :: ts) (some e)
  | block {ts : List Token} {b : PacketSchema.Body} (h : Block ts b) :
      OptionalType ts (some (.body b))

/-- A type. Parentheses around all of it leave no trace. -/
inductive Spec : List Token → PacketSchema.TypeExpr → Prop
  | enclosed {ts : List Token} {e : PacketSchema.TypeExpr} (h : Enclosed ts e) : Spec ts e
  | application {t : Token} {ts us : List Token} {head : PacketSchema.Operand}
      {args : List PacketSchema.TypeArg} (hhead : Operand (t :: ts) head) (hargs : Args us args) :
      Spec (t :: ts ++ us) (.application t.position head.toArg args)

/-- A type in parentheses or a block. -/
inductive Enclosed : List Token → PacketSchema.TypeExpr → Prop
  | parentheses {opening closing : Token} {ts : List Token} {e : PacketSchema.TypeExpr}
      (hopening : opening.Reads "(") (h : Spec ts e) (hclosing : closing.Reads ")") :
      Enclosed (opening :: ts ++ [closing]) e
  | block {ts : List Token} {b : PacketSchema.Body} (h : Block ts b) : Enclosed ts (.body b)

inductive Args : List Token → List PacketSchema.TypeArg → Prop
  | nil : Args [] []
  | operand {ts us : List Token} {a : PacketSchema.Operand} {args : List PacketSchema.TypeArg}
      (ha : Operand ts a) (h : Args us args) : Args (ts ++ us) (a.toArg :: args)
  | enclosed {ts us : List Token} {e : PacketSchema.TypeExpr} {args : List PacketSchema.TypeArg}
      (he : Enclosed ts e) (h : Args us args) : Args (ts ++ us) (.type e :: args)

end

/-! ## First tokens -/

variable {ts : List Token}

theorem Operand.first {o : PacketSchema.Operand} (h : Operand ts o) :
    ∃ t us, ts = t :: us ∧ (t.kind = .ident ∨ t.isLiteral = true) := by
  cases h with
  | name ht _ => exact ⟨_, _, rfl, .inl ht⟩
  | number ht _ => exact ⟨_, _, rfl, .inr (by simp [Token.isLiteral, ht, TokenKind.isLiteral])⟩
  | string ht => exact ⟨_, _, rfl, .inr (by simp [Token.isLiteral, ht, TokenKind.isLiteral])⟩

theorem Block.first {b : PacketSchema.Body} (h : Block ts b) :
    ∃ t us, ts = t :: us ∧ t.Reads "\x7b" := by
  cases h with
  | mk hopening _ _ => exact ⟨_, _, rfl, hopening⟩

theorem Enclosed.first {e : PacketSchema.TypeExpr} (h : Enclosed ts e) :
    ∃ t us, ts = t :: us ∧ (t.Reads "\x7b" ∨ t.Reads "(") := by
  cases h with
  | parentheses hopening _ _ => exact ⟨_, _, rfl, .inr hopening⟩
  | block h =>
    obtain ⟨t, us, rfl, ht⟩ := h.first
    exact ⟨t, us, rfl, .inl ht⟩

theorem Statement.first {st : PacketSchema.Statement} (h : Statement ts st) :
    ∃ t us, ts = t :: us ∧ (t.kind = .ident ∨ t.isLiteral = true ∨
      ∃ text ∈ Token.keywords, t.Reads text) := by
  cases h with
  | space ht _ _ => exact ⟨_, _, rfl, .inr (.inr ⟨_, by decide, ht⟩)⟩
  | type ht _ _ => exact ⟨_, _, rfl, .inr (.inr ⟨_, by decide, ht⟩)⟩
  | variant ht _ _ => exact ⟨_, _, rfl, .inr (.inr ⟨_, by decide, ht⟩)⟩
  | proxy ht _ => exact ⟨_, _, rfl, .inr (.inr ⟨_, by decide, ht⟩)⟩
  | constraint hleft _ _ =>
    obtain ⟨t, us, heq, ht⟩ := hleft.first
    cases heq
    exact ⟨_, _, rfl, ht.imp_right .inl⟩
  | fields ht _ _ _ => exact ⟨_, _, rfl, .inl ht⟩

theorem Statement.position {st : PacketSchema.Statement} (h : Statement ts st) :
    ts.head?.map Token.position = some st.position := by
  cases h <;> rfl

end Grammar

end PacketSchema
