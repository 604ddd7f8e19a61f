import PacketSchema.Position

/-! Tokens. Case does not matter outside quotes: symbols, identifiers and keywords hold their text
in lower case, while literals keep it as written, a string with its quotes. -/

namespace PacketSchema

inductive TokenKind where
  | symbol
  | ident
  | keyword
  | string
  | number
deriving DecidableEq, Repr

def TokenKind.isLiteral : TokenKind → Bool
  | string | number => true
  | symbol | ident | keyword => false

structure Token where
  kind : TokenKind
  text : String
  position : Position
deriving DecidableEq, Repr

namespace Token

def keywords : List String := ["type", "namespace", "variant"]

def isLiteral (t : Token) : Bool := t.kind.isLiteral

/-- Whether the token is the symbol, identifier or keyword with this text. -/
def is (t : Token) (text : String) : Bool := !t.isLiteral && t.text == text

/-- The token is no literal and has this text. -/
def Reads (t : Token) (text : String) : Prop := t.isLiteral = false ∧ t.text = text

instance (t : Token) (text : String) : Decidable (t.Reads text) :=
  inferInstanceAs (Decidable (_ ∧ _))

theorem is_iff {t : Token} {text : String} : t.is text = true ↔ t.Reads text := by
  simp [is, Reads]

theorem is_eq_decide (t : Token) (text : String) : t.is text = decide (t.Reads text) :=
  Bool.eq_iff_iff.2 (is_iff.trans (decide_eq_true_iff (p := t.Reads text)).symm)

/-- The token with the given characters. -/
def ofChars (kind : TokenKind) (cs : List Char) (position : Position) : Token :=
  if kind.isLiteral then ⟨kind, .ofList cs, position⟩
  else
    let text := String.ofList (cs.map Char.toLower)
    ⟨if keywords.contains text then .keyword else kind, text, position⟩

theorem ofChars_literal {kind : TokenKind} (h : kind.isLiteral = true) (cs : List Char)
    (p : Position) : ofChars kind cs p = ⟨kind, .ofList cs, p⟩ := if_pos h

theorem ofChars_word {kind : TokenKind} (h : kind.isLiteral = false) (cs : List Char)
    (p : Position) : ofChars kind cs p =
      ⟨if keywords.contains (.ofList (cs.map Char.toLower)) then .keyword else kind,
        .ofList (cs.map Char.toLower), p⟩ := if_neg (by simp [h])

@[simp] theorem ofChars_position (kind : TokenKind) (cs : List Char) (p : Position) :
    (ofChars kind cs p).position = p := by
  unfold ofChars
  split <;> rfl

end Token

end PacketSchema
