import Mathlib
import PacketSchema.Literal.Reading
import PacketSchema.Token.Stream

/-! What tokens are made of. An identifier is made of the characters of identifiers and is no
keyword, so nothing else has the text of one, and the digits of a number have a value. -/

namespace PacketSchema

/-- A property of the characters of ASCII, checked one by one. -/
theorem ascii_forall {P : Char → Prop} (h : ∀ n, n < 128 → P (Char.ofNat n)) {c : Char}
    (hc : c.toNat < 128) : P c := by
  have hp := h c.toNat hc
  rwa [Char.ofNat_toNat] at hp

namespace Lexeme

theorem isIdentChar_lt {c : Char} (h : isIdentChar c = true) : c.toNat < 128 := by
  have hz : 'z'.val.toNat = 122 := rfl
  have hZ : 'Z'.val.toNat = 90 := rfl
  have h9 : '9'.val.toNat = 57 := rfl
  have hc : c.toNat = c.val.toNat := rfl
  simp only [isIdentChar, Char.isAlphanum, Char.isAlpha, Char.isUpper, Char.isLower, Char.isDigit,
    Bool.or_eq_true, Bool.and_eq_true, decide_eq_true_eq, ge_iff_le, UInt32.le_iff_toNat_le,
    beq_iff_eq] at h
  obtain h | rfl := h
  · omega
  · decide

theorem isIdentChar_toLower {c : Char} (h : isIdentChar c = true) :
    isIdentChar c.toLower = true :=
  ascii_forall (P := fun c => isIdentChar c = true → isIdentChar c.toLower = true)
    (by decide +kernel) (isIdentChar_lt h) h

theorem isIdentChar_of_isIdentStart {c : Char} (h : isIdentStart c = true) :
    isIdentChar c = true := by
  simp only [isIdentStart, Bool.or_eq_true] at h
  simp only [isIdentChar, Char.isAlphanum, Bool.or_eq_true]
  exact h.imp_left .inl

theorem isIdentChar_of_isDigit {r : Radix} {c : Char} (h : r.isDigit c = true) :
    isIdentChar c = true := by
  simp only [Radix.isDigit, Radix.digit?, Option.isSome_filter, Option.any_eq_true] at h
  obtain ⟨n, hn, -⟩ := h
  have hlt : c.toNat < 128 := by
    unfold Radix.digitValue? at hn
    split at hn
    · rename_i hdigit
      exact isIdentChar_lt (by simp [isIdentChar, Char.isAlphanum, hdigit])
    · split at hn
      · rename_i hletter
        exact Nat.lt_of_le_of_lt (UInt32.le_iff_toNat_le.1 hletter.2) (by decide)
      · split at hn
        · rename_i hletter
          exact Nat.lt_of_le_of_lt (UInt32.le_iff_toNat_le.1 hletter.2) (by decide)
        · cases hn
  exact ascii_forall
    (P := fun c => (Radix.digitValue? c).isSome = true → isIdentChar c = true)
    (by decide +kernel) hlt (Option.isSome_of_mem hn)

theorem first?_ident {cs : List Char} {l : Lexeme} (h : first? cs = some l)
    (hk : l.kind = .ident) : ∀ c ∈ l.chars, isIdentChar c = true := by
  unfold first? at h
  split at h
  · cases h
  · rename_i c rest
    split at h
    · cases h
      cases hk
    · split at h
      · rename_i hstart
        cases h
        intro x hx
        obtain rfl | hx := List.mem_cons.1 hx
        · exact isIdentChar_of_isIdentStart hstart
        · exact List.all_eq_true.1 List.all_takeWhile x hx
      · split at h
        · obtain ⟨_, _, rfl⟩ := Option.map_eq_some_iff.1 h
          cases hk
        · obtain ⟨_, _, rfl⟩ := Option.map_eq_some_iff.1 h
          cases hk

theorem first?_number {cs : List Char} {l : Lexeme} (h : first? cs = some l)
    (hk : l.kind = .number) : ∃ rest, splitNumber cs = some (l.chars, rest) := by
  unfold first? at h
  split at h
  · cases h
  · split at h
    · cases h
      cases hk
    · split at h
      · cases h
        cases hk
      · split at h
        · obtain ⟨_, _, rfl⟩ := Option.map_eq_some_iff.1 h
          cases hk
        · obtain ⟨⟨number, rest⟩, hnumber, rfl⟩ := Option.map_eq_some_iff.1 h
          exact ⟨rest, hnumber⟩

/-! ## Numbers -/

theorem splitDigits_isDigit {r : Radix} {cs digits rest : List Char}
    (h : splitDigits r cs = some (digits, rest)) :
    digits ≠ [] ∧ ∀ c ∈ digits, r.isDigit c = true := by
  refine ⟨(splitDigits_split h).2, ?_⟩
  unfold splitDigits at h
  split at h
  · cases h
  · cases h
    exact fun c hc => List.all_eq_true.1 List.all_takeWhile c hc

end Lexeme

namespace Radix

variable {r : Radix} {cs : List Char} {c : Char}

theorem foldDigits_isSome (h : ∀ c ∈ cs, r.isDigit c = true) (n : Nat) :
    (r.foldDigits n cs).isSome = true := by
  induction cs generalizing n with
  | nil => rfl
  | cons c cs ih =>
    obtain ⟨d, hd⟩ := Option.isSome_iff_exists.1 (h c List.mem_cons_self)
    unfold foldDigits
    rw [hd]
    exact ih (fun c hc => h c (.tail _ hc)) _

theorem value?_isSome (hne : cs ≠ []) (h : ∀ c ∈ cs, r.isDigit c = true) :
    (r.value? cs).isSome = true := by
  unfold value?
  rw [if_neg (by simpa using hne)]
  exact foldDigits_isSome h 0

/-- A decimal digit is no mark of a radix. -/
theorem ofLetter?_of_isDigit (h : decimal.isDigit c = true) : ofLetter? c = none :=
  ascii_forall (P := fun c => decimal.isDigit c = true → ofLetter? c = none) (by decide +kernel)
    (Lexeme.isIdentChar_lt (Lexeme.isIdentChar_of_isDigit h)) h

theorem split_decimal (h : ∀ c ∈ cs, decimal.isDigit c = true) : split cs = (decimal, cs) := by
  unfold split
  split
  · rw [ofLetter?_of_isDigit (h _ (.tail _ (.head _)))]
  · rfl

end Radix

namespace Literal

open Radix Lexeme

theorem signed?_isSome {r : Radix} {cs : List Char} (hne : cs ≠ [])
    (h : ∀ c ∈ cs, r.isDigit c = true) : (signed? r cs).isSome = true := by
  unfold signed?
  split
  · have hplus := h '+' List.mem_cons_self
    cases r <;> cases hplus
  · have hminus := h '-' List.mem_cons_self
    cases r <;> cases hminus
  · rw [Option.isSome_map]
    exact value?_isSome hne h

theorem signed?_decimal {cs : List Char} (hne : cs ≠ [])
    (h : ∀ c ∈ cs, decimal.isDigit c = true) :
    (signed? (Radix.split cs).1 (Radix.split cs).2).isSome = true := by
  rw [split_decimal h]
  exact signed?_isSome hne h

theorem signed?_splitUnsigned {cs digits rest : List Char}
    (h : splitUnsigned cs = some (digits, rest)) :
    (signed? (Radix.split digits).1 (Radix.split digits).2).isSome = true := by
  unfold splitUnsigned at h
  split at h
  · rename_i letter behind
    split at h
    · rename_i digits' rest' hd
      cases h
      obtain ⟨r, hr, hdigits⟩ := Option.bind_eq_some_iff.1 hd
      obtain ⟨hne, hall⟩ := splitDigits_isDigit hdigits
      have hsplit : Radix.split ('0' :: letter :: digits') = (r, digits') := by
        simp [Radix.split, hr]
      rw [hsplit]
      exact signed?_isSome hne hall
    · obtain ⟨hne, hall⟩ := splitDigits_isDigit h
      exact signed?_decimal hne hall
  · obtain ⟨hne, hall⟩ := splitDigits_isDigit h
    exact signed?_decimal hne hall

/-- Digits behind one minus sign at most are an integer. -/
theorem integer?_splitNumber {cs number rest : List Char}
    (h : splitNumber cs = some (number, rest)) : (integer? number).isSome = true := by
  unfold splitNumber at h
  split at h
  · obtain ⟨⟨digits, rest'⟩, hdigits, heq⟩ := Option.map_eq_some_iff.1 h
    cases heq
    show ((signed? (Radix.split digits).1 (Radix.split digits).2).map Neg.neg).isSome = true
    rw [Option.isSome_map]
    exact signed?_splitUnsigned hdigits
  · rename_i hminus
    have hsome := signed?_splitUnsigned h
    obtain ⟨happ, -⟩ := splitUnsigned_split h
    unfold integer?
    split
    · exact absurd happ.symm (hminus _)
    · exact hsome

end Literal

/-! ## Tokens -/

def Token.symbols : List String := ["\x7b", "\x7d", "(", ")", ";", ":", ",", "=", "."]

def Token.reserved : List String := keywords ++ symbols

/-- What holds of the tokens of a text. -/
structure Token.Proper (t : Token) : Prop where
  ident : t.kind = .ident → (∀ c ∈ t.text.toList, Lexeme.isIdentChar c = true) ∧
    t.text ∉ keywords
  number : t.kind = .number → ∃ n, Literal.integer? t.text.toList = some n

theorem Token.Proper.not_reserved {t : Token} (h : t.Proper) (hk : t.kind = .ident) :
    t.text ∉ reserved := by
  obtain ⟨hchars, hkeyword⟩ := h.ident hk
  intro hmem
  obtain hmem | hmem := List.mem_append.1 hmem
  · exact hkeyword hmem
  · have hsymbols : ∀ text ∈ symbols, text.toList.any (!Lexeme.isIdentChar ·) = true := by decide
    obtain ⟨c, hc, hsymbol⟩ := List.any_eq_true.1 (hsymbols _ hmem)
    rw [hchars c hc] at hsymbol
    cases hsymbol

theorem Token.proper_ofChars {cs : List Char} {l : Lexeme} (h : Lexeme.first? cs = some l)
    (p : Position) : (ofChars l.kind l.chars p).Proper := by
  unfold ofChars
  split
  · rename_i hliteral
    refine ⟨fun hk => ?_, fun hk => ?_⟩
    · rw [show l.kind = .ident from hk] at hliteral
      cases hliteral
    · obtain ⟨rest, hnumber⟩ := Lexeme.first?_number h hk
      simpa [Option.isSome_iff_exists] using Literal.integer?_splitNumber hnumber
  · rename_i hliteral
    refine ⟨fun hk => ?_, fun hk => ?_⟩
    · dsimp only at hk ⊢
      split at hk
      · cases hk
      · rename_i hkeyword
        refine ⟨fun c hc => ?_, by simpa using hkeyword⟩
        rw [String.toList_ofList] at hc
        obtain ⟨d, hd, rfl⟩ := List.mem_map.1 hc
        exact Lexeme.isIdentChar_toLower (Lexeme.first?_ident h hk d hd)
    · dsimp only at hk
      split at hk
      · cases hk
      · rw [hk] at hliteral
        exact absurd rfl hliteral

/-- What holds of all words that are found holds of the tokens of a text. -/
theorem TokenStream.forall_tokens {P : Token → Prop}
    (h : ∀ cs l, Lexeme.first? cs = some l → ∀ p, P (.ofChars l.kind l.chars p))
    (source : String) (spot : Spot) : ∀ t ∈ (ofSpot source spot).tokens, P t := by
  fun_induction ofSpot source spot with
  | case1 spot t after hnext ih =>
    obtain ⟨l, hl, rfl, -⟩ := Spot.exists_lexeme_of_token hnext
    intro u hu
    obtain rfl | hu := List.mem_cons.1 hu
    · exact h _ l hl _
    · exact ih u hu
  | case2 | case3 => simp

theorem TokenStream.proper_ofSpot (source : String) (spot : Spot) :
    ∀ t ∈ (ofSpot source spot).tokens, t.Proper :=
  forall_tokens (fun _ _ hl p => Token.proper_ofChars hl p) source spot

end PacketSchema
