import PacketSchema.Literal.Reading
import PacketSchema.Proofs.Token.Recasing

/-! Numerals: a minus sign or none, the mark of a radix, and digits. A text that spells a numeral,
in whichever case, is read as the integer that the places of the digits give, and every integer is
the value of a numeral in every radix. -/

namespace PacketSchema

/-! ## Digits -/

namespace Radix

/-- A character is a digit of the radix, in either case. -/
def Stands (r : Radix) (c : Char) (d : Nat) : Prop := d < r.base ∧ c.toLower = Nat.digitChar d

/-- What is written in front of the digits, in lower case. -/
def mark : Radix → List Char
  | hexadecimal => ['0', 'x']
  | octal => ['0', 'o']
  | binary => ['0', 'b']
  | decimal => []

variable {r : Radix} {c : Char} {d : Nat} {ds : List Nat} {cs : List Char}

theorem one_lt_base (r : Radix) : 1 < r.base := by cases r <;> decide

theorem base_le (r : Radix) : r.base ≤ 16 := by cases r <;> decide

theorem digitValue?_digitChar : ∀ d < 16, digitValue? (Nat.digitChar d) = some d := by decide

theorem digit?_digitChar (h : d < r.base) : r.digit? (Nat.digitChar d) = some d := by
  simp [digit?, digitValue?_digitChar d (Nat.lt_of_lt_of_le h r.base_le), h]

theorem digit?_eq_some_iff : r.digit? c = some d ↔ r.Stands c d := by
  constructor
  · intro h
    have hident : Lexeme.isIdentChar c = true :=
      Lexeme.isIdentChar_of_isDigit (r := r) (by simp [isDigit, h])
    obtain ⟨hvalue, hlt⟩ := Option.filter_eq_some_iff.1 h
    refine ⟨by simpa using hlt, ?_⟩
    exact ascii_forall (P := fun c => ∀ d ∈ digitValue? c, c.toLower = Nat.digitChar d)
      (by decide +kernel) (Lexeme.isIdentChar_lt hident) d hvalue
  · rintro ⟨hlt, hlower⟩
    rw [← digit?_toLower, hlower, digit?_digitChar hlt]

theorem Stands.unique {d' : Nat} (h : r.Stands c d) (h' : r.Stands c d') : d = d' :=
  Option.some.inj ((digit?_eq_some_iff.2 h).symm.trans (digit?_eq_some_iff.2 h'))

/-- Digits in either case are the digits that they stand for. -/
theorem exists_digits (h : ∀ c ∈ cs, r.isDigit c = true) :
    ∃ ds : List Nat, cs.map Char.toLower = ds.map Nat.digitChar ∧ ∀ d ∈ ds, d < r.base := by
  induction cs with
  | nil => exact ⟨[], rfl, by simp⟩
  | cons c cs ih =>
    obtain ⟨hc, hcs⟩ := List.forall_mem_cons.1 h
    obtain ⟨d, hd⟩ := Option.isSome_iff_exists.1 hc
    obtain ⟨hlt, hlower⟩ := digit?_eq_some_iff.1 hd
    obtain ⟨ds, hmap, hds⟩ := ih hcs
    exact ⟨d :: ds, by simp [hlower, hmap], List.forall_mem_cons.2 ⟨hlt, hds⟩⟩

theorem isDigit_of_digits (h : cs.map Char.toLower = ds.map Nat.digitChar)
    (hds : ∀ d ∈ ds, d < r.base) : ∀ c ∈ cs, r.isDigit c = true := by
  intro c hc
  have hmem : c.toLower ∈ ds.map Nat.digitChar := h ▸ List.mem_map_of_mem hc
  obtain ⟨d, hd, hlower⟩ := List.mem_map.1 hmem
  simp [isDigit, digit?_eq_some_iff.2 ⟨hds d hd, hlower.symm⟩]

theorem foldDigits_digits (hds : ∀ d ∈ ds, d < r.base) (n : Nat) :
    r.foldDigits n (ds.map Nat.digitChar) =
      some (n * r.base ^ ds.length + Nat.ofDigits r.base ds.reverse) := by
  induction ds generalizing n with
  | nil => simp [foldDigits]
  | cons d ds ih =>
    obtain ⟨hd, hds⟩ := List.forall_mem_cons.1 hds
    rw [List.map_cons, foldDigits, digit?_digitChar hd, Option.bind_some, ih hds,
      Nat.ofDigits_reverse_cons, List.length_cons]
    congr 1
    ring

theorem value?_digits (hne : ds ≠ []) (hds : ∀ d ∈ ds, d < r.base) :
    r.value? (ds.map Nat.digitChar) = some (Nat.ofDigits r.base ds.reverse) := by
  simp [value?, hne, foldDigits_digits hds]

theorem mark_of_ofLetter? (h : ofLetter? c = some r) : r.mark = ['0', c.toLower] := by
  unfold ofLetter? at h
  split at h <;> cases h <;> simp [mark, *]

theorem ofLetter?_of_mark (h : r.mark = ['0', c.toLower]) : ofLetter? c = some r := by
  rw [← ofLetter?_toLower]
  cases r with
  | decimal => cases h
  | hexadecimal | octal | binary =>
    obtain ⟨hlower, -⟩ := List.cons.inj (List.cons.inj h).2
    rw [← hlower]
    rfl

/-- The digits that a number is printed with. -/
theorem exists_digits_toDigits (r : Radix) (n : Nat) :
    ∃ ds : List Nat, Nat.toDigits r.base n = ds.map Nat.digitChar ∧ ds ≠ [] ∧
      (∀ d ∈ ds, d < r.base) ∧ Nat.ofDigits r.base ds.reverse = n := by
  have hbase := r.one_lt_base
  induction n using Nat.strongRecOn with
  | ind n ih =>
    rw [Nat.toDigits_eq_if hbase]
    split
    · rename_i hlt
      exact ⟨[n], rfl, by simp, by simpa using hlt, by simp⟩
    · rename_i hle
      obtain ⟨ds, hmap, -, hds, hvalue⟩ := ih (n / r.base) (Nat.div_lt_self (by omega) hbase)
      have hmod : n % r.base < r.base := Nat.mod_lt n (Nat.zero_lt_of_lt hbase)
      refine ⟨ds ++ [n % r.base], by simp [hmap], by simp, ?_, ?_⟩
      · intro d hd
        obtain hd | hd := List.mem_append.1 hd
        · exact hds d hd
        · exact List.mem_singleton.1 hd ▸ hmod
      · rw [List.reverse_append, List.reverse_singleton, List.singleton_append, Nat.ofDigits_cons,
          hvalue]
        exact Nat.mod_add_div n r.base

end Radix

/-! ## Numerals -/

structure Numeral where
  negative : Bool
  radix : Radix
  digits : List Nat
  digits_ne_nil : digits ≠ []
  lt_base : ∀ d ∈ digits, d < radix.base

namespace Numeral

/-- How the numeral is written in lower case. -/
def chars (x : Numeral) : List Char :=
  (if x.negative then ['-'] else []) ++ x.radix.mark ++ x.digits.map Nat.digitChar

def magnitude (x : Numeral) : Nat := Nat.ofDigits x.radix.base x.digits.reverse

def value (x : Numeral) : Int := if x.negative then -(x.magnitude : Int) else x.magnitude

/-- The text is the numeral, in whichever case. -/
def Spells (x : Numeral) (cs : List Char) : Prop := cs.map Char.toLower = x.chars

/-- The numeral without its sign. -/
def Unsigned (x : Numeral) (cs : List Char) : Prop :=
  cs.map Char.toLower = x.radix.mark ++ x.digits.map Nat.digitChar

variable {x : Numeral} {cs : List Char}

theorem spells_cases (h : x.Spells cs) :
    (∃ ds, x.negative = true ∧ cs = '-' :: ds ∧ x.Unsigned ds) ∨
      x.negative = false ∧ x.Unsigned cs := by
  unfold Spells chars at h
  cases hneg : x.negative with
  | false => exact .inr ⟨rfl, by simpa [hneg, Unsigned] using h⟩
  | true =>
    simp only [hneg, if_true, List.singleton_append] at h
    obtain ⟨c, ds, rfl, hc, hds⟩ := List.map_eq_cons_iff.1 h
    have hminus : c = '-' := (toLower_eq_iff (by decide +kernel)).1 hc
    exact .inl ⟨ds, rfl, by rw [hminus], hds⟩

theorem unsigned_cases (h : x.Unsigned cs) :
    (∃ letter ds, cs = '0' :: letter :: ds ∧ Radix.ofLetter? letter = some x.radix ∧
      ds.map Char.toLower = x.digits.map Nat.digitChar) ∨
      x.radix = .decimal ∧ cs.map Char.toLower = x.digits.map Nat.digitChar := by
  unfold Unsigned at h
  by_cases hdecimal : x.radix = .decimal
  · exact .inr ⟨hdecimal, by simpa [hdecimal, Radix.mark] using h⟩
  · obtain ⟨letter, hmark⟩ : ∃ letter, x.radix.mark = ['0', letter] := by
      cases hradix : x.radix <;> simp_all [Radix.mark]
    rw [hmark] at h
    obtain ⟨c, ds, rfl, hc, hds⟩ := List.map_eq_cons_iff.1 h
    obtain ⟨l, ds, rfl, hl, hds⟩ := List.map_eq_cons_iff.1 hds
    have hzero : c = '0' := (toLower_eq_iff (by decide +kernel)).1 hc
    exact .inl ⟨l, ds, by rw [hzero], Radix.ofLetter?_of_mark (by rw [hmark, hl]), hds⟩

/-- A decimal digit stands at the head. -/
theorem head_of_unsigned (h : x.Unsigned cs) :
    ∃ c ds, cs = c :: ds ∧ Radix.decimal.isDigit c = true := by
  obtain ⟨letter, ds, rfl, -, -⟩ | ⟨hradix, hdigits⟩ := unsigned_cases h
  · exact ⟨'0', letter :: ds, rfl, rfl⟩
  · have hall := Radix.isDigit_of_digits hdigits x.lt_base
    cases cs with
    | nil => exact absurd (List.map_eq_nil_iff.1 hdigits.symm) x.digits_ne_nil
    | cons c ds => exact ⟨c, ds, rfl, hradix ▸ hall c List.mem_cons_self⟩

/-- The mark and the digits behind it. -/
theorem split_unsigned (h : x.Unsigned cs) : (Radix.split cs).1 = x.radix ∧
    (Radix.split cs).2.map Char.toLower = x.digits.map Nat.digitChar := by
  obtain ⟨letter, ds, rfl, hmark, hdigits⟩ | ⟨hradix, hdigits⟩ := unsigned_cases h
  · rw [Radix.split_zero, hmark]
    exact ⟨rfl, hdigits⟩
  · have hall := Radix.isDigit_of_digits hdigits x.lt_base
    rw [Radix.split_decimal (hradix ▸ hall)]
    exact ⟨hradix.symm, hdigits⟩

end Numeral

namespace Literal

open Numeral

variable {x : Numeral} {cs : List Char}

theorem signed?_digits {r : Radix} {ds : List Nat} (hne : ds ≠ []) (hds : ∀ d ∈ ds, d < r.base)
    (h : cs.map Char.toLower = ds.map Nat.digitChar) :
    signed? r cs = some (Nat.ofDigits r.base ds.reverse : Nat) := by
  obtain ⟨d, ds, rfl⟩ := List.exists_cons_of_ne_nil hne
  rw [← signed?_toLower, h, List.map_cons, signed?_of_ne (Nat.digitChar_ne '+' rfl)
    (Nat.digitChar_ne '-' rfl), ← List.map_cons, Radix.value?_digits hne hds]
  rfl

theorem signed?_unsigned (h : x.Unsigned cs) :
    signed? (Radix.split cs).1 (Radix.split cs).2 = some (x.magnitude : Int) := by
  obtain ⟨hradix, hdigits⟩ := split_unsigned h
  rw [hradix]
  exact signed?_digits x.digits_ne_nil x.lt_base hdigits

/-- A numeral is read as its value. -/
theorem integer?_spells (h : x.Spells cs) : integer? cs = some x.value := by
  obtain ⟨ds, hneg, rfl, hunsigned⟩ | ⟨hneg, hunsigned⟩ := spells_cases h
  · show (signed? (Radix.split ds).1 (Radix.split ds).2).map Neg.neg = some x.value
    simp [signed?_unsigned hunsigned, value, hneg]
  · obtain ⟨c, ds, rfl, hdigit⟩ := head_of_unsigned hunsigned
    have hminus : c ≠ '-' := by
      rintro rfl
      cases hdigit
    rw [integer?_of_ne hminus, signed?_unsigned hunsigned]
    simp [value, hneg]

theorem number?_spells (h : x.Spells cs) :
    number? cs = if InRange x.value then some x.value else none := by
  rw [number?, integer?_spells h, Option.filter_some]
  simp only [decide_eq_true_eq]

end Literal

/-! ## Printed numbers -/

/-- How a number is written with the digits of a radix: sign, mark, digits. -/
def Radix.spelling (r : Radix) (n : Int) : List Char :=
  (if n < 0 then ['-'] else []) ++ r.mark ++ Nat.toDigits r.base n.natAbs

theorem Numeral.toLower_chars (x : Numeral) : x.chars.map Char.toLower = x.chars := by
  have hsign : (if x.negative then ['-'] else []).map Char.toLower =
      if x.negative then ['-'] else [] := by
    cases x.negative <;> rfl
  have hmark : x.radix.mark.map Char.toLower = x.radix.mark := by
    cases x.radix <;> decide
  have hdigits : (x.digits.map Nat.digitChar).map Char.toLower = x.digits.map Nat.digitChar := by
    rw [List.map_map]
    refine List.map_congr_left fun d hd => ?_
    have hd : d < 16 := Nat.lt_of_lt_of_le (x.lt_base d hd) x.radix.base_le
    have hlower : ∀ d < 16, (Nat.digitChar d).toLower = Nat.digitChar d := by decide
    exact hlower d hd
  rw [chars, List.map_append, List.map_append, hsign, hmark, hdigits]

theorem Radix.exists_spells (r : Radix) (n : Int) :
    ∃ x : Numeral, x.Spells (r.spelling n) ∧ x.value = n := by
  obtain ⟨ds, hmap, hne, hds, hvalue⟩ := r.exists_digits_toDigits n.natAbs
  let x : Numeral := ⟨decide (n < 0), r, ds, hne, hds⟩
  have hchars : r.spelling n = x.chars := by simp [spelling, Numeral.chars, x, hmap]
  refine ⟨x, ?_, ?_⟩
  · rw [hchars]
    exact x.toLower_chars
  · simp only [Numeral.value, Numeral.magnitude, x, hvalue, decide_eq_true_eq]
    split <;> omega

theorem Literal.number?_spelling {n : Int} (hn : InRange n) (r : Radix) :
    number? (r.spelling n) = some n := by
  obtain ⟨x, hx, rfl⟩ := r.exists_spells n
  rw [number?_spells hx, if_pos hn]

theorem Literal.ofToken_spelling {n : Int} (hn : InRange n) (r : Radix) (p : Position) :
    ofToken .number (.ofList (r.spelling n)) p = .ok (.number n) := by
  rw [ofToken, String.toList_ofList, number?_spelling hn]

theorem Radix.spelling_decimal (n : Int) : String.ofList (decimal.spelling n) = toString n := by
  obtain m | m := n
  · have hneg : ¬ Int.ofNat m < 0 := by simp
    have hdigits : decimal.spelling (Int.ofNat m) = Nat.toDigits 10 m := by
      simp [spelling, mark, base]
    rw [hdigits]
    exact Nat.repr_eq_ofList_toDigits.symm
  · have hdigits : decimal.spelling (Int.negSucc m) = '-' :: Nat.toDigits 10 (m + 1) := by
      simp [spelling, mark, base, Int.negSucc_lt_zero]
    have hshown : toString (Int.negSucc m) = "-" ++ Nat.repr (m + 1) := rfl
    rw [hdigits, hshown, Nat.repr_eq_ofList_toDigits, ← String.ofList_append]
    rfl

end PacketSchema
