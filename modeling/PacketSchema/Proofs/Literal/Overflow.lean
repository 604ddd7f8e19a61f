import PacketSchema.Proofs.Token.Shapes

/-! Numbers computed in words. The digits of a number are put together in signed words of 128 bits,
with a check at every step, and the sign comes last, without one. For numerals this is no different
from computing with integers: what does not fit into a word is out of range anyway, and no word that
the digits give is one that cannot be negated. -/

namespace PacketSchema

/-- Signed integers of 128 bits. -/
abbrev Word := BitVec 128

namespace Word

def mul? (v w : Word) : Option Word := if v.smulOverflow w then none else some (v * w)

def add? (v w : Word) : Option Word := if v.saddOverflow w then none else some (v + w)

def sub? (v w : Word) : Option Word := if v.ssubOverflow w then none else some (v - w)

/-- The word for a number; none if the number is too large for one. -/
def Holds (n : Nat) : Option Word → Prop
  | some w => w.toInt = n
  | none => 2 ^ 127 ≤ n

variable {v w : Word} {m n : Nat}

theorem toInt_ofNat (h : n ≤ 16) : (BitVec.ofNat 128 n).toInt = n := by
  have htoNat : (BitVec.ofNat 128 n).toNat = n := by
    rw [BitVec.toNat_ofNat]
    omega
  rw [BitVec.toInt_eq_toNat_of_lt (by omega), htoNat]

theorem mul?_holds (hv : v.toInt = m) (hw : w.toInt = n) : Holds (m * n) (v.mul? w) := by
  have hint : v.toInt * w.toInt = (m * n : Nat) := by rw [hv, hw, Int.natCast_mul]
  unfold mul?
  split
  · rename_i h
    simp only [BitVec.smulOverflow, hint, Bool.or_eq_true, decide_eq_true_eq] at h
    show 2 ^ 127 ≤ m * n
    omega
  · rename_i h
    exact (BitVec.toInt_mul_of_not_smulOverflow h).trans hint

theorem add?_holds (hv : v.toInt = m) (hw : w.toInt = n) : Holds (m + n) (v.add? w) := by
  have hint : v.toInt + w.toInt = (m + n : Nat) := by rw [hv, hw, Int.natCast_add]
  unfold add?
  split
  · rename_i h
    simp only [BitVec.saddOverflow, hint, Bool.or_eq_true, decide_eq_true_eq] at h
    show 2 ^ 127 ≤ m + n
    omega
  · rename_i h
    exact (BitVec.toInt_add_of_not_saddOverflow h).trans hint

end Word

namespace Radix

/-- The digits one after the other, each behind what has been read before; none as soon as a step
leaves the word. -/
def foldWord? (r : Radix) (combine : Word → Word → Option Word) : Word → List Char → Option Word
  | w, [] => some w
  | w, c :: cs => do
    let shifted ← w.mul? (.ofNat 128 r.base)
    let d ← r.digit? c
    foldWord? r combine (← combine shifted (.ofNat 128 d)) cs

def word? (r : Radix) (combine : Word → Word → Option Word) (digits : List Char) : Option Word :=
  if digits.isEmpty then none else r.foldWord? combine 0 digits

variable {r : Radix} {ds : List Nat} {cs : List Char}

theorem foldWord?_holds (hds : ∀ d ∈ ds, d < r.base)
    (h : cs.map Char.toLower = ds.map Nat.digitChar) {w : Word} {n : Nat} (hw : w.toInt = n) :
    Word.Holds (n * r.base ^ ds.length + Nat.ofDigits r.base ds.reverse)
      (r.foldWord? Word.add? w cs) := by
  induction ds generalizing cs w n with
  | nil =>
    obtain rfl := List.map_eq_nil_iff.1 h
    simpa [foldWord?, Word.Holds] using hw
  | cons d ds ih =>
    obtain ⟨c, cs, rfl, hc, hcs⟩ := List.map_eq_cons_iff.1 h
    obtain ⟨hd, hds⟩ := List.forall_mem_cons.1 hds
    have hdigit : r.digit? c = some d := digit?_eq_some_iff.2 ⟨hd, hc⟩
    have hbase := r.base_le
    have htotal : n * r.base ^ (d :: ds).length + Nat.ofDigits r.base (d :: ds).reverse =
        (n * r.base + d) * r.base ^ ds.length + Nat.ofDigits r.base ds.reverse := by
      rw [Nat.ofDigits_reverse_cons, List.length_cons]
      ring
    -- What has been read can only grow with the digits that follow.
    have hgrow : n * r.base + d ≤
        (n * r.base + d) * r.base ^ ds.length + Nat.ofDigits r.base ds.reverse :=
      Nat.le_add_right_of_le (Nat.le_mul_of_pos_right _ (Nat.pow_pos (Nat.zero_lt_of_lt hd)))
    have hmul := Word.mul?_holds hw (Word.toInt_ofNat hbase)
    rw [htotal, foldWord?]
    cases hshifted : w.mul? (.ofNat 128 r.base) with
    | none =>
      rw [hshifted] at hmul
      exact Nat.le_trans hmul (Nat.le_trans (Nat.le_add_right _ _) hgrow)
    | some v =>
      rw [hshifted] at hmul
      have hadd := Word.add?_holds hmul (Word.toInt_ofNat (n := d) (by omega))
      simp only [Option.bind_eq_bind, Option.bind_some, hdigit]
      cases hsum : v.add? (.ofNat 128 d) with
      | none =>
        rw [hsum] at hadd
        exact Nat.le_trans hadd hgrow
      | some u =>
        rw [hsum] at hadd
        exact ih hds hcs hadd

theorem word?_holds (hne : ds ≠ []) (hds : ∀ d ∈ ds, d < r.base)
    (h : cs.map Char.toLower = ds.map Nat.digitChar) :
    Word.Holds (Nat.ofDigits r.base ds.reverse) (r.word? Word.add? cs) := by
  have hcs : cs ≠ [] := by
    rintro rfl
    exact hne (List.map_eq_nil_iff.1 h.symm)
  rw [word?, if_neg (by simpa using hcs)]
  simpa using foldWord?_holds hds h (w := 0) (n := 0) rfl

end Radix

namespace Literal

/-- Digits with at most one sign of their own. -/
def signedWord? (r : Radix) : List Char → Option Word
  | '+' :: digits => r.word? Word.add? digits
  | '-' :: digits => r.word? Word.sub? digits
  | digits => r.word? Word.add? digits

/-- What stands behind the minus sign, or all of it. -/
def magnitude? : List Char → Option Word
  | '-' :: cs => signedWord? (Radix.split cs).1 (Radix.split cs).2
  | cs => signedWord? (Radix.split cs).1 (Radix.split cs).2

/-- The number, computed in words. The negation is not checked. -/
def wordNumber? (cs : List Char) : Option Int :=
  ((magnitude? cs).map fun w => (if cs.head? = some '-' then -w else w).toInt).filter
    fun n => decide (InRange n)

open Numeral

variable {x : Numeral} {cs : List Char}

theorem signedWord?_holds {r : Radix} {ds : List Nat} (hne : ds ≠ [])
    (hds : ∀ d ∈ ds, d < r.base) (h : cs.map Char.toLower = ds.map Nat.digitChar) :
    Word.Holds (Nat.ofDigits r.base ds.reverse) (signedWord? r cs) := by
  have hsign : ∀ c ∈ cs, c ≠ '+' ∧ c ≠ '-' := by
    intro c hc
    obtain ⟨d, -, hd⟩ := List.mem_map.1 (h ▸ List.mem_map_of_mem hc)
    refine ⟨?_, ?_⟩ <;> rintro rfl
    · exact Nat.digitChar_ne '+' rfl hd
    · exact Nat.digitChar_ne '-' rfl hd
  unfold signedWord?
  split
  · exact absurd rfl (hsign '+' List.mem_cons_self).1
  · exact absurd rfl (hsign '-' List.mem_cons_self).2
  · exact Radix.word?_holds hne hds h

theorem magnitude?_holds (h : x.Spells cs) :
    Word.Holds x.magnitude (magnitude? cs) ∧ (cs.head? = some '-' ↔ x.negative = true) := by
  have hsigned : ∀ {cs}, x.Unsigned cs →
      Word.Holds x.magnitude (signedWord? (Radix.split cs).1 (Radix.split cs).2) := by
    intro cs h
    obtain ⟨hradix, hdigits⟩ := split_unsigned h
    rw [hradix]
    exact signedWord?_holds x.digits_ne_nil x.lt_base hdigits
  obtain ⟨ds, hneg, rfl, hunsigned⟩ | ⟨hneg, hunsigned⟩ := spells_cases h
  · exact ⟨hsigned hunsigned, by simp [hneg]⟩
  · obtain ⟨c, ds, rfl, hdigit⟩ := head_of_unsigned hunsigned
    have hminus : c ≠ '-' := by
      rintro rfl
      cases hdigit
    have hbehind : magnitude? (c :: ds) =
        signedWord? (Radix.split (c :: ds)).1 (Radix.split (c :: ds)).2 := by
      unfold magnitude?
      split
      · cases ‹_ = _›
        exact absurd rfl hminus
      · rfl
    rw [hbehind]
    exact ⟨hsigned hunsigned, by simp [hneg, hminus]⟩

/-- Words of 128 bits are enough: the negation never overflows, and where the digits do, the number
is out of range in any case. -/
theorem wordNumber?_spells (h : x.Spells cs) :
    (∀ w, magnitude? cs = some w → w.negOverflow = false) ∧ wordNumber? cs = number? cs := by
  obtain ⟨hholds, hsign⟩ := magnitude?_holds h
  unfold wordNumber?
  rw [number?_spells h]
  cases hw : magnitude? cs with
  | none =>
    rw [hw] at hholds
    have hlimit : 2 ^ 127 ≤ x.magnitude := hholds
    have hrange : ¬ InRange x.value := by
      simp only [InRange, minNumber, maxNumber, value]
      split <;> omega
    simp [hrange]
  | some w =>
    rw [hw] at hholds
    have htoInt : w.toInt = x.magnitude := hholds
    have hneg : w.negOverflow = false := by
      simp only [BitVec.negOverflow, htoInt, beq_eq_false_iff_ne]
      omega
    have hvalue : (if cs.head? = some '-' then -w else w).toInt = x.value := by
      unfold value
      by_cases hnegative : x.negative = true
      · rw [if_pos (hsign.2 hnegative), if_pos hnegative, ← htoInt]
        exact BitVec.toInt_neg_of_not_negOverflow (by simp [hneg])
      · rw [if_neg (mt hsign.1 hnegative), if_neg hnegative, htoInt]
    refine ⟨fun v hv => ?_, ?_⟩
    · cases hv
      exact hneg
    · simp [hvalue, Option.filter_some]

/-- Numbers are exact. Each number of a text spells one integer and has it for its value, or is an
error at its own place if the integer is out of range; nothing overflows on the way. Conversely
every integer in range can be written in each radix, and such a text is a single number with that
value. -/
theorem numbers_exact (source : String) :
    (∀ text, ∀ t ∈ (TokenStream.ofText source text).tokens, t.kind = .number →
      ∃ x : Numeral, x.Spells t.text.toList ∧
        (∀ y : Numeral, y.Spells t.text.toList → y.value = x.value) ∧
        ofToken t.kind t.text t.position =
          (if InRange x.value then .ok (.number x.value)
            else .error (.lexical t.position (.outOfRange t.text))) ∧
        (∀ w, magnitude? t.text.toList = some w → w.negOverflow = false) ∧
        wordNumber? t.text.toList = number? t.text.toList) ∧
    ∀ n, InRange n → ∀ r : Radix, ∃ t : Token,
      TokenStream.ofText source (.ofList (r.spelling n)) =
          ⟨[t], .finished ⟨source, Place.start.after (r.spelling n)⟩⟩ ∧
        t = ⟨.number, .ofList (r.spelling n), ⟨source, .start⟩⟩ ∧
        ofToken t.kind t.text t.position = .ok (.number n) := by
  refine ⟨fun text t ht hkind => ?_, fun n hn r => ?_⟩
  · obtain ⟨x, hx⟩ : ∃ x : Numeral, x.Spells t.text.toList := by
      cases (TokenStream.shaped_ofText source text t ht).literal hkind rfl with
      | number hx => exact ⟨_, hx⟩
    have hunique : ∀ y : Numeral, y.Spells t.text.toList → y.value = x.value := fun y hy =>
      Option.some.inj ((integer?_spells hy).symm.trans (integer?_spells hx))
    refine ⟨x, hx, hunique, ?_, wordNumber?_spells hx⟩
    rw [hkind, ofToken, number?_spells hx]
    by_cases hrange : InRange x.value <;> simp [hrange]
  · exact ⟨_, TokenStream.ofText_shape (Lexeme.shape_spelling r n) source, rfl,
      ofToken_spelling hn r _⟩

/-- A number with a capital mark, one that is too large by one, and the least one of all. -/
theorem numbers_exact_at_limits :
    ofToken .number "-0X1f" ⟨"t", ⟨1, 1⟩⟩ = .ok (.number (-31)) ∧
      ofToken .number "9223372036854775808" ⟨"t", ⟨1, 7⟩⟩ =
        .error (.lexical ⟨"t", ⟨1, 7⟩⟩ (.outOfRange "9223372036854775808")) ∧
      ∃ t : Token, TokenStream.ofText "t" "-0x8000000000000000" =
          ⟨[t], .finished ⟨"t", ⟨1, 20⟩⟩⟩ ∧
        ofToken t.kind t.text t.position = .ok (.number minNumber) := by
  obtain ⟨hread, hspelled⟩ := numbers_exact "t"
  have hfirst : ⟨.number, "-0X1f", ⟨"t", ⟨1, 1⟩⟩⟩ ∈
      (TokenStream.ofText "t" "-0X1f 9223372036854775808").tokens := by decide +kernel
  have hsecond : ⟨.number, "9223372036854775808", ⟨"t", ⟨1, 7⟩⟩⟩ ∈
      (TokenStream.ofText "t" "-0X1f 9223372036854775808").tokens := by decide +kernel
  obtain ⟨x, -, hx, htoken, -⟩ := hread _ _ hfirst rfl
  obtain ⟨y, -, hy, htoken', -⟩ := hread _ _ hsecond rfl
  let minus31 : Numeral := ⟨true, .hexadecimal, [1, 15], by decide, by decide⟩
  let tooLarge : Numeral := ⟨false, .decimal,
    [9, 2, 2, 3, 3, 7, 2, 0, 3, 6, 8, 5, 4, 7, 7, 5, 8, 0, 8], by decide, by decide⟩
  have hspells : minus31.Spells "-0X1f".toList ∧ tooLarge.Spells "9223372036854775808".toList := by
    unfold Numeral.Spells
    decide +kernel
  have hvalues : minus31.value = -31 ∧ tooLarge.value = 9223372036854775808 := by decide +kernel
  have hxvalue : x.value = -31 := (hx _ hspells.1).symm.trans hvalues.1
  have hyvalue : y.value = 9223372036854775808 := (hy _ hspells.2).symm.trans hvalues.2
  rw [hxvalue, if_pos (by decide)] at htoken
  rw [hyvalue, if_neg (by decide)] at htoken'
  have htext : String.ofList (Radix.hexadecimal.spelling minNumber) = "-0x8000000000000000" := by
    decide +kernel
  have hplace : Place.start.after (Radix.hexadecimal.spelling minNumber) = ⟨1, 20⟩ := by
    decide +kernel
  obtain ⟨t, ht, -, hvalue⟩ := hspelled minNumber (by decide) .hexadecimal
  rw [htext, hplace] at ht
  exact ⟨htoken, htoken', t, ht, hvalue⟩

end Literal

end PacketSchema
