import PacketSchema.Proofs.Token.Joining
import PacketSchema.Proofs.Token.Rewording

/-! Texts in other case. Outside of quotes nothing that is read from a character depends on its
case, so the words are the same, and numbers have the same value. -/

namespace PacketSchema

/-! ## Characters -/

/-- What does not depend on the case of the characters of ASCII does not depend on case. -/
theorem toLower_invariant {α : Type} {P : Char → α}
    (h : ∀ n, n < 128 → P (Char.ofNat n).toLower = P (Char.ofNat n)) (c : Char) :
    P c.toLower = P c := by
  by_cases hupper : c.isUpper = true
  · have hident : Lexeme.isIdentChar c = true := by
      simp [Lexeme.isIdentChar, Char.isAlphanum, Char.isAlpha, hupper]
    exact ascii_forall (P := fun c => P c.toLower = P c) h (Lexeme.isIdentChar_lt hident)
  · rw [Char.toLower_eq_of_not_isUpper hupper]

/-- What does not depend on case is the same for characters that differ in case. -/
theorem eq_of_toLower {α : Type} {P : Char → α}
    (h : ∀ n, n < 128 → P (Char.ofNat n).toLower = P (Char.ofNat n)) {c c' : Char}
    (hc : c'.toLower = c.toLower) : P c' = P c :=
  calc P c' = P c'.toLower := (toLower_invariant h c').symm
    _ = P c.toLower := congrArg P hc
    _ = P c := toLower_invariant h c

theorem toLower_eq_iff {c d : Char}
    (hd : ∀ n, n < 128 → ((Char.ofNat n).toLower == d) = (Char.ofNat n == d)) :
    c.toLower = d ↔ c = d := by
  have h := toLower_invariant (P := (· == d)) hd c
  simpa using congrArg (· = true) h

/-! ## Numbers -/

namespace Radix

theorem digitValue?_toLower (c : Char) : digitValue? c.toLower = digitValue? c :=
  toLower_invariant (by decide +kernel) c

theorem digit?_toLower (r : Radix) (c : Char) : r.digit? c.toLower = r.digit? c := by
  unfold digit?
  rw [digitValue?_toLower]

theorem ofLetter?_toLower (c : Char) : ofLetter? c.toLower = ofLetter? c :=
  toLower_invariant (by decide +kernel) c

theorem foldDigits_toLower (r : Radix) (n : Nat) (cs : List Char) :
    r.foldDigits n (cs.map Char.toLower) = r.foldDigits n cs := by
  induction cs generalizing n with
  | nil => rfl
  | cons c cs ih =>
    simp only [List.map_cons, foldDigits, digit?_toLower, ih]

theorem value?_toLower (r : Radix) (cs : List Char) :
    r.value? (cs.map Char.toLower) = r.value? cs := by
  unfold value?
  rw [foldDigits_toLower, List.isEmpty_map]

theorem split_zero (letter : Char) (rest : List Char) :
    split ('0' :: letter :: rest) =
      ((ofLetter? letter).map (·, rest)).getD (decimal, '0' :: letter :: rest) := by
  simp only [split]
  cases ofLetter? letter <;> rfl

theorem split_of_unmarked {cs : List Char} (h : ∀ letter rest, cs ≠ '0' :: letter :: rest) :
    split cs = (decimal, cs) := by
  unfold split
  split
  · exact absurd rfl (h _ _)
  · rfl

theorem split_toLower (cs : List Char) :
    split (cs.map Char.toLower) = ((split cs).1, (split cs).2.map Char.toLower) := by
  by_cases hzero : ∃ letter rest, cs = '0' :: letter :: rest
  · obtain ⟨letter, rest, rfl⟩ := hzero
    have hmap : ('0' :: letter :: rest).map Char.toLower =
        '0' :: letter.toLower :: rest.map Char.toLower := rfl
    rw [hmap, split_zero, split_zero, ofLetter?_toLower]
    cases ofLetter? letter <;> rfl
  · have hunmarked : ∀ letter rest, cs.map Char.toLower ≠ '0' :: letter :: rest := by
      rintro letter rest heq
      obtain ⟨c, cs, rfl, hc, heq⟩ := List.map_eq_cons_iff.1 heq
      obtain ⟨letter, rest, rfl, -, -⟩ := List.map_eq_cons_iff.1 heq
      have hchar : c = '0' := (toLower_eq_iff (by decide +kernel)).1 hc
      exact hzero ⟨letter, rest, by rw [hchar]⟩
    rw [split_of_unmarked hunmarked,
      split_of_unmarked fun letter rest heq => hzero ⟨letter, rest, heq⟩]

end Radix

namespace Literal

theorem signed?_of_ne {c : Char} (hplus : c ≠ '+') (hminus : c ≠ '-') (r : Radix)
    (cs : List Char) : signed? r (c :: cs) = (r.value? (c :: cs)).map Int.ofNat := by
  unfold signed?
  split
  · cases ‹_ = _›
    exact absurd rfl hplus
  · cases ‹_ = _›
    exact absurd rfl hminus
  · rfl

theorem signed?_toLower (r : Radix) (cs : List Char) :
    signed? r (cs.map Char.toLower) = signed? r cs := by
  cases cs with
  | nil => rfl
  | cons c cs =>
    by_cases hplus : c = '+'
    · subst hplus
      exact congrArg (Option.map Int.ofNat) (r.value?_toLower cs)
    · by_cases hminus : c = '-'
      · subst hminus
        exact congrArg (Option.map fun n => -Int.ofNat n) (r.value?_toLower cs)
      · rw [List.map_cons, signed?_of_ne hplus hminus, signed?_of_ne, ← List.map_cons,
          r.value?_toLower]
        · exact mt (toLower_eq_iff (by decide +kernel)).1 hplus
        · exact mt (toLower_eq_iff (by decide +kernel)).1 hminus

theorem integer?_of_ne {c : Char} (hminus : c ≠ '-') (cs : List Char) :
    integer? (c :: cs) = signed? (Radix.split (c :: cs)).1 (Radix.split (c :: cs)).2 := by
  unfold integer?
  split
  · cases ‹_ = _›
    exact absurd rfl hminus
  · rfl

theorem integer?_toLower (cs : List Char) : integer? (cs.map Char.toLower) = integer? cs := by
  have hsigned : ∀ cs : List Char,
      signed? (Radix.split (cs.map Char.toLower)).1 (Radix.split (cs.map Char.toLower)).2 =
        signed? (Radix.split cs).1 (Radix.split cs).2 := by
    intro cs
    rw [Radix.split_toLower, signed?_toLower]
  cases cs with
  | nil => rfl
  | cons c cs =>
    by_cases hminus : c = '-'
    · subst hminus
      exact congrArg (Option.map Neg.neg) (hsigned cs)
    · rw [List.map_cons, integer?_of_ne hminus, integer?_of_ne, ← List.map_cons, hsigned]
      exact mt (toLower_eq_iff (by decide +kernel)).1 hminus

/-- The value of a number does not depend on the case of its digits and of the mark of its radix. -/
theorem number?_toLower (cs : List Char) : number? (cs.map Char.toLower) = number? cs := by
  unfold number?
  rw [integer?_toLower]

end Literal

/-! ## Texts -/

/-- The same text with some characters outside of quotes in other case. -/
inductive Recased : List Char → List Char → Prop
  | done : Recased [] []
  | char {c c' : Char} {cs cs' : List Char} (hcase : c'.toLower = c.toLower)
      (hquote : Lexeme.isQuote c = false) (hhash : c ≠ '#') (h : Recased cs cs') :
      Recased (c :: cs) (c' :: cs')
  /-- A comment reaches to the end of its line, whatever stands in it. -/
  | comment {line line' cs cs' : List Char} (hline : '\n' ∉ line) (hline' : '\n' ∉ line')
      (hend : ∀ c ∈ cs.head?, c = '\n') (hend' : ∀ c ∈ cs'.head?, c = '\n') (h : Recased cs cs') :
      Recased ('#' :: (line ++ cs)) ('#' :: (line' ++ cs'))
  | string {quote : Char} {body cs cs' : List Char} (hquote : Lexeme.isQuote quote = true)
      (hbody : Lexeme.splitQuoted quote body = some (body, [])) (h : Recased cs cs') :
      Recased (quote :: (body ++ cs)) (quote :: (body ++ cs'))

namespace Lexeme

variable {cs cs' : List Char}

/-- A piece in other case and what is behind it. -/
abbrev Recases : Option (List Char × List Char) → Option (List Char × List Char) → Prop :=
  Option.Rel fun x y => y.1.map Char.toLower = x.1.map Char.toLower ∧ Recased x.2 y.2

/-- A run of characters in which neither case nor quotes nor comments matter. -/
theorem run_recased {p : Char → Bool} (hp : ∀ c, p c.toLower = p c)
    (hquote : ∀ c, isQuote c = true → p c = false) (hhash : p '#' = false) (h : Recased cs cs') :
    (cs'.takeWhile p).map Char.toLower = (cs.takeWhile p).map Char.toLower ∧
      Recased (cs.dropWhile p) (cs'.dropWhile p) := by
  induction h with
  | done => exact ⟨rfl, .done⟩
  | @char c c' cs cs' hcase hplain hne h ih =>
    have hsame : p c' = p c := by rw [← hp c', hcase, hp]
    cases hc : p c with
    | true => simpa [hc, hsame ▸ hc, hcase] using ih
    | false => simpa [hc, hsame ▸ hc] using Recased.char hcase hplain hne h
  | comment hline hline' hend hend' h =>
    simpa [hhash] using Recased.comment hline hline' hend hend' h
  | string hq hbody h => simpa [hquote _ hq] using Recased.string hq hbody h

theorem of_isQuote {P : Char → Prop} (hdouble : P '"') (hsingle : P '\'') {c : Char}
    (h : isQuote c = true) : P c := by
  simp only [isQuote, Bool.or_eq_true, beq_iff_eq] at h
  obtain rfl | rfl := h
  · exact hdouble
  · exact hsingle

theorem isDigit_of_isQuote (r : Radix) {c : Char} (h : isQuote c = true) : r.isDigit c = false :=
  of_isQuote (P := (r.isDigit · = false)) (by cases r <;> rfl) (by cases r <;> rfl) h

theorem splitDigits_recased (r : Radix) (h : Recased cs cs') :
    Recases (splitDigits r cs) (splitDigits r cs') := by
  have hcase : ∀ c, r.isDigit c.toLower = r.isDigit c :=
    fun c => congrArg Option.isSome (r.digit?_toLower c)
  obtain ⟨htake, hdrop⟩ := run_recased hcase (fun _ => isDigit_of_isQuote r) (by cases r <;> rfl) h
  have hempty : (cs'.takeWhile r.isDigit).isEmpty = (cs.takeWhile r.isDigit).isEmpty := by
    rw [← List.isEmpty_map (f := Char.toLower), htake, List.isEmpty_map]
  unfold splitDigits
  rw [hempty]
  split
  · exact .none
  · exact .some ⟨htake, hdrop⟩

/-- Both texts have a character behind a zero at the head, in one case or another, or neither has a
mark there. -/
theorem marks_recased (h : Recased cs cs') :
    (∃ letter letter' ds ds', cs = '0' :: letter :: ds ∧ cs' = '0' :: letter' :: ds' ∧
      letter'.toLower = letter.toLower ∧ Recased ds ds') ∨ Unmarked cs ∧ Unmarked cs' := by
  cases h with
  | done => exact .inr ⟨by rintro _ _ ⟨⟩, by rintro _ _ ⟨⟩⟩
  | comment => exact .inr ⟨.of_ne (by decide) _, .of_ne (by decide) _⟩
  | string hquote _ _ =>
    have hzero := of_isQuote (P := (· ≠ '0')) (by decide) (by decide) hquote
    exact .inr ⟨.of_ne hzero _, .of_ne hzero _⟩
  | @char c c' cs cs' hcase _ _ h =>
    have hzero : c' = '0' ↔ c = '0' := by
      rw [← toLower_eq_iff (d := '0') (by decide +kernel), hcase,
        toLower_eq_iff (by decide +kernel)]
    by_cases hc : c = '0'
    · obtain rfl := hzero.2 hc
      subst hc
      cases h with
      | done => exact .inr ⟨by rintro _ _ ⟨⟩, by rintro _ _ ⟨⟩⟩
      | char hletter _ _ h => exact .inl ⟨_, _, _, _, rfl, rfl, hletter, h⟩
      | comment =>
        refine .inr ⟨?_, ?_⟩ <;>
        · rintro _ _ ⟨⟩
          rfl
      | string hquote _ _ =>
        refine .inr ⟨?_, ?_⟩ <;>
        · rintro _ _ ⟨⟩
          exact of_isQuote (P := (Radix.ofLetter? · = none)) rfl rfl hquote
    · exact .inr ⟨.of_ne hc _, .of_ne (mt hzero.1 hc) _⟩

theorem Recases.map {x y : Option (List Char × List Char)} (h : Recases x y)
    (front front' : List Char) (hfront : front'.map Char.toLower = front.map Char.toLower) :
    Recases (x.map fun (body, rest) => (front ++ body, rest))
      (y.map fun (body, rest) => (front' ++ body, rest)) := by
  cases h with
  | none => exact .none
  | some h => exact .some ⟨by simp [hfront, h.1], h.2⟩

theorem Recases.or {x y x' y' : Option (List Char × List Char)} (h : Recases x y)
    (h' : Recases x' y') : Recases (x.or x') (y.or y') := by
  cases h with
  | none => exact h'
  | some h => exact .some h

theorem splitUnsigned_recased (h : Recased cs cs') :
    Recases (splitUnsigned cs) (splitUnsigned cs') := by
  have hdecimal := splitDigits_recased .decimal h
  obtain ⟨letter, letter', ds, ds', rfl, rfl, hletter, hds⟩ | ⟨hmark, hmark'⟩ := marks_recased h
  · have hradix : Radix.ofLetter? letter' = Radix.ofLetter? letter := by
      rw [← Radix.ofLetter?_toLower, hletter, Radix.ofLetter?_toLower]
    rw [splitUnsigned_zero, splitUnsigned_zero, hradix]
    refine Recases.or (Recases.map ?_ _ _ (by simp [hletter])) hdecimal
    cases Radix.ofLetter? letter with
    | none => exact .none
    | some r => exact splitDigits_recased r hds
  · rw [splitUnsigned_of_unmarked hmark, splitUnsigned_of_unmarked hmark']
    exact hdecimal

theorem splitNumber_recased {c c' : Char} (hcase : c'.toLower = c.toLower)
    (hquote : isQuote c = false) (hhash : c ≠ '#') (h : Recased cs cs') :
    Recases (splitNumber (c :: cs)) (splitNumber (c' :: cs')) := by
  have hminus : c' = '-' ↔ c = '-' := by
    rw [← toLower_eq_iff (d := '-') (by decide +kernel), hcase, toLower_eq_iff (by decide +kernel)]
  by_cases hc : c = '-'
  · obtain rfl := hminus.2 hc
    subst hc
    exact (splitUnsigned_recased h).map ['-'] ['-'] rfl
  · rw [splitNumber_of_ne hc, splitNumber_of_ne (mt hminus.1 hc)]
    exact splitUnsigned_recased (.char hcase hquote hhash h)

theorem first?_string {quote : Char} {body : List Char} (hquote : isQuote quote = true)
    (hbody : splitQuoted quote body = some (body, [])) (cs : List Char) :
    first? (quote :: (body ++ cs)) = some ⟨.string, quote :: body, cs⟩ := by
  have hsymbol := of_isQuote (P := (isSymbol · = false)) rfl rfl hquote
  have hstart := of_isQuote (P := (isIdentStart · = false)) rfl rfl hquote
  simp [first?, hsymbol, hstart, hquote, splitQuoted_append hbody cs]

/-- The word that stands at the head, in other case. -/
theorem first?_recased {c c' : Char} {l : Lexeme} (hcase : c'.toLower = c.toLower)
    (hquote : isQuote c = false) (hhash : c ≠ '#') (h : Recased cs cs')
    (hl : first? (c :: cs) = some l) :
    ∃ l', first? (c' :: cs') = some l' ∧ l.kind ≠ .string ∧ l'.kind = l.kind ∧
      l'.chars.map Char.toLower = l.chars.map Char.toLower ∧ Recased l.rest l'.rest := by
  have hsymbol : isSymbol c' = isSymbol c := eq_of_toLower (by decide +kernel) hcase
  have hstart : isIdentStart c' = isIdentStart c := eq_of_toLower (by decide +kernel) hcase
  have hquote' : isQuote c' = isQuote c := eq_of_toLower (by decide +kernel) hcase
  unfold first? at hl ⊢
  dsimp only at hl ⊢
  rw [hsymbol, hstart, hquote', hquote]
  rw [hquote] at hl
  split at hl
  · rename_i hs
    cases hl
    rw [if_pos hs]
    exact ⟨_, rfl, by simp, rfl, by simp [hcase], h⟩
  · rename_i hs
    rw [if_neg hs]
    split at hl
    · rename_i hi
      cases hl
      rw [if_pos hi]
      obtain ⟨htake, hdrop⟩ := run_recased (p := isIdentChar)
        (toLower_invariant (by decide +kernel))
        (fun _ => of_isQuote (P := (isIdentChar · = false)) rfl rfl) rfl h
      exact ⟨_, rfl, by simp, rfl, by simp [hcase, htake], hdrop⟩
    · rename_i hi
      rw [if_neg hi]
      simp only [Bool.false_eq_true, if_false] at hl ⊢
      have hnumber := splitNumber_recased hcase hquote hhash h
      revert hl
      generalize splitNumber (c :: cs) = x at hnumber
      generalize splitNumber (c' :: cs') = y at hnumber
      intro hl
      cases hnumber with
      | none => cases hl
      | some hsplit =>
        cases hl
        exact ⟨_, rfl, by simp, rfl, hsplit.1, hsplit.2⟩

end Lexeme

/-- A text that can be read to its end, with all its numbers in range. -/
def Readable (cs : List Char) : Prop :=
  ∃ source p, (TokenStream.ofSpot source ⟨p, cs⟩).Alike (TokenStream.ofSpot source ⟨p, cs⟩)

namespace Readable

open TokenStream

variable {c : Char} {cs : List Char}

theorem of_space (h : Readable (c :: cs)) (hc : Spot.isSpace c = true) : Readable cs := by
  obtain ⟨source, p, h⟩ := h
  rw [ofSpot_space source p hc] at h
  exact ⟨source, _, h⟩

theorem of_comment {line : List Char} (h : Readable ('#' :: (line ++ cs))) (hline : '\n' ∉ line)
    (hend : ∀ c ∈ cs.head?, c = '\n') : Readable cs := by
  obtain ⟨source, p, h⟩ := h
  obtain ⟨q, hq⟩ := ofSpot_comment source p hline hend
  rw [hq] at h
  exact ⟨source, q, h⟩

theorem of_lexeme {l : Lexeme} (h : Readable cs) (hl : Lexeme.first? cs = some l) :
    Readable l.rest ∧ (l.kind = .number → ∃ n, Literal.number? l.chars = some n) := by
  obtain ⟨source, p, h⟩ := h
  rw [ofSpot_lexeme source p hl] at h
  obtain ⟨hfinished, -, htokens⟩ := h
  obtain ⟨ht, hrest⟩ := List.forall₂_cons.1 htokens
  refine ⟨⟨source, _, hfinished, hfinished, hrest⟩, fun hk => ?_⟩
  rw [hk] at ht
  have hsome := (ht.literal rfl).1
  rw [Token.literal?_number, Option.isSome_map] at hsome
  exact Option.isSome_iff_exists.1 hsome

/-- Behind white space and comments there is a word. -/
theorem exists_lexeme (h : Readable (c :: cs)) (hspace : Spot.isSpace c = false) (hhash : c ≠ '#') :
    ∃ l, Lexeme.first? (c :: cs) = some l := by
  obtain ⟨source, p, h⟩ := h
  cases hl : Lexeme.first? (c :: cs) with
  | some l => exact ⟨l, rfl⟩
  | none =>
    have hnext := Spot.next_of_none hl hspace hhash source p
    have hfinished := h.finished
    rw [ofSpot_of_unexpected hnext] at hfinished
    cases hfinished

end Readable

theorem Lexeme.length_rest_lt {cs : List Char} {l : Lexeme} (h : first? cs = some l) :
    l.rest.length < cs.length := by
  obtain ⟨happ, hne⟩ := first?_split h
  rw [← happ, List.length_append]
  exact Nat.lt_add_of_pos_left (List.length_pos_iff.2 hne)

/-- A piece in other case is the same piece in other words. -/
theorem Lexeme.Reworded.of_case {l l' : Lexeme} (hstring : l.kind ≠ .string)
    (hkind : l'.kind = l.kind) (hchars : l'.chars.map Char.toLower = l.chars.map Char.toLower)
    (hnumber : l.kind = .number → ∃ n, Literal.number? l.chars = some n) : l.Reworded l' := by
  obtain ⟨kind, chars, rest⟩ := l
  obtain ⟨kind', chars', rest'⟩ := l'
  obtain rfl : kind' = kind := hkind
  cases kind' with
  | symbol | ident | keyword => exact .word rfl hchars
  | string => exact absurd rfl hstring
  | number =>
    obtain ⟨n, hn⟩ := hnumber rfl
    refine .number hn ?_
    rw [← Literal.number?_toLower, hchars, Literal.number?_toLower, hn]

/-- A readable text in other case is the same text in other words. -/
theorem Recased.reworded {cs cs' : List Char} (h : Recased cs cs') (hread : Readable cs) :
    Reworded cs cs' := by
  -- A whole word is passed at a time, so the induction is on the number of characters left.
  obtain ⟨n, hn⟩ : ∃ n, cs.length < n := ⟨_, Nat.lt_succ_self _⟩
  induction n generalizing cs cs' with
  | zero => exact absurd hn (Nat.not_lt_zero _)
  | succ n ih =>
    have hbehind : ∀ {l}, Lexeme.first? cs = some l → l.rest.length < n := fun hl =>
      Nat.lt_of_lt_of_le (Lexeme.length_rest_lt hl) (Nat.le_of_lt_succ hn)
    cases h with
    | done => exact .done
    | @char c c' cs cs' hcase hquote hhash h =>
      cases hspace : Spot.isSpace c with
      | true =>
        have hspace' : Spot.isSpace c' = true :=
          (eq_of_toLower (by decide +kernel) hcase).trans hspace
        have hrest := ih h (hread.of_space hspace) (Nat.lt_of_succ_lt_succ hn)
        exact .space hspace (.symm (.space hspace' (.symm hrest)))
      | false =>
        obtain ⟨l, hl⟩ := hread.exists_lexeme hspace hhash
        obtain ⟨l', hl', hstring, hkind, hchars, hrest⟩ :=
          Lexeme.first?_recased hcase hquote hhash h hl
        obtain ⟨hread', hnumber⟩ := hread.of_lexeme hl
        exact .lexeme hl hl' (.of_case hstring hkind hchars hnumber)
          (ih hrest hread' (hbehind hl))
    | @comment line line' cs cs' hline hline' hend hend' h =>
      have hlength : cs.length < n := by
        simp only [List.length_cons, List.length_append] at hn
        omega
      have hrest := ih h (hread.of_comment hline hend) hlength
      exact .comment hline hend (.symm (.comment hline' hend' (.symm hrest)))
    | @string quote body cs cs' hquote hbody h =>
      have hl := Lexeme.first?_string hquote hbody
      exact .lexeme (hl cs) (hl cs') .string (ih h (hread.of_lexeme (hl cs)).1 (hbehind (hl cs)))

end PacketSchema
