import PacketSchema.Proofs.Text.Reflow
import PacketSchema.Proofs.Token.Words

/-! Reading the tokens of a reflowed text. White space that is changed stands between tokens, in
comments or in strings, so the tokens are the same ones, but for the white space around line feeds
inside of strings. -/

namespace PacketSchema

open Text

/-! ## Between tokens -/

namespace Spot

theorem skip_comment_cons (p : Place) (c : Char) (cs : List Char) :
    skip true p (c :: cs) = skip (c != '\n') (p.step c) cs := rfl

theorem skip_spaces {b : List Char} (hb : Spaces b) (inComment : Bool) (p : Place)
    (cs : List Char) :
    ∃ q, skip inComment p (b ++ cs) = skip (inComment && !b.contains '\n') q cs := by
  induction b generalizing inComment p with
  | nil => exact ⟨p, by simp⟩
  | cons c b ih =>
    obtain ⟨hc, hb⟩ := List.forall_mem_cons.1 hb
    cases inComment with
    | false =>
      obtain ⟨q, hq⟩ := ih hb false (p.step c)
      exact ⟨q, by simpa [skip, hc] using hq⟩
    | true =>
      obtain ⟨q, hq⟩ := ih hb (c != '\n') (p.step c)
      refine ⟨q, ?_⟩
      rw [List.cons_append, skip_comment_cons, hq, List.contains_cons, Bool.not_or, BEq.comm]
      rfl

/-- White space that may not stand between tokens stops the reading. -/
theorem skip_blank {b : List Char} (hb : Blank b) (inComment : Bool) (p : Place)
    (cs : List Char) :
    (∃ c ds, (skip inComment p (b ++ cs)).rest = c :: ds ∧ isBlank c = true) ∨
      ∃ q, skip inComment p (b ++ cs) = skip (inComment && !b.contains '\n') q cs := by
  induction b generalizing inComment p with
  | nil => exact .inr ⟨p, by simp⟩
  | cons c b ih =>
    obtain ⟨hc, hb⟩ := List.forall_mem_cons.1 hb
    rw [List.cons_append]
    cases inComment with
    | false =>
      by_cases hspace : isSpace c = true
      · obtain h | ⟨q, hq⟩ := ih hb false (p.step c)
        · exact .inl (by simpa [skip, hspace] using h)
        · exact .inr ⟨q, by simpa [skip, hspace] using hq⟩
      · have hhash : c ≠ '#' := by
          rintro rfl
          cases hc
        exact .inl ⟨c, b ++ cs, by simp [skip, hspace, hhash], hc⟩
    | true =>
      rw [skip_comment_cons]
      obtain h | ⟨q, hq⟩ := ih hb (c != '\n') (p.step c)
      · exact .inl h
      · refine .inr ⟨q, ?_⟩
        rw [hq, List.contains_cons, Bool.not_or, BEq.comm]
        rfl

end Spot

variable {tail tail' cs cs' : List Char}

namespace Text.Reflowed

/-- What is found behind white space and comments: white space that stops the reading, the end of
both texts, or the same character. -/
theorem skip (h : Reflowed tail tail' cs cs')
    (inComment : Bool) (p p' : Place) :
    (∃ c ds, (Spot.skip inComment p cs).rest = c :: ds ∧ isBlank c = true) ∨
      (Spot.skip inComment p cs).rest = [] ∧ (Spot.skip inComment p' cs').rest = [] ∨
      ∃ c ds ds', (Spot.skip inComment p cs).rest = c :: ds ∧
        (Spot.skip inComment p' cs').rest = c :: ds' ∧ Reflowed tail tail' ds ds' := by
  induction h generalizing inComment p p' with
  | stop ht ht' =>
    obtain ⟨q', hq'⟩ := Spot.skip_spaces ht' inComment p' []
    obtain hstop | ⟨q, hq⟩ := Spot.skip_blank ht inComment p []
    · exact .inl (by simpa using hstop)
    · rw [List.append_nil] at hq hq'
      exact .inr (.inl ⟨by rw [hq]; rfl, by rw [hq']; rfl⟩)
  | keep c h ih =>
    unfold Spot.skip
    split
    · exact ih _ _ _
    · split
      · exact ih _ _ _
      · split
        · exact ih _ _ _
        · exact .inr (.inr ⟨c, _, _, rfl, rfl, h⟩)
  | gap hb hb' hn hn' h ih =>
    obtain ⟨q', hq'⟩ := Spot.skip_spaces hb' inComment p' _
    obtain hstop | ⟨q, hq⟩ := Spot.skip_blank hb inComment p _
    · exact .inl hstop
    · rw [hq, hq', List.contains_iff_mem.2 hn, List.contains_iff_mem.2 hn']
      exact ih _ _ _

end Text.Reflowed

/-! ## Tokens -/

namespace Lexeme

/-- A piece of each text and what is behind it. -/
def Splits (tail tail' : List Char) (P : List Char → List Char → Prop) :
    Option (List Char × List Char) → Option (List Char × List Char) → Prop :=
  Option.Rel fun x y => P x.1 y.1 ∧ Reflowed tail tail' x.2 y.2

theorem Splits.map {P Q : List Char → List Char → Prop}
    {x y : Option (List Char × List Char)} (h : Splits tail tail' P x y) (front front' : List Char)
    (hPQ : ∀ body body', P body body' → Q (front ++ body) (front' ++ body')) :
    Splits tail tail' Q (x.map fun (body, rest) => (front ++ body, rest))
      (y.map fun (body, rest) => (front' ++ body, rest)) := by
  cases h with
  | none => exact .none
  | some h => exact .some ⟨hPQ _ _ h.1, h.2⟩

theorem Splits.or {P : List Char → List Char → Prop}
    {x y x' y' : Option (List Char × List Char)} (h : Splits tail tail' P x y)
    (h' : Splits tail tail' P x' y') : Splits tail tail' P (x.or x') (y.or y') := by
  cases h with
  | none => exact h'
  | some h => exact .some h

theorem isBlank_of_isIdentChar {c : Char} (h : isIdentChar c = true) : isBlank c = false :=
  ascii_forall (P := fun c => isIdentChar c = true → isBlank c = false) (by decide +kernel)
    (isIdentChar_lt h) h

theorem isIdentChar_of_isBlank {c : Char} (h : isBlank c = true) : isIdentChar c = false :=
  Bool.eq_false_iff.2 fun hc => by simp [isBlank_of_isIdentChar hc] at h

theorem isQuote_of_isBlank {c : Char} (h : isBlank c = true) : isQuote c = false := by
  refine Bool.eq_false_iff.2 fun hq => ?_
  simp only [isQuote, Bool.or_eq_true, beq_iff_eq] at hq
  obtain rfl | rfl := hq <;> cases h

theorem isDigit_of_isBlank (r : Radix) {c : Char} (h : isBlank c = true) :
    r.isDigit c = false :=
  Bool.eq_false_iff.2 fun hc => by
    simp [isBlank_of_isIdentChar (isIdentChar_of_isDigit hc)] at h

theorem ofLetter?_of_isBlank {c : Char} (h : isBlank c = true) : Radix.ofLetter? c = none := by
  have hlower : c.toLower = c := Char.toLower_eq_of_not_isUpper fun hupper => by
    have hident : isIdentChar c = true := by
      simp [isIdentChar, Char.isAlphanum, Char.isAlpha, hupper]
    simp [isBlank_of_isIdentChar hident] at h
  unfold Radix.ofLetter?
  rw [hlower]
  split
  · cases h
  · cases h
  · cases h
  · rfl

theorem splitUnsigned_zero (letter : Char) (rest : List Char) :
    splitUnsigned ('0' :: letter :: rest) =
      (((Radix.ofLetter? letter).bind (splitDigits · rest)).map fun (digits, rest) =>
        (['0', letter] ++ digits, rest)).or (splitDigits .decimal ('0' :: letter :: rest)) := by
  simp only [splitUnsigned]
  cases (Radix.ofLetter? letter).bind (splitDigits · rest) <;> rfl

/-- No mark of a radix stands at the head. -/
def Unmarked (cs : List Char) : Prop :=
  ∀ letter rest, cs = '0' :: letter :: rest → Radix.ofLetter? letter = none

theorem splitUnsigned_of_unmarked {cs : List Char} (h : Unmarked cs) :
    splitUnsigned cs = splitDigits .decimal cs := by
  unfold splitUnsigned
  split
  · rw [h _ _ rfl]
    rfl
  · rfl

theorem Unmarked.of_blankHead {cs : List Char} (h : BlankHead cs) : Unmarked cs := by
  rintro letter rest rfl
  cases h '0' rfl

theorem Unmarked.zero {cs : List Char} (h : BlankHead cs) : Unmarked ('0' :: cs) := by
  rintro letter rest ⟨⟩
  exact ofLetter?_of_isBlank (h letter rfl)

theorem Unmarked.of_ne {c : Char} (h : c ≠ '0') (cs : List Char) : Unmarked (c :: cs) := by
  rintro letter rest ⟨⟩
  exact absurd rfl h

theorem splitNumber_of_ne {c : Char} (h : c ≠ '-') (cs : List Char) :
    splitNumber (c :: cs) = splitUnsigned (c :: cs) := by
  unfold splitNumber
  split
  · rename_i heq
    cases heq
    exact absurd rfl h
  · rfl

theorem splitDigits_reflowed (h : Reflowed tail tail' cs cs') (r : Radix) :
    Splits tail tail' Eq (splitDigits r cs) (splitDigits r cs') := by
  obtain ⟨htake, hdrop⟩ := h.run (p := r.isDigit) (fun _ => isDigit_of_isBlank r)
  unfold splitDigits
  rw [← htake]
  split
  · exact .none
  · exact .some ⟨rfl, hdrop⟩

/-- Both texts have the same character behind a zero at the head, or neither has a mark there. -/
theorem marks (h : Reflowed tail tail' cs cs') :
    (∃ letter ds ds', cs = '0' :: letter :: ds ∧ cs' = '0' :: letter :: ds' ∧
      Reflowed tail tail' ds ds') ∨ Unmarked cs ∧ Unmarked cs' := by
  obtain ⟨c, ds, ds', rfl, rfl, hds⟩ | ⟨hhead, hhead'⟩ := h.heads
  · by_cases hzero : c = '0'
    · subst c
      obtain ⟨letter, es, es', rfl, rfl, hes⟩ | ⟨hhead, hhead'⟩ := hds.heads
      · exact .inl ⟨letter, es, es', rfl, rfl, hes⟩
      · exact .inr ⟨.zero hhead, .zero hhead'⟩
    · exact .inr ⟨.of_ne hzero _, .of_ne hzero _⟩
  · exact .inr ⟨.of_blankHead hhead, .of_blankHead hhead'⟩

theorem splitUnsigned_reflowed (h : Reflowed tail tail' cs cs') :
    Splits tail tail' Eq (splitUnsigned cs) (splitUnsigned cs') := by
  have hdecimal := splitDigits_reflowed h .decimal
  obtain ⟨letter, ds, ds', rfl, rfl, hds⟩ | ⟨hmark, hmark'⟩ := marks h
  · rw [splitUnsigned_zero, splitUnsigned_zero]
    refine Splits.or (Splits.map (P := Eq) ?_ _ _ fun _ _ heq => congrArg _ heq) hdecimal
    cases Radix.ofLetter? letter with
    | none => exact .none
    | some r => exact splitDigits_reflowed hds r
  · rw [splitUnsigned_of_unmarked hmark, splitUnsigned_of_unmarked hmark']
    exact hdecimal

theorem splitNumber_reflowed (c : Char) (h : Reflowed tail tail' cs cs') :
    Splits tail tail' Eq (splitNumber (c :: cs)) (splitNumber (c :: cs')) := by
  by_cases hminus : c = '-'
  · subst c
    exact (splitUnsigned_reflowed h).map ['-'] ['-'] fun _ _ heq => congrArg _ heq
  · rw [splitNumber_of_ne hminus, splitNumber_of_ne hminus]
    exact splitUnsigned_reflowed (.keep c h)

/-! ### Strings -/

section

variable {quote : Char}

theorem splitQuoted_escaped (c : Char) (cs : List Char) :
    splitQuoted quote ('\\' :: c :: cs) =
      (splitQuoted quote cs).map fun (body, rest) => (['\\', c] ++ body, rest) := by
  rw [splitQuoted]
  rfl

theorem splitQuoted_closing (hquote : quote ≠ '\\') (cs : List Char) :
    splitQuoted quote (quote :: cs) = some ([quote], cs) := by
  rw [splitQuoted, if_pos rfl]
  · rintro ⟨⟩
    exact absurd rfl hquote
  · rintro _ _ ⟨⟩
    exact absurd rfl hquote

theorem splitQuoted_cons {c : Char} (hc : c ≠ '\\') (hquote : c ≠ quote) (cs : List Char) :
    splitQuoted quote (c :: cs) =
      (splitQuoted quote cs).map fun (body, rest) => ([c] ++ body, rest) := by
  rw [splitQuoted, if_neg hquote]
  · rfl
  · rintro ⟨⟩
    exact absurd rfl hc
  · rintro _ _ ⟨⟩
    exact absurd rfl hc

theorem splitQuoted_blank (hq : isQuote quote = true) {b : List Char} (hb : Blank b)
    (cs : List Char) :
    splitQuoted quote (b ++ cs) =
      (splitQuoted quote cs).map fun (body, rest) => (b ++ body, rest) := by
  induction b with
  | nil => simp
  | cons c b ih =>
    obtain ⟨hc, hb⟩ := List.forall_mem_cons.1 hb
    have hbackslash : c ≠ '\\' := by
      rintro rfl
      cases hc
    have hquote : c ≠ quote := by
      rintro rfl
      rw [isQuote_of_isBlank hc] at hq
      cases hq
    rw [List.cons_append, splitQuoted_cons hbackslash hquote, ih hb, Option.map_map]
    rfl

theorem splitQuoted_escaped_blank (hq : isQuote quote = true) {b : List Char} (hb : Blank b)
    (hne : b ≠ []) (cs : List Char) :
    splitQuoted quote ('\\' :: (b ++ cs)) =
      (splitQuoted quote cs).map fun (body, rest) => ('\\' :: b ++ body, rest) := by
  cases b with
  | nil => exact absurd rfl hne
  | cons c b =>
    obtain ⟨-, hb⟩ := List.forall_mem_cons.1 hb
    rw [List.cons_append, splitQuoted_escaped, splitQuoted_blank hq hb, Option.map_map]
    rfl

/-- A string ends at the same quote in both texts. What comes behind a backslash may be white space
that has changed. -/
theorem splitQuoted_reflowed (hq : isQuote quote = true) (h : Reflowed tail tail' cs cs') :
    Splits tail tail' (Reflowed [] []) (splitQuoted quote cs) (splitQuoted quote cs') ∧
      Splits tail tail' (Reflowed [] []) (splitQuoted quote ('\\' :: cs))
        (splitQuoted quote ('\\' :: cs')) := by
  have hnone : ∀ {b : List Char}, Blank b →
      splitQuoted quote b = none ∧ splitQuoted quote ('\\' :: b) = none := by
    intro b hb
    refine ⟨by simpa [splitQuoted] using splitQuoted_blank hq hb [], ?_⟩
    by_cases hne : b = []
    · rw [hne]
      rfl
    · simpa [splitQuoted] using splitQuoted_escaped_blank hq hb hne []
  induction h with
  | stop ht ht' =>
    obtain ⟨h₁, h₂⟩ := hnone ht
    obtain ⟨h₁', h₂'⟩ := hnone ht'.blank
    rw [h₁, h₂, h₁', h₂']
    exact ⟨.none, .none⟩
  | keep c h ih =>
    obtain ⟨ih, ihescaped⟩ := ih
    constructor
    · by_cases hbackslash : c = '\\'
      · subst c
        exact ihescaped
      · by_cases hquote : c = quote
        · subst c
          rw [splitQuoted_closing hbackslash, splitQuoted_closing hbackslash]
          exact .some ⟨.refl _, h⟩
        · rw [splitQuoted_cons hbackslash hquote, splitQuoted_cons hbackslash hquote]
          exact ih.map _ _ fun _ _ hbody => hbody.append_left [c]
    · rw [splitQuoted_escaped, splitQuoted_escaped]
      exact ih.map _ _ fun _ _ hbody => hbody.append_left ['\\', c]
  | gap hb hb' hn hn' h ih =>
    obtain ⟨ih, -⟩ := ih
    constructor
    · rw [splitQuoted_blank hq hb, splitQuoted_blank hq hb'.blank]
      exact ih.map _ _ fun _ _ hbody => .gap hb hb' hn hn' hbody
    · rw [splitQuoted_escaped_blank hq hb (List.ne_nil_of_mem hn),
        splitQuoted_escaped_blank hq hb'.blank (List.ne_nil_of_mem hn')]
      exact ih.map _ _ fun _ _ hbody => .keep _ (.gap hb hb' hn hn' hbody)

end

/-- A token of a text and the one in its place in the reflowed text. -/
structure Kept (tail tail' : List Char) (l l' : Lexeme) : Prop where
  kind : l'.kind = l.kind
  reflowed : Reflowed [] [] l.chars l'.chars
  verbatim : l.kind ≠ .string → l'.chars = l.chars
  rest : Reflowed tail tail' l.rest l'.rest

theorem Kept.same {kind : TokenKind} {chars chars' rest rest' : List Char} (heq : chars = chars')
    (h : Reflowed tail tail' rest rest') :
    Kept tail tail' ⟨kind, chars, rest⟩ ⟨kind, chars', rest'⟩ := by
  subst heq
  exact ⟨rfl, .refl _, fun _ => rfl, h⟩

theorem first?_reflowed (c : Char)
    (h : Reflowed tail tail' cs cs') :
    Option.Rel (Kept tail tail') (first? (c :: cs)) (first? (c :: cs')) := by
  unfold first?
  dsimp only
  split
  · exact .some (.same rfl h)
  · split
    · obtain ⟨htake, hdrop⟩ := h.run (p := isIdentChar) (fun _ => isIdentChar_of_isBlank)
      exact .some (.same (congrArg _ htake) hdrop)
    · split
      · rename_i hq
        obtain ⟨hsplit, -⟩ := splitQuoted_reflowed hq h
        revert hsplit
        generalize splitQuoted c cs = x
        generalize splitQuoted c cs' = y
        rintro (hsplit | -)
        · exact .some ⟨rfl, .keep c hsplit.1, fun hk => absurd rfl hk, hsplit.2⟩
        · exact .none
      · have hsplit := splitNumber_reflowed c h
        revert hsplit
        generalize splitNumber (c :: cs) = x
        generalize splitNumber (c :: cs') = y
        rintro (hsplit | -)
        · exact .some (.same hsplit.1 hsplit.2)
        · exact .none

/-- No token starts with white space. -/
theorem first?_of_isBlank {c : Char} (h : isBlank c = true) (cs : List Char) :
    first? (c :: cs) = none := by
  have hsymbol : ¬ isSymbol c = true := by
    intro hs
    simp only [isSymbol, List.contains_eq_mem, decide_eq_true_eq] at hs
    fin_cases hs <;> cases h
  have hstart : ¬ isIdentStart c = true := fun hs => by
    simp [isBlank_of_isIdentChar (isIdentChar_of_isIdentStart hs)] at h
  have hminus : c ≠ '-' := by
    rintro rfl
    cases h
  have hhead : BlankHead (c :: cs) := by
    rintro _ ⟨⟩
    exact h
  have hdigits : (c :: cs).takeWhile Radix.decimal.isDigit = [] :=
    (Reflowed.takeWhile_of_blankHead (fun _ => isDigit_of_isBlank _) hhead).1
  have hnumber : splitNumber (c :: cs) = none := by
    rw [splitNumber_of_ne hminus, splitUnsigned_of_unmarked (.of_blankHead hhead), splitDigits,
      hdigits]
    rfl
  simp [first?, hsymbol, hstart, isQuote_of_isBlank h, hnumber]

end Lexeme

/-- A token of a text and the one in its place in the reflowed text: only a string with line feeds
in it can change, and only the white space around these. -/
structure Token.Kept (t t' : Token) : Prop where
  kind : t'.kind = t.kind
  reflowed : Reflowed [] [] t.text.toList t'.text.toList
  verbatim : (t.kind = .string → '\n' ∉ t.text.toList) → t'.text = t.text
  source : t'.position.source = t.position.source

theorem Token.Kept.of_lexeme {l l' : Lexeme} (h : l.Kept tail tail' l') (source : String)
    (p p' : Place) :
    Token.Kept (.ofChars l.kind l.chars ⟨source, p⟩) (.ofChars l'.kind l'.chars ⟨source, p'⟩) := by
  by_cases hk : l.kind = .string
  · rw [h.kind, hk]
    simp only [ofChars, TokenKind.isLiteral, if_true]
    refine ⟨rfl, by simpa using h.reflowed, fun hn => ?_, rfl⟩
    rw [h.reflowed.eq_of_not_mem (by simpa using hn)]
  · rw [h.kind, h.verbatim hk]
    unfold ofChars
    split
    · exact ⟨rfl, .refl _, fun _ => rfl, rfl⟩
    · exact ⟨rfl, .refl _, fun _ => rfl, rfl⟩

/-- Reading goes wrong at white space that may not stand between tokens, or else goes on alike. -/
theorem Spot.next_reflowed (source : String) {s s' : Spot}
    (h : Reflowed tail tail' s.rest s'.rest) :
    (∃ c q, s.next source = .unexpected c q) ∨
      (∃ q q', s.next source = .finish q ∧ s'.next source = .finish q') ∨
      ∃ t t' behind behind', s.next source = .token t behind ∧ s'.next source = .token t' behind' ∧
        t.Kept t' ∧ Reflowed tail tail' behind.rest behind'.rest := by
  unfold next first skipTrivia
  obtain ⟨c, ds, heq, hc⟩ | ⟨heq, heq'⟩ | ⟨c, ds, ds', heq, heq', hds⟩ :=
    h.skip false s.place s'.place
  · rw [heq]
    dsimp only
    rw [Lexeme.first?_of_isBlank hc]
    exact .inl ⟨_, _, rfl⟩
  · rw [heq, heq']
    exact .inr (.inl ⟨_, _, rfl, rfl⟩)
  · rw [heq, heq']
    dsimp only
    have hfirst := Lexeme.first?_reflowed c hds
    revert hfirst
    generalize Lexeme.first? (c :: ds) = x
    generalize Lexeme.first? (c :: ds') = y
    rintro (hkept | -)
    · exact .inr (.inr ⟨_, _, _, _, rfl, rfl, .of_lexeme hkept _ _ _, hkept.rest⟩)
    · exact .inl ⟨_, _, rfl⟩

namespace TokenStream

variable {source : String} {spot : Spot}

theorem ofSpot_of_token {t : Token} {behind : Spot} (h : spot.next source = .token t behind) :
    ofSpot source spot = (ofSpot source behind).cons t := by
  rw [ofSpot]
  split <;> simp_all

theorem ofSpot_of_finish {q : Spot} (h : spot.next source = .finish q) :
    ofSpot source spot = ⟨[], .finished ⟨source, q.place⟩⟩ := by
  rw [ofSpot]
  split <;> simp_all

theorem ofSpot_of_unexpected {c : Char} {q : Spot} (h : spot.next source = .unexpected c q) :
    ofSpot source spot = ⟨[], .unexpected ⟨source, q.place⟩ c⟩ := by
  rw [ofSpot]
  split <;> simp_all

theorem ofSpot_of_next {spot' : Spot} (h : spot.next source = spot'.next source) :
    ofSpot source spot = ofSpot source spot' := by
  cases hnext : spot'.next source with
  | token t behind => rw [ofSpot_of_token hnext, ofSpot_of_token (h.trans hnext)]
  | finish q => rw [ofSpot_of_finish hnext, ofSpot_of_finish (h.trans hnext)]
  | unexpected c q => rw [ofSpot_of_unexpected hnext, ofSpot_of_unexpected (h.trans hnext)]

/-- A text that can be read to its end can be read after it has been reflowed. -/
theorem ofSpot_reflowed {p : Position} {spot' : Spot}
    (hstop : (ofSpot source spot).stop = .finished p)
    (h : Reflowed tail tail' spot.rest spot'.rest) :
    (∃ place, (ofSpot source spot').stop = .finished ⟨p.source, place⟩) ∧
      List.Forall₂ Token.Kept (ofSpot source spot).tokens (ofSpot source spot').tokens := by
  fun_induction ofSpot source spot generalizing spot' with
  | case1 spot t behind hnext ih =>
    obtain ⟨_, _, heq⟩ | ⟨_, _, heq, -⟩ | ⟨_, t', _, behind', heq, hnext', hkept, hrest⟩ :=
      Spot.next_reflowed source h
    · rw [hnext] at heq
      cases heq
    · rw [hnext] at heq
      cases heq
    · rw [hnext] at heq
      cases heq
      obtain ⟨hfinished, htokens⟩ := ih hstop hrest
      rw [ofSpot_of_token hnext']
      exact ⟨hfinished, .cons hkept htokens⟩
  | case2 spot q hnext =>
    obtain ⟨_, _, heq⟩ | ⟨_, q', -, hnext'⟩ | ⟨_, _, _, _, heq, -⟩ :=
      Spot.next_reflowed source h
    · rw [hnext] at heq
      cases heq
    · cases hstop
      rw [ofSpot_of_finish hnext']
      exact ⟨⟨_, rfl⟩, .nil⟩
    · rw [hnext] at heq
      cases heq
  | case3 => cases hstop

end TokenStream

end PacketSchema
