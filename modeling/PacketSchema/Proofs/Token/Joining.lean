import PacketSchema.Proofs.Declaration.Relocation
import PacketSchema.Proofs.Declaration.Returning
import PacketSchema.Proofs.Token.Reflow

/-! Reading the tokens of two texts with a line end between them. No token and no comment of the
first text reaches over the line end, so the tokens of the second one follow, further down. -/

namespace PacketSchema

/-! ## Places further down -/

namespace Place

/-- The place so many lines below. -/
def down (lines : Nat) (p : Place) : Place := ⟨p.line + lines, p.column⟩

theorem step_down (lines : Nat) (p : Place) (c : Char) :
    (p.down lines).step c = (p.step c).down lines := by
  unfold step down
  split
  · simp only [Nat.add_right_comm]
  · rfl

theorem after_down (lines : Nat) (p : Place) (cs : List Char) :
    (p.down lines).after cs = (p.after cs).down lines := by
  induction cs generalizing p with
  | nil => rfl
  | cons c cs ih => rw [after_cons, after_cons, step_down, ih]

theorem line_after (p : Place) (cs : List Char) :
    (p.after cs).line = p.line + cs.count '\n' := by
  induction cs generalizing p with
  | nil => rfl
  | cons c cs ih =>
    rw [after_cons, ih, step, List.count_cons]
    by_cases hc : c = '\n'
    · simp [hc, Nat.add_assoc, Nat.add_comm 1]
    · simp [hc]

/-- The place so many lines above. What stands on one of these lines itself stays there. -/
def up (lines : Nat) (p : Place) : Place :=
  if p.line ≤ lines then p else ⟨p.line - lines, p.column⟩

theorem up_of_le {lines : Nat} {p : Place} (h : p.line ≤ lines) : p.up lines = p := if_pos h

theorem up_down {lines : Nat} {p : Place} (h : 1 ≤ p.line) : (p.down lines).up lines = p := by
  have hlow : ¬ (p.down lines).line ≤ lines := by
    simp only [down]
    omega
  unfold up
  rw [if_neg hlow]
  simp [down]

end Place

/-! ## The line end -/

namespace Lexeme

variable {p : Char → Bool}

theorem takeWhile_line_end (hp : p '\n' = false) (cs more : List Char) :
    (cs ++ '\n' :: more).takeWhile p = cs.takeWhile p ∧
      (cs ++ '\n' :: more).dropWhile p = cs.dropWhile p ++ '\n' :: more := by
  induction cs with
  | nil => simp [hp]
  | cons c cs ih =>
    obtain ⟨htake, hdrop⟩ := ih
    by_cases hc : p c = true
    · simp [hc, htake, hdrop]
    · simp [hc]

/-- More text behind what is split off. -/
def behind (more : List Char) (split : List Char × List Char) : List Char × List Char :=
  (split.1, split.2 ++ '\n' :: more)

theorem splitDigits_line_end (r : Radix) (cs more : List Char) :
    splitDigits r (cs ++ '\n' :: more) = (splitDigits r cs).map (behind more) := by
  obtain ⟨htake, hdrop⟩ := takeWhile_line_end (isDigit_of_isBlank r rfl) cs more
  unfold splitDigits
  rw [htake, hdrop]
  split <;> rfl

theorem splitUnsigned_line_end (cs more : List Char) :
    splitUnsigned (cs ++ '\n' :: more) = (splitUnsigned cs).map (behind more) := by
  have hdecimal := splitDigits_line_end .decimal cs more
  by_cases hzero : ∃ letter rest, cs = '0' :: letter :: rest
  · obtain ⟨letter, rest, rfl⟩ := hzero
    rw [List.cons_append, List.cons_append] at hdecimal ⊢
    rw [splitUnsigned_zero, splitUnsigned_zero, hdecimal]
    cases Radix.ofLetter? letter with
    | none => rfl
    | some r =>
      simp only [Option.bind_some, splitDigits_line_end]
      cases splitDigits r rest <;> rfl
  · have hmark : Unmarked cs := fun letter rest h => absurd ⟨letter, rest, h⟩ hzero
    have hmark' : Unmarked (cs ++ '\n' :: more) := by
      intro letter rest h
      match cs with
      | [] => cases h
      | [_] =>
        cases h
        rfl
      | c :: next :: rest' =>
        obtain ⟨hc, -⟩ := List.cons.inj h
        exact absurd ⟨next, rest', by rw [hc]⟩ hzero
    rw [splitUnsigned_of_unmarked hmark, splitUnsigned_of_unmarked hmark', hdecimal]

theorem splitNumber_line_end (c : Char) (cs more : List Char) :
    splitNumber (c :: cs ++ '\n' :: more) = (splitNumber (c :: cs)).map (behind more) := by
  by_cases hminus : c = '-'
  · subst c
    simp only [List.cons_append, splitNumber, splitUnsigned_line_end]
    cases splitUnsigned cs <;> rfl
  · rw [List.cons_append, splitNumber_of_ne hminus, splitNumber_of_ne hminus]
    exact splitUnsigned_line_end (c :: cs) more

/-- What is left when neither case of a backslash applies. -/
theorem no_backslash {c : Char} {cs : List Char} (hend : c = '\\' → cs = [] → False)
    (hescape : ∀ next rest, c = '\\' → cs = next :: rest → False) : c ≠ '\\' := by
  rintro rfl
  cases cs with
  | nil => exact hend rfl rfl
  | cons next rest => exact hescape next rest rfl rfl

/-- A string that is closed does not depend on what follows. -/
theorem splitQuoted_append {quote : Char} {cs body rest : List Char}
    (h : splitQuoted quote cs = some (body, rest)) (more : List Char) :
    splitQuoted quote (cs ++ more) = some (body, rest ++ more) := by
  fun_induction splitQuoted quote cs generalizing body with
  | case1 | case2 => cases h
  | case3 c cs ih =>
    obtain ⟨⟨body', rest'⟩, hbody, heq⟩ := Option.map_eq_some_iff.1 h
    cases heq
    rw [List.cons_append, List.cons_append, splitQuoted_escaped, ih hbody]
    rfl
  | case4 cs hend hescape =>
    cases h
    exact splitQuoted_closing (no_backslash hend hescape) _
  | case5 c cs hend hescape hquote ih =>
    obtain ⟨⟨body', rest'⟩, hbody, heq⟩ := Option.map_eq_some_iff.1 h
    cases heq
    rw [List.cons_append, splitQuoted_cons (no_backslash hend hescape) hquote, ih hbody]
    rfl

theorem first?_line_end {cs : List Char} {l : Lexeme} (h : first? cs = some l)
    (more : List Char) :
    first? (cs ++ '\n' :: more) = some ⟨l.kind, l.chars, l.rest ++ '\n' :: more⟩ := by
  cases cs with
  | nil => cases h
  | cons c cs =>
    rw [List.cons_append]
    unfold first? at h ⊢
    dsimp only at h ⊢
    split at h
    · rename_i hsymbol
      cases h
      rw [if_pos hsymbol]
    · rename_i hsymbol
      rw [if_neg hsymbol]
      split at h
      · rename_i hstart
        cases h
        obtain ⟨htake, hdrop⟩ := takeWhile_line_end (isIdentChar_of_isBlank rfl) cs more
        rw [if_pos hstart, htake, hdrop]
      · rename_i hstart
        rw [if_neg hstart]
        split at h
        · rename_i hquote
          obtain ⟨⟨body, rest⟩, hbody, rfl⟩ := Option.map_eq_some_iff.1 h
          rw [if_pos hquote, splitQuoted_append hbody]
          rfl
        · rename_i hquote
          obtain ⟨⟨number, rest⟩, hnumber, rfl⟩ := Option.map_eq_some_iff.1 h
          rw [if_neg hquote, ← List.cons_append, splitNumber_line_end, hnumber]
          rfl

end Lexeme

/-! ## Spots -/

namespace Spot

theorem skip_line_end_of_ne_nil {inComment : Bool} {p : Place} {cs : List Char}
    (h : (skip inComment p cs).rest ≠ []) (more : List Char) :
    skip inComment p (cs ++ '\n' :: more) =
      ⟨(skip inComment p cs).place, (skip inComment p cs).rest ++ '\n' :: more⟩ := by
  induction cs generalizing inComment p with
  | nil => exact absurd rfl h
  | cons c cs ih =>
    rw [List.cons_append]
    unfold skip at h ⊢
    split
    · rename_i hcomment
      rw [if_pos hcomment] at h
      exact ih h
    · rename_i hcomment
      rw [if_neg hcomment] at h
      split
      · rename_i hspace
        rw [if_pos hspace] at h
        exact ih h
      · rename_i hspace
        rw [if_neg hspace] at h
        split
        · rename_i hhash
          rw [if_pos hhash] at h
          exact ih h
        · rfl

/-- A comment ends with its line. -/
theorem skip_line_end_of_nil {inComment : Bool} {p : Place} {cs : List Char}
    (h : (skip inComment p cs).rest = []) (more : List Char) :
    skip inComment p (cs ++ '\n' :: more) = skip false ((p.after cs).step '\n') more := by
  induction cs generalizing inComment p with
  | nil => cases inComment <;> rfl
  | cons c cs ih =>
    rw [List.cons_append, Place.after_cons]
    unfold skip at h
    rw [skip]
    split at h
    · rename_i hcomment
      rw [if_pos hcomment]
      exact ih h
    · rename_i hcomment
      rw [if_neg hcomment]
      split at h
      · rename_i hspace
        rw [if_pos hspace]
        exact ih h
      · rename_i hspace
        rw [if_neg hspace]
        split at h
        · rename_i hhash
          rw [if_pos hhash]
          exact ih h
        · cases h

theorem skip_down (lines : Nat) (inComment : Bool) (p : Place) (cs : List Char) :
    skip inComment (p.down lines) cs =
      ⟨(skip inComment p cs).place.down lines, (skip inComment p cs).rest⟩ := by
  induction cs generalizing inComment p with
  | nil => rfl
  | cons c cs ih =>
    unfold skip
    rw [Place.step_down]
    split
    · exact ih _ _
    · split
      · exact ih _ _
      · split
        · exact ih _ _
        · rfl

variable {source : String} {s : Spot}

theorem place_skipTrivia (s : Spot) : s.place.line ≤ s.skipTrivia.place.line ∧
    s.place.after s.rest = s.skipTrivia.place.after s.skipTrivia.rest := by
  obtain ⟨skipped, hsplit, hplace⟩ := skip_split false s.place s.rest
  have hline := Place.line_after s.place skipped
  unfold skipTrivia
  rw [hplace, hline, ← Place.after_append, ← hsplit]
  exact ⟨Nat.le_add_right _ _, rfl⟩

/-- Reading a token goes on behind it. -/
theorem places_of_token {t : Token} {after : Spot} (h : s.next source = .token t after) :
    s.place.line ≤ t.position.place.line ∧ t.position.place.line ≤ after.place.line ∧
      s.place.after s.rest = after.place.after after.rest := by
  obtain ⟨hline, hsame⟩ := s.place_skipTrivia
  obtain ⟨l, hl, rfl, rfl⟩ := exists_lexeme_of_token h
  have hchars := (Lexeme.first?_split hl).1
  rw [hsame, ← hchars, Place.after_append, Token.ofChars_position]
  refine ⟨hline, ?_, rfl⟩
  rw [Place.line_after]
  exact Nat.le_add_right _ _

/-- Where reading stops it has not gone beyond the end of the text. -/
theorem place_of_stop {q : Spot}
    (h : s.next source = .finish q ∨ ∃ c, s.next source = .unexpected c q) :
    s.place.line ≤ q.place.line ∧ q.place.line ≤ (s.place.after s.rest).line := by
  obtain ⟨hline, hsame⟩ := s.place_skipTrivia
  rw [eq_skipTrivia_of_stop h, hsame, Place.line_after]
  exact ⟨hline, Nat.le_add_right _ _⟩

theorem next_line_end_of_token {t : Token} {after : Spot} (h : s.next source = .token t after)
    (more : List Char) :
    next source ⟨s.place, s.rest ++ '\n' :: more⟩ =
      .token t ⟨after.place, after.rest ++ '\n' :: more⟩ := by
  have hskip : (skip false s.place s.rest).rest ≠ [] → ∀ more, _ := skip_line_end_of_ne_nil
  unfold next skipTrivia first at h ⊢
  generalize skip false s.place s.rest = q at h hskip
  obtain ⟨place, rest⟩ := q
  cases rest with
  | nil => cases h
  | cons c rest =>
    dsimp only at h hskip ⊢
    rw [hskip (List.cons_ne_nil _ _)]
    split at h
    · rename_i l hl
      cases h
      dsimp only [List.cons_append]
      rw [← List.cons_append, Lexeme.first?_line_end hl]
    · cases h

theorem next_line_end_of_finish {q : Spot} (h : s.next source = .finish q) (more : List Char) :
    next source ⟨s.place, s.rest ++ '\n' :: more⟩ =
      next source ⟨(s.place.after s.rest).step '\n', more⟩ := by
  unfold next skipTrivia at h ⊢
  rw [skip_line_end_of_nil]
  unfold first at h
  split at h
  · assumption
  · split at h <;> cases h

/-- The same spot in a text with more lines above. -/
def down (lines : Nat) (s : Spot) : Spot := ⟨s.place.down lines, s.rest⟩

def Next.down (lines : Nat) : Next → Next
  | token t after => token (t.relocate (Place.down lines)) (after.down lines)
  | finish spot => finish (spot.down lines)
  | unexpected c spot => unexpected c (spot.down lines)

theorem next_down (lines : Nat) (source : String) (s : Spot) :
    (s.down lines).next source = (s.next source).down lines := by
  unfold next skipTrivia Spot.down first
  rw [skip_down]
  generalize skip false s.place s.rest = q
  obtain ⟨place, rest⟩ := q
  cases rest with
  | nil => rfl
  | cons c rest =>
    dsimp only
    cases Lexeme.first? (c :: rest) with
    | none => rfl
    | some l =>
      dsimp only [Next.down, Spot.down]
      rw [Place.after_down]
      unfold Token.ofChars
      split <;> rfl

end Spot

namespace TokenStream

variable {source : String} {spot : Spot}

/-- Behind a text that can be read to its end, and the end of its last line, reading goes on. -/
theorem ofSpot_line_end {p : Position} (h : (ofSpot source spot).stop = .finished p)
    (more : List Char) :
    ofSpot source ⟨spot.place, spot.rest ++ '\n' :: more⟩ =
      (ofSpot source ⟨(spot.place.after spot.rest).step '\n', more⟩).prepend
        (ofSpot source spot).tokens := by
  fun_induction ofSpot source spot with
  | case1 spot t after hnext ih =>
    obtain ⟨-, -, hplace⟩ := Spot.places_of_token hnext
    rw [ofSpot_of_token (Spot.next_line_end_of_token hnext more), ih h, hplace]
    rfl
  | case2 spot q hnext => exact ofSpot_of_next (Spot.next_line_end_of_finish hnext more)
  | case3 => cases h

theorem ofSpot_down (lines : Nat) :
    ofSpot source (spot.down lines) = (ofSpot source spot).relocate (Place.down lines) := by
  have hdown := fun s => Spot.next_down lines source s
  fun_induction ofSpot source spot with
  | case1 spot t after hnext ih =>
    have hmoved := hdown spot
    rw [hnext] at hmoved
    rw [ofSpot_of_token hmoved, ih]
    rfl
  | case2 spot q hnext =>
    have hmoved := hdown spot
    rw [hnext] at hmoved
    exact ofSpot_of_finish hmoved
  | case3 spot c q hnext =>
    have hmoved := hdown spot
    rw [hnext] at hmoved
    exact ofSpot_of_unexpected hmoved

/-- The tokens of two texts with a line end between them are those of the first one and then those
of the second one, as many lines further down. -/
theorem ofText_join {source text : String} {p : Position}
    (h : (ofText source text).stop = .finished p) (behind : String) :
    ofText source (text ++ "\n" ++ behind) =
      ((ofText source behind).relocate (Place.down (text.toList.count '\n' + 1))).prepend
        (ofText source text).tokens := by
  have hchars : (text ++ "\n" ++ behind).toList = text.toList ++ '\n' :: behind.toList := by simp
  have hplace : (Place.start.after text.toList).step '\n' =
      Place.start.down (text.toList.count '\n' + 1) := by
    simp only [Place.step, Place.line_after, Place.down, Place.start, if_true]
    rw [Nat.add_assoc]
  have hjoined := ofSpot_line_end h behind.toList
  unfold ofText
  rw [hchars, hjoined, hplace, ← ofSpot_down]
  rfl

/-- The tokens of a text stand on its lines. -/
theorem ofSpot_relocate_eq {f : Place → Place}
    (hf : ∀ p : Place, spot.place.line ≤ p.line →
      p.line ≤ (spot.place.after spot.rest).line → f p = p) :
    (ofSpot source spot).relocate f = ofSpot source spot := by
  fun_induction ofSpot source spot with
  | case1 spot t after hnext ih =>
    obtain ⟨hlow, hhigh, hsame⟩ := Spot.places_of_token hnext
    rw [hsame, Place.line_after] at hf
    rw [Place.line_after] at ih
    have hrest := ih fun p hp => hf p (by omega)
    have ht : t.relocate f = t := by
      simp only [Token.relocate, Position.reprint, id, hf t.position.place hlow (by omega)]
    have hcons : ((ofSpot source after).cons t).relocate f =
        ((ofSpot source after).relocate f).cons (t.relocate f) := rfl
    rw [hcons, hrest, ht]
  | case2 spot q hnext =>
    obtain ⟨hlow, hhigh⟩ := Spot.place_of_stop (.inl hnext)
    simp [relocate, Stop.reprint, Position.reprint, hf q.place hlow hhigh]
  | case3 spot c q hnext =>
    obtain ⟨hlow, hhigh⟩ := Spot.place_of_stop (.inr ⟨c, hnext⟩)
    simp [relocate, Stop.reprint, Position.reprint, hf q.place hlow hhigh]

theorem relocate_relocate (f g : Place → Place) (s : TokenStream) :
    (s.relocate f).relocate g = s.relocate (g ∘ f) := by
  obtain ⟨tokens, stop⟩ := s
  cases stop <;> simp [relocate, Token.relocate, Position.reprint, Stop.reprint,
    Function.comp_def]

variable {text : String}

theorem ofText_relocate_up (lines : Nat) (h : text.toList.count '\n' + 1 ≤ lines) :
    (ofText source text).relocate (Place.up lines) = ofText source text := by
  refine ofSpot_relocate_eq fun p _ hp => Place.up_of_le ?_
  rw [Place.line_after] at hp
  simp only [Place.start] at hp
  omega

theorem ofText_down_up (lines : Nat) :
    ((ofText source text).relocate (Place.down lines)).relocate (Place.up lines) =
      ofText source text := by
  rw [relocate_relocate]
  exact ofSpot_relocate_eq fun p hp _ => Place.up_down hp

theorem ofText_down_relocate (lines : Nat) :
    ((ofText source text).relocate (Place.down lines)).relocate
        (Place.down lines ∘ Place.up lines) =
      (ofText source text).relocate (Place.down lines) := by
  rw [← relocate_relocate, ofText_down_up]

end TokenStream

end PacketSchema
