import PacketSchema.Proofs.Token.Calls
import PacketSchema.Proofs.Token.Rewording

/-! Where tokens stand. However a cursor is moved, its line and column are those of the characters
in front of it counted afresh, and what is in front of it is cut into the tokens that have been
found and white space and comments between them. -/

namespace PacketSchema

/-! ## Lines and columns -/

namespace Place

/-- The place behind a text that starts at the first line and column. -/
def behind (before : List Char) : Place :=
  ⟨1 + before.count '\n', 1 + (before.rtakeWhile (· != '\n')).length⟩

/-- Over a piece of a text, be it of one line or of several ones, the line goes on with every line
feed, and the column starts again behind the last one. -/
theorem after_eq (p : Place) (piece : List Char) :
    p.after piece = ⟨p.line + piece.count '\n',
      if '\n' ∈ piece then 1 + (piece.rtakeWhile (· != '\n')).length
      else p.column + piece.length⟩ := by
  induction piece using List.reverseRecOn with
  | nil => rfl
  | append_singleton piece c ih =>
    rw [after_append, ih, after_cons, after_nil, step]
    by_cases hc : c = '\n'
    · subst hc
      simp [List.count_append, Nat.add_assoc]
    · have hmem : '\n' ∈ piece ++ [c] ↔ '\n' ∈ piece := by simp [Ne.symm hc]
      simp only [if_neg hc, hmem]
      split_ifs <;> simp [List.count_append, hc, Nat.add_assoc]

theorem start_after (before : List Char) : start.after before = behind before := by
  rw [after_eq, behind, start]
  split_ifs with h
  · rfl
  · have hall : before.rtakeWhile (· != '\n') = before :=
      List.rtakeWhile_eq_self_iff.2 fun c hc => bne_iff_ne.2 fun heq => h (heq ▸ hc)
    rw [hall]

theorem behind_append (before piece : List Char) :
    behind (before ++ piece) = (behind before).after piece := by
  rw [← start_after, ← start_after, after_append]

/-- Neither the line nor the column outgrows the bytes of the text. -/
theorem behind_le (before : List Char) :
    (behind before).line + (behind before).column ≤ (String.ofList before).utf8ByteSize + 2 := by
  have hbytes : before.length ≤ (String.ofList before).utf8ByteSize := by
    induction before with
    | nil => exact Nat.zero_le _
    | cons c before ih =>
      have hc : 1 ≤ c.utf8Size := c.utf8Size_pos
      simp
      omega
  have hsplit : before.rdropWhile (· != '\n') ++ before.rtakeWhile (· != '\n') = before :=
    List.rdropWhile_append_rtakeWhile
  have hlast : (before.rtakeWhile (· != '\n')).count '\n' = 0 := by
    refine List.count_eq_zero.2 fun hmem => ?_
    simpa using List.mem_rtakeWhile_imp hmem
  have hcount := congrArg (List.count '\n') hsplit
  have hlength := congrArg List.length hsplit
  have hlines : (before.rdropWhile (· != '\n')).count '\n' ≤
    (before.rdropWhile (· != '\n')).length := List.count_le_length
  simp only [List.count_append, List.length_append] at hcount hlength
  simp only [behind]
  omega
end Place

/-! ## White space and comments -/

/-- White space and comments in front of the rest of a text. A comment reaches to the end of its
line. -/
inductive Trivia (rest : List Char) : List Char → Prop
  | nil : Trivia rest []
  | space {c : Char} {gap : List Char} (hc : c ∈ [' ', '\t', '\r', '\n']) (h : Trivia rest gap) :
      Trivia rest (c :: gap)
  | comment {line gap : List Char} (hline : '\n' ∉ line)
      (hend : ∀ c ∈ (gap ++ rest).head?, c = '\n') (h : Trivia rest gap) :
      Trivia rest ('#' :: (line ++ gap))

namespace Spot

/-- The rest of a line, as a comment takes it. -/
theorem exists_line (cs : List Char) :
    ∃ line tail, cs = line ++ tail ∧ '\n' ∉ line ∧ ∀ c ∈ tail.head?, c = '\n' := by
  refine ⟨cs.takeWhile (· != '\n'), cs.dropWhile (· != '\n'),
    List.takeWhile_append_dropWhile.symm, fun hmem => ?_, fun c hc => ?_⟩
  · simpa using List.mem_takeWhile_imp hmem
  · have hhead := List.head?_dropWhile_not (· != '\n') cs
    rw [hc] at hhead
    simpa using hhead

theorem skip_trivia (p : Place) (cs : List Char) :
    ∃ gap, cs = gap ++ (skip false p cs).rest ∧ Trivia (skip false p cs).rest gap := by
  induction hn : cs.length using Nat.strongRecOn generalizing p cs with
  | ind n ih =>
    cases cs with
    | nil => exact ⟨[], rfl, .nil⟩
    | cons c cs =>
      by_cases hspace : isSpace c = true
      · obtain ⟨gap, hgap, htrivia⟩ := ih cs.length (by simp at hn; omega) (p.step c) cs rfl
        rw [skip_of_isSpace hspace]
        exact ⟨c :: gap, congrArg (c :: ·) hgap, .space (List.contains_iff_mem.1 hspace) htrivia⟩
      · by_cases hhash : c = '#'
        · subst hhash
          obtain ⟨line, tail, rfl, hline, hend⟩ := exists_line cs
          -- Behind the comment it goes on as if there were none.
          obtain ⟨q, hq⟩ := skip_comment hline hend (p.step '#')
          have hskip : skip false p ('#' :: (line ++ tail)) = skip false q tail := hq
          obtain ⟨gap, hgap, htrivia⟩ := ih tail.length (by simp at hn; omega) q tail rfl
          rw [hskip]
          refine ⟨'#' :: (line ++ gap), ?_, .comment hline (hgap ▸ hend) htrivia⟩
          rw [List.cons_append, List.append_assoc, ← hgap]
        · have hskip : skip false p (c :: cs) = ⟨p, c :: cs⟩ := by simp [skip, hspace, hhash]
          rw [hskip]
          exact ⟨[], rfl, .nil⟩

theorem exists_gap (s : Spot) : ∃ gap, s.rest = gap ++ s.skipTrivia.rest ∧
    s.skipTrivia.place = s.place.after gap ∧ Trivia s.skipTrivia.rest gap := by
  obtain ⟨gap, hgap, htrivia⟩ := skip_trivia s.place s.rest
  obtain ⟨skipped, hskipped, hplace⟩ := skip_split false s.place s.rest
  have hsame : gap = skipped := List.append_cancel_right (hgap.symm.trans hskipped)
  exact ⟨gap, hgap, hsame ▸ hplace, htrivia⟩

end Spot

/-! ## Tokens in a text -/

/-- A token has the characters of a text as they are written there or, where case does not matter,
in lower case. -/
def Token.Spells (t : Token) (chars : List Char) : Prop :=
  t.text = .ofList (if t.isLiteral then chars else chars.map Char.toLower)

theorem Token.ofChars_spells (kind : TokenKind) (chars : List Char) (p : Position) :
    (ofChars kind chars p).Spells chars := by
  cases hliteral : kind.isLiteral with
  | true => simp [ofChars, Spells, isLiteral, hliteral]
  | false =>
    have hkeyword : TokenKind.keyword.isLiteral = false := rfl
    by_cases hreserved : String.ofList (chars.map Char.toLower) ∈ keywords <;>
      simp [ofChars, Spells, isLiteral, hliteral, hkeyword, hreserved]

/-- What is in front of a spot, cut into tokens. They follow each other in order, each is a piece of
the text of its own that is not empty, and between them is nothing but white space and comments. -/
inductive Cut (source : String) : (before rest : List Char) → List Token → Prop
  | start {rest : List Char} : Cut source [] rest []
  | trivia {before gap rest : List Char} {ts : List Token} (h : Cut source before (gap ++ rest) ts)
      (hgap : Trivia rest gap) : Cut source (before ++ gap) rest ts
  | token {before chars rest : List Char} {ts : List Token} {t : Token}
      (h : Cut source before (chars ++ rest) ts) (hne : chars ≠ [])
      (hposition : t.position = ⟨source, .behind before⟩) (hspells : t.Spells chars) :
      Cut source (before ++ chars) rest (ts ++ [t])

/-- A spot in a text, with the tokens in front of it. -/
structure Spot.Behind (source : String) (text : List Char) (ts : List Token) (s : Spot) : Prop where
  exists_before : ∃ before, text = before ++ s.rest ∧ s.place = .behind before ∧
    Cut source before s.rest ts

namespace Spot.Behind

variable {source : String} {text : List Char} {ts : List Token} {s q : Spot}

theorem skipTrivia (h : s.Behind source text ts) : s.skipTrivia.Behind source text ts := by
  obtain ⟨before, rfl, hplace, hcut⟩ := h.exists_before
  obtain ⟨gap, hgap, hafter, htrivia⟩ := s.exists_gap
  refine ⟨before ++ gap, ?_, ?_, .trivia (hgap ▸ hcut) htrivia⟩
  · rw [List.append_assoc, ← hgap]
  · rw [hafter, hplace, Place.behind_append]

theorem stop (h : s.Behind source text ts)
    (hnext : s.next source = .finish q ∨ ∃ c, s.next source = .unexpected c q) :
    q.Behind source text ts :=
  Spot.eq_skipTrivia_of_stop hnext ▸ h.skipTrivia

theorem token (h : s.Behind source text ts) {t : Token} (hnext : s.next source = .token t q) :
    q.Behind source text (ts ++ [t]) := by
  obtain ⟨before, rfl, hplace, hcut⟩ := h.skipTrivia.exists_before
  obtain ⟨l, hl, rfl, rfl⟩ := Spot.exists_lexeme_of_token hnext
  obtain ⟨hchars, hne⟩ := Lexeme.first?_split hl
  refine ⟨before ++ l.chars, ?_, ?_, .token ?_ hne ?_ (Token.ofChars_spells ..)⟩
  · rw [List.append_assoc, hchars]
  · rw [Place.behind_append, ← hplace]
  · rw [hchars]
    exact hcut
  · rw [Token.ofChars_position, hplace]

end Spot.Behind

/-! ## Calls in a row -/

namespace Cursor

theorem Looks.same_text {c c' : Cursor} {r : Except SchemaError (Option Token)}
    (h : c.Looks r c') : c'.source = c.source ∧ c'.text = c.text := by
  cases h <;> exact ⟨rfl, rfl⟩

/-- How many bytes of the text have been looked at. -/
def offset (c : Cursor) : Nat :=
  (String.ofList c.text).utf8ByteSize - (String.ofList c.spot.rest).utf8ByteSize

/-- The token that is found by looking for the current one, if there was none. -/
def finds (c : Cursor) : List Token :=
  match c.current, (peek.run c).1 with
  | none, .ok (some t) => [t]
  | _, _ => []

/-- What a cursor has looked at is cut into these tokens, of which the current one is the last. -/
structure Stands (c : Cursor) (ts : List Token) : Prop where
  behind : c.spot.Behind c.source c.text ts
  last : ∀ t, c.current = some t → ts.getLast? = some t

namespace Stands

variable {c c' : Cursor} {ts : List Token}

theorem restart (c : Cursor) : c.restart.Stands [] := by
  refine ⟨⟨[], rfl, rfl, .start⟩, fun t ht => ?_⟩
  cases ht

theorem looks (h : c.Stands ts) {r : Except SchemaError (Option Token)} (hlook : c.Looks r c') :
    c'.Stands (ts ++ c.finds) := by
  have hrun := hlook.run_eq
  cases hlook with
  | held hcurrent => simpa [finds, hcurrent] using h
  | @found t after hcurrent hnext =>
    have hfinds : c.finds = [t] := by simp [finds, hcurrent, hrun]
    rw [hfinds]
    refine ⟨h.behind.token hnext, fun u hu => ?_⟩
    cases hu
    simp
  | finish hcurrent hnext =>
    have hfinds : c.finds = [] := by simp [finds, hcurrent, hrun]
    rw [hfinds, List.append_nil]
    exact ⟨h.behind.stop (.inl hnext), h.last⟩
  | unexpected hcurrent hnext =>
    have hfinds : c.finds = [] := by simp [finds, hcurrent, hrun]
    rw [hfinds, List.append_nil]
    exact ⟨h.behind.stop (.inr ⟨_, hnext⟩), h.last⟩

theorem dropped (h : c.Stands ts) : c.dropped.Stands ts := by
  refine ⟨h.behind, fun t ht => ?_⟩
  cases ht

end Stands

end Cursor

open Cursor

/-- A cursor that has been called for a while. -/
structure Progress where
  cursor : Cursor
  /-- The tokens that have been found since the last restart. -/
  tokens : List Token := []
  /-- Whether an iteration has failed since the last restart. -/
  failed : Bool := false

namespace Progress

/-- One more call. -/
def call (k : Progress) (x : Call) : Progress :=
  if x = .restart then { cursor := (k.cursor.perform x).2 }
  else
    { cursor := (k.cursor.perform x).2
      tokens := k.tokens ++ k.cursor.finds
      failed := k.failed || (x == .next && !(k.cursor.perform x).1.isOk) }

/-- Calls in a row from the start of a text. -/
def ofCalls (source text : String) (calls : List Call) : Progress :=
  calls.foldl call { cursor := .ofText source text }

/-- What is kept while calls are made on the cursor of a text. -/
structure Sound (source text : String) (k : Progress) : Prop where
  source : k.cursor.source = source
  text : k.cursor.text = text.toList
  stands : k.failed = false → k.cursor.Stands k.tokens

variable {source text : String} {k : Progress}

theorem Sound.start (source text : String) :
    Sound source text { cursor := .ofText source text } :=
  ⟨rfl, rfl, fun _ => .restart (.ofText source text)⟩

section

variable {x : Call} {c' : Cursor}

theorem call_of_sees {current : Option Token} (h : k.cursor.Looks (.ok current) c')
    (hx : x ≠ .restart) :
    k.call x =
      { cursor := if current.any x.consumes then c'.dropped else c'
        tokens := k.tokens ++ k.cursor.finds
        failed := k.failed } := by
  have hok : (x == .next && !(x.answer current c'.front).isOk) = false := by
    by_cases hnext : x = .next
    · simp [hnext, Call.answer, Except.isOk, Except.toBool]
    · simp [hnext]
  rw [call, if_neg hx, perform_of_sees h hx]
  simp only [hok, Bool.or_false]

theorem call_of_fails {e : SchemaError} (h : k.cursor.Looks (.error e) c') (hx : x ≠ .restart) :
    k.call x =
      { cursor := if x = .next then c'.closed else c'
        tokens := k.tokens ++ k.cursor.finds
        failed := k.failed || x == .next } := by
  rw [call, if_neg hx, perform_of_fails h hx]
  simp [Except.isOk, Except.toBool]

end

theorem Sound.call (h : k.Sound source text) (x : Call) : (k.call x).Sound source text := by
  by_cases hx : x = .restart
  · subst hx
    exact ⟨h.source, h.text, fun _ => .restart k.cursor⟩
  obtain ⟨e | current, c', hlook⟩ := k.cursor.exists_looks
  all_goals
    obtain ⟨hsource, htext⟩ := hlook.same_text
    have hstands : k.failed = false → c'.Stands (k.tokens ++ k.cursor.finds) :=
      fun hfailed => (h.stands hfailed).looks hlook
  · rw [call_of_fails hlook hx]
    by_cases hnext : x = .next
    · -- The rest of the text is lost, and with it the places.
      simp only [hnext, if_true]
      exact ⟨hsource.trans h.source, htext.trans h.text, by simp⟩
    · simp only [hnext, if_false]
      exact ⟨hsource.trans h.source, htext.trans h.text, by simpa [hnext] using hstands⟩
  · rw [call_of_sees hlook hx]
    by_cases hconsumes : current.any x.consumes = true
    · simp only [hconsumes, if_true]
      exact ⟨hsource.trans h.source, htext.trans h.text, fun hfailed => (hstands hfailed).dropped⟩
    · simp only [hconsumes]
      exact ⟨hsource.trans h.source, htext.trans h.text, hstands⟩

theorem Sound.ofCalls (source text : String) (calls : List Call) :
    (ofCalls source text calls).Sound source text := by
  have hrun : ∀ k : Progress, k.Sound source text →
      (calls.foldl Progress.call k).Sound source text := by
    induction calls with
    | nil => exact fun k h => h
    | cons x calls ih => exact fun k h => ih _ (h.call x)
  exact hrun _ (.start source text)

/-- A token that a call answers is the last one that has been found. -/
theorem Sound.getLast?_of_answer (h : k.Sound source text) (hfailed : k.failed = false) {x : Call}
    {t : Token} (hanswer : (k.cursor.perform x).1 = .ok (.token (some t))) :
    (k.call x).tokens.getLast? = some t := by
  by_cases hx : x = .restart
  · subst hx
    cases hanswer
  obtain ⟨e | current, c', hlook⟩ := k.cursor.exists_looks
  · rw [perform_of_fails hlook hx] at hanswer
    cases hanswer
  · rw [perform_of_sees hlook hx] at hanswer
    rw [call_of_sees hlook hx]
    refine ((h.stands hfailed).looks hlook).last t ?_
    rw [hlook.current_eq]
    cases x <;> simp_all [Call.answer]
    split at hanswer <;> cases hanswer

end Progress

/-- However calls are mixed, as long as no iteration has failed: what is in front of the cursor is
a piece of the text that ends between two characters, the cursor's line and column are those behind
it and never outgrow its bytes, it is cut into the tokens that have been found, and the last one of
these is what a call that answers with a token answers with. -/
theorem Progress.places {source text : String} {calls : List Call} {k : Progress}
    (hk : k = .ofCalls source text calls) (hfailed : k.failed = false) :
    ∃ before, text.toList = before ++ k.cursor.spot.rest ∧
      k.cursor.offset = (String.ofList before).utf8ByteSize ∧
      (String.Pos.Raw.mk k.cursor.offset).IsValid text ∧
      k.cursor.here = ⟨source, .behind before⟩ ∧
      (Place.behind before).line + (Place.behind before).column ≤ k.cursor.offset + 2 ∧
      Cut source before k.cursor.spot.rest k.tokens ∧
      ∀ x t, (k.cursor.perform x).1 = .ok (.token (some t)) →
        (k.call x).tokens.getLast? = some t := by
  have hsound : k.Sound source text := hk ▸ Sound.ofCalls source text calls
  obtain ⟨before, hbefore, hplace, hcut⟩ := (hsound.stands hfailed).behind.exists_before
  rw [hsound.text] at hbefore
  have htext : text = String.ofList before ++ String.ofList k.cursor.spot.rest := by
    rw [← String.ofList_append, ← hbefore, String.ofList_toList]
  have hoffset : k.cursor.offset = (String.ofList before).utf8ByteSize := by
    have hsize := congrArg String.utf8ByteSize htext
    rw [String.utf8ByteSize_append] at hsize
    rw [offset, hsound.text, String.ofList_toList]
    omega
  refine ⟨before, hbefore, hoffset, ?_, ?_, ?_, hsound.source ▸ hcut, fun x t => ?_⟩
  · exact String.Pos.Raw.isValid_iff_exists_append.2 ⟨_, _, htext, String.Pos.Raw.ext hoffset⟩
  · rw [here, hsound.source, hplace]
  · rw [hoffset]
    exact Place.behind_le before
  · exact hsound.getLast?_of_answer hfailed

/-- A comment with a letter of two bytes, a string over two lines, tokens looked at twice. -/
theorem Progress.places_of_mixed_calls :
    ∃ k : Progress, k = .ofCalls "m" "# é\nType \"a\né\" x"
        [.advance, .restart, .peek, .accept "type", .isAt "type", .next] ∧
      k.failed = false ∧ k.cursor.here = ⟨"m", ⟨3, 3⟩⟩ ∧
      k.tokens = [⟨.keyword, "type", ⟨"m", ⟨2, 1⟩⟩⟩, ⟨.string, "\"a\né\"", ⟨"m", ⟨2, 6⟩⟩⟩] ∧
      ∃ before, k.cursor.here = ⟨"m", .behind before⟩ ∧ Cut "m" before k.cursor.spot.rest k.tokens ∧
        ∀ x t, (k.cursor.perform x).1 = .ok (.token (some t)) →
          (k.call x).tokens.getLast? = some t := by
  refine ⟨_, rfl, rfl, rfl, rfl, ?_⟩
  obtain ⟨before, -, -, -, hhere, -, hcut, hanswers⟩ := Progress.places rfl
    (rfl : (Progress.ofCalls "m" "# é\nType \"a\né\" x"
      [.advance, .restart, .peek, .accept "type", .isAt "type", .next]).failed = false)
  exact ⟨before, hhere, hcut, hanswers⟩

end PacketSchema
