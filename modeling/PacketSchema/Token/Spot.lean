import PacketSchema.Token.Lexeme

/-! Reading the next token. White space and comments before it are passed over, and the place moves
along with every character that is passed. -/

namespace PacketSchema

/-- A place in a text and the text from there on. -/
structure Spot where
  place : Place
  rest : List Char
deriving DecidableEq, Repr

namespace Spot

def isSpace (c : Char) : Bool := [' ', '\t', '\r', '\n'].contains c

/-- The first spot that is neither white space nor inside a comment. A comment runs from a number
sign to the end of its line. -/
def skip (inComment : Bool) (place : Place) : List Char → Spot
  | [] => ⟨place, []⟩
  | c :: rest =>
    if inComment then skip (c != '\n') (place.step c) rest
    else if isSpace c then skip false (place.step c) rest
    else if c = '#' then skip true (place.step c) rest
    else ⟨place, c :: rest⟩

def skipTrivia (s : Spot) : Spot := skip false s.place s.rest

/-- What stands next at a spot: a token, the end of the text, or a character that starts no
token. -/
inductive Next where
  | token (token : Token) (after : Spot)
  | finish (spot : Spot)
  | unexpected (c : Char) (spot : Spot)
deriving DecidableEq, Repr

/-- What starts right at a spot that is behind all white space and comments. -/
def first (source : String) (s : Spot) : Next :=
  match s.rest with
  | [] => .finish s
  | c :: _ =>
    match Lexeme.first? s.rest with
    | some l =>
      .token (.ofChars l.kind l.chars ⟨source, s.place⟩) ⟨s.place.after l.chars, l.rest⟩
    | none => .unexpected c s

def next (source : String) (s : Spot) : Next := s.skipTrivia.first source

theorem skip_split (inComment : Bool) (place : Place) (cs : List Char) :
    ∃ skipped, cs = skipped ++ (skip inComment place cs).rest ∧
      (skip inComment place cs).place = place.after skipped := by
  induction cs generalizing inComment place with
  | nil => exact ⟨[], rfl, rfl⟩
  | cons c cs ih =>
    have step : ∀ b, ∃ skipped, c :: cs = skipped ++ (skip b (place.step c) cs).rest ∧
        (skip b (place.step c) cs).place = place.after skipped := by
      intro b
      obtain ⟨skipped, hs, hp⟩ := ih b (place.step c)
      exact ⟨c :: skipped, congrArg (c :: ·) hs, hp⟩
    unfold skip
    split
    · exact step _
    · split
      · exact step _
      · split
        · exact step _
        · exact ⟨[], rfl, rfl⟩

theorem skipTrivia_length_le (s : Spot) : s.skipTrivia.rest.length ≤ s.rest.length := by
  obtain ⟨skipped, hs, _⟩ := skip_split false s.place s.rest
  rw [hs, List.length_append]
  exact Nat.le_add_left _ _

/-- A token is the first lexeme behind white space and comments. -/
theorem exists_lexeme_of_token {source : String} {s after : Spot} {t : Token}
    (h : s.next source = .token t after) :
    ∃ l, Lexeme.first? s.skipTrivia.rest = some l ∧
      t = .ofChars l.kind l.chars ⟨source, s.skipTrivia.place⟩ ∧
      after = ⟨s.skipTrivia.place.after l.chars, l.rest⟩ := by
  unfold next first at h
  split at h
  · nomatch h
  · split at h
    · rename_i l hl
      cases h
      exact ⟨l, hl, rfl, rfl⟩
    · nomatch h

/-- At the end of the text and at a character that starts no token, only white space and comments
are passed over. -/
theorem eq_skipTrivia_of_stop {source : String} {s q : Spot}
    (h : s.next source = .finish q ∨ ∃ c, s.next source = .unexpected c q) : q = s.skipTrivia := by
  unfold next first at h
  split at h
  · obtain h | ⟨_, h⟩ := h <;> cases h
    rfl
  · split at h <;> obtain h | ⟨_, h⟩ := h <;> cases h
    rfl

theorem next_token_length_lt {source : String} {s after : Spot} {t : Token}
    (h : s.next source = .token t after) : after.rest.length < s.rest.length := by
  obtain ⟨l, hl, -, rfl⟩ := exists_lexeme_of_token h
  obtain ⟨happ, hne⟩ := Lexeme.first?_split hl
  have hlen := congrArg List.length happ
  have hpos := List.length_pos_iff.2 hne
  have hle := s.skipTrivia_length_le
  rw [List.length_append] at hlen
  dsimp only
  omega

end Spot

end PacketSchema
