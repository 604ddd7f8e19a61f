import PacketSchema.Proofs.Declaration.Reprinting
import PacketSchema.Proofs.Token.Reflow

/-! Texts in other words. White space and comments stand in front of words and are no part of them,
case does not matter in a word, and a number may be written in any radix. Texts that differ in this
only have tokens of the same kinds, with the same text or the same literal. -/

namespace PacketSchema

/-! ## Tokens -/

/-- The literal that a token stands for; none for a number that is out of range. -/
def Token.literal? (t : Token) : Option Literal :=
  (Literal.ofToken t.kind t.text t.position).toOption

/-- Tokens of one kind with the same text, or literals in range with the same value. -/
structure Token.Alike (t t' : Token) : Prop where
  kind : t'.kind = t.kind
  text : t.isLiteral = false → t'.text = t.text
  literal : t.isLiteral = true → t.literal?.isSome = true ∧ t'.literal? = t.literal?

instance (t t' : Token) : Decidable (t.Alike t') :=
  decidable_of_iff (t'.kind = t.kind ∧ (t.isLiteral = false → t'.text = t.text) ∧
      (t.isLiteral = true → t.literal?.isSome = true ∧ t'.literal? = t.literal?))
    ⟨fun ⟨hkind, htext, hliteral⟩ => ⟨hkind, htext, hliteral⟩,
      fun h => ⟨h.kind, h.text, h.literal⟩⟩

/-- Two texts that can be read to their ends, with as many tokens, each like its counterpart. -/
structure TokenStream.Alike (s s' : TokenStream) : Prop where
  finished : s.stop.error? = none
  finished' : s'.stop.error? = none
  tokens : List.Forall₂ Token.Alike s.tokens s'.tokens

instance (s s' : TokenStream) : Decidable (s.Alike s') :=
  decidable_of_iff (s.stop.error? = none ∧ s'.stop.error? = none ∧
      List.Forall₂ Token.Alike s.tokens s'.tokens)
    ⟨fun ⟨hs, hs', htokens⟩ => ⟨hs, hs', htokens⟩, fun h => ⟨h.finished, h.finished', h.tokens⟩⟩

theorem Token.Alike.symm {t t' : Token} (h : t.Alike t') : t'.Alike t := by
  have hliteral : t'.isLiteral = t.isLiteral := congrArg TokenKind.isLiteral h.kind
  refine ⟨h.kind.symm, fun hn => (h.text (hliteral ▸ hn)).symm, fun hl => ?_⟩
  obtain ⟨hsome, heq⟩ := h.literal (hliteral ▸ hl)
  exact ⟨heq ▸ hsome, heq.symm⟩

theorem Token.Alike.common {t t' : Token} (h : t.Alike t') : t.Common .blank .blank t' := by
  refine ⟨h.kind, rfl, h.text, fun _ => rfl, fun hliteral => ?_⟩
  obtain ⟨hsome, heq⟩ := h.literal hliteral
  unfold literal? at hsome heq
  generalize Literal.ofToken t.kind t.text t.position = x at hsome heq
  generalize Literal.ofToken t'.kind t'.text t'.position = y at heq
  cases x with
  | error e => cases hsome
  | ok l =>
    cases y with
    | error e => cases heq
    | ok l' => exact .ok (Option.some.inj heq).symm

namespace TokenStream.Alike

variable {s s' : TokenStream}

theorem symm (h : s.Alike s') : s'.Alike s :=
  ⟨h.finished', h.finished, (List.Forall₂.flip h.tokens).imp fun _ _ => Token.Alike.symm⟩

theorem cons (h : s.Alike s') {t t' : Token} (ht : t.Alike t') : (s.cons t).Alike (s'.cons t') :=
  ⟨h.finished, h.finished', .cons ht h.tokens⟩

theorem common (h : s.Alike s') : s.Common .blank .blank s' := by
  refine ⟨h.tokens.imp fun _ _ => Token.Alike.common, ?_⟩
  have hfinished := h.finished
  have hfinished' := h.finished'
  cases hs : s.stop with
  | unexpected p c =>
    rw [hs] at hfinished
    cases hfinished
  | finished p =>
    cases hs' : s'.stop with
    | unexpected p' c =>
      rw [hs'] at hfinished'
      cases hfinished'
    | finished p' => rfl

end TokenStream.Alike

/-! ## Words -/

/-- The same piece of a text in other words: a word up to case, a number of the same value or the
same string. -/
inductive Lexeme.Reworded : Lexeme → Lexeme → Prop
  | word {kind : TokenKind} {chars chars' rest rest' : List Char} (hkind : kind.isLiteral = false)
      (hcase : chars'.map Char.toLower = chars.map Char.toLower) :
      Reworded ⟨kind, chars, rest⟩ ⟨kind, chars', rest'⟩
  | number {n : Int} {chars chars' rest rest' : List Char} (h : Literal.number? chars = some n)
      (h' : Literal.number? chars' = some n) :
      Reworded ⟨.number, chars, rest⟩ ⟨.number, chars', rest'⟩
  | string {chars rest rest' : List Char} :
      Reworded ⟨.string, chars, rest⟩ ⟨.string, chars, rest'⟩

/-- The same text in other words. -/
inductive Reworded : List Char → List Char → Prop
  | done : Reworded [] []
  | space {c : Char} {cs cs' : List Char} (hc : Spot.isSpace c = true) (h : Reworded cs cs') :
      Reworded (c :: cs) cs'
  /-- A comment reaches to the end of its line. -/
  | comment {line cs cs' : List Char} (hline : '\n' ∉ line) (hend : ∀ c ∈ cs.head?, c = '\n')
      (h : Reworded cs cs') : Reworded ('#' :: (line ++ cs)) cs'
  | lexeme {cs cs' : List Char} {l l' : Lexeme} (hl : Lexeme.first? cs = some l)
      (hl' : Lexeme.first? cs' = some l') (hwords : l.Reworded l') (h : Reworded l.rest l'.rest) :
      Reworded cs cs'
  | symm {cs cs' : List Char} (h : Reworded cs cs') : Reworded cs' cs

theorem Token.literal?_number (chars : List Char) (p : Position) :
    (ofChars .number chars p).literal? = (Literal.number? chars).map .number := by
  have htoken : ofChars .number chars p = ⟨.number, .ofList chars, p⟩ := rfl
  simp only [htoken, literal?, Literal.ofToken, String.toList_ofList]
  cases Literal.number? chars <;> rfl

theorem Lexeme.Reworded.alike {l l' : Lexeme} (h : l.Reworded l') (p p' : Position) :
    (Token.ofChars l.kind l.chars p).Alike (Token.ofChars l'.kind l'.chars p') := by
  cases h with
  | @word kind chars chars' _ _ hkind hcase =>
    dsimp only
    rw [Token.ofChars_word hkind, Token.ofChars_word hkind, hcase]
    refine ⟨rfl, fun _ => rfl, fun hliteral => ?_⟩
    simp only [Token.isLiteral] at hliteral
    split at hliteral
    · cases hliteral
    · simp [hkind] at hliteral
  | number h h' =>
    refine ⟨rfl, fun hn => ?_, fun _ => ?_⟩
    · cases hn
    · rw [Token.literal?_number, Token.literal?_number, h, h']
      exact ⟨rfl, rfl⟩
  | string =>
    refine ⟨rfl, fun _ => rfl, fun _ => ⟨rfl, rfl⟩⟩

/-! ## Between words -/

namespace Spot

theorem skip_of_isSpace {c : Char} (hc : isSpace c = true) (p : Place) (cs : List Char) :
    skip false p (c :: cs) = skip false (p.step c) cs := by
  simp [skip, hc]

/-- The line feed behind a comment may as well be white space that follows it. -/
theorem skip_comment {line cs : List Char} (hline : '\n' ∉ line)
    (hend : ∀ c ∈ cs.head?, c = '\n') (p : Place) :
    ∃ q, skip true p (line ++ cs) = skip false q cs := by
  induction line generalizing p with
  | nil =>
    cases cs with
    | nil => exact ⟨p, rfl⟩
    | cons c cs =>
      obtain rfl := hend c rfl
      exact ⟨p, rfl⟩
  | cons c line ih =>
    rw [List.mem_cons, not_or] at hline
    obtain ⟨q, hq⟩ := ih hline.2 (p.step c)
    refine ⟨q, ?_⟩
    rw [List.cons_append, skip_comment_cons, bne_iff_ne.2 (Ne.symm hline.1), hq]

/-- A word stands where it is found. -/
theorem skip_of_first? {cs : List Char} {l : Lexeme} (h : Lexeme.first? cs = some l) (p : Place) :
    skip false p cs = ⟨p, cs⟩ := by
  cases cs with
  | nil => rfl
  | cons c cs =>
    have hspace : isSpace c = false := Bool.eq_false_iff.2 fun hc => by
      rw [Lexeme.first?_of_isBlank (Text.isBlank_of_isSpace hc)] at h
      cases h
    have hhash : c ≠ '#' := by
      rintro rfl
      cases h
    simp [skip, hspace, hhash]

theorem next_of_first? {cs : List Char} {l : Lexeme} (h : Lexeme.first? cs = some l)
    (source : String) (p : Place) :
    next source ⟨p, cs⟩ =
      .token (.ofChars l.kind l.chars ⟨source, p⟩) ⟨p.after l.chars, l.rest⟩ := by
  unfold next skipTrivia
  rw [skip_of_first? h]
  unfold first
  cases cs with
  | nil => cases h
  | cons c cs =>
    dsimp only
    rw [h]

/-- Where there is no word and nothing to pass over, reading stops. -/
theorem next_of_none {c : Char} {cs : List Char} (h : Lexeme.first? (c :: cs) = none)
    (hspace : isSpace c = false) (hhash : c ≠ '#') (source : String) (p : Place) :
    next source ⟨p, c :: cs⟩ = .unexpected c ⟨p, c :: cs⟩ := by
  simp [next, skipTrivia, skip, hspace, hhash, first, h]

end Spot

namespace TokenStream

variable (source : String) (p : Place) {cs : List Char}

theorem ofSpot_nil : ofSpot source ⟨p, []⟩ = ⟨[], .finished ⟨source, p⟩⟩ :=
  ofSpot_of_finish (q := ⟨p, []⟩) rfl

theorem ofSpot_space {c : Char} (hc : Spot.isSpace c = true) (cs : List Char) :
    ofSpot source ⟨p, c :: cs⟩ = ofSpot source ⟨p.step c, cs⟩ :=
  ofSpot_of_next (congrArg (Spot.first source) (Spot.skip_of_isSpace hc p cs))

theorem ofSpot_comment {line : List Char} (hline : '\n' ∉ line) (hend : ∀ c ∈ cs.head?, c = '\n') :
    ∃ q, ofSpot source ⟨p, '#' :: (line ++ cs)⟩ = ofSpot source ⟨q, cs⟩ := by
  obtain ⟨q, hq⟩ := Spot.skip_comment hline hend (p.step '#')
  exact ⟨q, ofSpot_of_next (congrArg (Spot.first source) hq)⟩

theorem ofSpot_lexeme {l : Lexeme} (h : Lexeme.first? cs = some l) :
    ofSpot source ⟨p, cs⟩ =
      (ofSpot source ⟨p.after l.chars, l.rest⟩).cons (.ofChars l.kind l.chars ⟨source, p⟩) :=
  ofSpot_of_token (Spot.next_of_first? h source p)

end TokenStream

namespace Reworded

open TokenStream

/-- A text in other words has tokens like those of the text, wherever it stands. -/
theorem alike_ofSpot {cs cs' : List Char} (h : Reworded cs cs') (source source' : String)
    (p p' : Place) : (ofSpot source ⟨p, cs⟩).Alike (ofSpot source' ⟨p', cs'⟩) := by
  induction h generalizing source source' p p' with
  | done =>
    rw [ofSpot_nil, ofSpot_nil]
    exact ⟨rfl, rfl, .nil⟩
  | space hc _ ih =>
    rw [ofSpot_space source p hc]
    exact ih _ _ _ _
  | comment hline hend _ ih =>
    obtain ⟨q, hq⟩ := ofSpot_comment source p hline hend
    rw [hq]
    exact ih _ _ _ _
  | lexeme hl hl' hwords _ ih =>
    rw [ofSpot_lexeme source p hl, ofSpot_lexeme source' p' hl']
    exact (ih _ _ _ _).cons (hwords.alike _ _)
  | symm _ ih => exact (ih _ _ _ _).symm

theorem alike {text text' : String} (h : Reworded text.toList text'.toList)
    (source source' : String) : (ofText source text).Alike (ofText source' text') :=
  h.alike_ofSpot _ _ _ _

end Reworded

end PacketSchema
