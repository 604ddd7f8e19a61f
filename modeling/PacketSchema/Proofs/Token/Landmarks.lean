import PacketSchema.Proofs.Declaration.Returning
import PacketSchema.Proofs.Declaration.Undotted
import PacketSchema.Proofs.Token.Places

/-! The landmarks of a text: where its tokens start and where reading them stops. What is read from
a text stands at one of these, and never in the white space and the comments that are passed
over. -/

namespace PacketSchema

/-- In a text no two places are the same. -/
theorem Place.behind_inj {before before' rest rest' : List Char}
    (h : before ++ rest = before' ++ rest') (hplace : behind before = behind before') :
    before = before' := by
  have hnil : ∀ {before piece : List Char}, behind before = behind (before ++ piece) →
      piece = [] := by
    intro before piece hsame
    rw [behind_append, after_eq] at hsame
    have hline := congrArg Place.line hsame
    have hcolumn := congrArg Place.column hsame
    dsimp only at hline hcolumn
    have hfeed : '\n' ∉ piece := List.count_eq_zero.1 (by omega)
    rw [if_neg hfeed] at hcolumn
    exact List.eq_nil_of_length_eq_zero (by omega)
  obtain ⟨piece, rfl, -⟩ | ⟨piece, rfl, -⟩ := List.append_eq_append_iff.1 h
  · rw [hnil hplace, List.append_nil]
  · rw [hnil hplace.symm, List.append_nil]

namespace Spot

/-- Neither white space nor a comment starts where these have been passed over. -/
theorem head_skip (inComment : Bool) (p : Place) (cs : List Char) :
    ∀ c ∈ (skip inComment p cs).rest.head?, isSpace c = false ∧ c ≠ '#' := by
  induction cs generalizing inComment p with
  | nil => simp [skip]
  | cons c cs ih =>
    unfold skip
    split_ifs with hcomment hspace hhash
    · exact ih _ _
    · exact ih _ _
    · exact ih _ _
    · rintro _ ⟨⟩
      exact ⟨Bool.eq_false_iff.2 hspace, hhash⟩

variable {source : String} {s q : Spot}

theorem rest_of_finish (h : s.next source = .finish q) : q.rest = [] := by
  unfold next first at h
  split at h
  · rename_i hrest
    cases h
    exact hrest
  · split at h <;> cases h

theorem rest_of_unexpected {c : Char} (h : s.next source = .unexpected c q) :
    q.rest.head? = some c ∧ Lexeme.first? q.rest = none ∧ isSpace c = false ∧ c ≠ '#' := by
  have hskip := head_skip false s.place s.rest
  unfold next first at h
  split at h
  · cases h
  · rename_i hrest
    split at h
    · cases h
    · rename_i hnone
      cases h
      have hhead : s.skipTrivia.rest.head? = some c := by rw [hrest]; rfl
      exact ⟨hhead, hnone, hskip c hhead⟩

end Spot

/-- What a text and its tokens have at the end of a piece of the text, if that piece is cut into
tokens, white space and comments. -/
inductive Landmark (source : String) (s : TokenStream) (before rest : List Char) : Prop
  /-- The first character of a token. -/
  | token {front back : List Token} {l : Lexeme} (hcut : Cut source before rest front)
      (hlexeme : Lexeme.first? rest = some l)
      (htokens : s.tokens = front ++ .ofChars l.kind l.chars ⟨source, .behind before⟩ :: back)
  /-- The first character at which there is no token. -/
  | unexpected {c : Char} (hcut : Cut source before rest s.tokens) (hhead : rest.head? = some c)
      (hspace : Spot.isSpace c = false) (hhash : c ≠ '#') (hlexeme : Lexeme.first? rest = none)
      (hstop : s.stop = .unexpected ⟨source, .behind before⟩ c)
  /-- The end of the text. -/
  | finish (hcut : Cut source before rest s.tokens) (hrest : rest = [])
      (hstop : s.stop = .finished ⟨source, .behind before⟩)

/-- The position is that of a landmark of the text. -/
def Position.Marks (source : String) (text : List Char) (s : TokenStream) (p : Position) : Prop :=
  ∃ before rest, text = before ++ rest ∧ p = ⟨source, .behind before⟩ ∧
    Landmark source s before rest

def Stop.position : Stop → Position
  | finished p | unexpected p _ => p

namespace TokenStream

variable {source : String} {text : List Char}

/-- What is left to read of a text marks it, behind the tokens that have been read. -/
theorem marks_ofSpot {s : TokenStream} {front : List Token} {spot : Spot}
    (hs : s = (ofSpot source spot).prepend front) (hspot : spot.Behind source text front) :
    (∀ t ∈ (ofSpot source spot).tokens, t.position.Marks source text s) ∧
      s.stop.position.Marks source text s := by
  fun_induction ofSpot source spot generalizing front with
  | case1 spot t after hnext ih =>
    obtain ⟨before, htext, hplace, hcut⟩ := hspot.skipTrivia.exists_before
    obtain ⟨l, hl, ht, -⟩ := Spot.exists_lexeme_of_token hnext
    rw [hplace] at ht
    have hs' : s = (ofSpot source after).prepend (front ++ [t]) := by
      rw [hs, prepend_append]
      rfl
    obtain ⟨htokens, hstop⟩ := ih hs' (hspot.token hnext)
    have hall : s.tokens = front ++ .ofChars l.kind l.chars ⟨source, .behind before⟩ ::
        (ofSpot source after).tokens := by
      rw [hs, ht]
      rfl
    refine ⟨List.forall_mem_cons.2 ⟨⟨before, _, htext, ?_, .token hcut hl hall⟩, htokens⟩, hstop⟩
    rw [ht, Token.ofChars_position]
  | case2 spot q hnext =>
    obtain ⟨before, htext, hplace, hcut⟩ := (hspot.stop (.inl hnext)).exists_before
    have htokens : s.tokens = front := by rw [hs, prepend_tokens, List.append_nil]
    have hstop : s.stop = .finished ⟨source, .behind before⟩ := by
      rw [hs, ← hplace]
      rfl
    refine ⟨by simp, before, _, htext, ?_,
      .finish (htokens ▸ hcut) (Spot.rest_of_finish hnext) hstop⟩
    rw [hstop]
    rfl
  | case3 spot c q hnext =>
    obtain ⟨before, htext, hplace, hcut⟩ := (hspot.stop (.inr ⟨c, hnext⟩)).exists_before
    obtain ⟨hhead, hnone, hspace, hhash⟩ := Spot.rest_of_unexpected hnext
    have htokens : s.tokens = front := by rw [hs, prepend_tokens, List.append_nil]
    have hstop : s.stop = .unexpected ⟨source, .behind before⟩ c := by
      rw [hs, ← hplace]
      rfl
    refine ⟨by simp, before, _, htext, ?_,
      .unexpected (htokens ▸ hcut) hhead hspace hhash hnone hstop⟩
    rw [hstop]
    rfl

theorem marks_ofText (source text : String) :
    (∀ t ∈ (ofText source text).tokens,
        t.position.Marks source text.toList (ofText source text)) ∧
      (ofText source text).stop.position.Marks source text.toList (ofText source text) :=
  marks_ofSpot (prepend_nil _).symm ⟨[], rfl, rfl, .start⟩

end TokenStream

end PacketSchema
