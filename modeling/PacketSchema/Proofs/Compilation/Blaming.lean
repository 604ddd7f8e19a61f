import PacketSchema.Proofs.Compilation.Joining
import PacketSchema.Proofs.Token.Landmarks

/-! What in a source is to blame for an error. Whatever has been compiled before, an error stands at
a landmark of the text that is compiled: a print that puts everything at one of these keeps what is
read from the text, and so it keeps where its declarations are refused. -/

namespace PacketSchema

/-- Everything at a landmark: as it is if a token stands there, and else where the text stops. -/
def Print.onto (s : TokenStream) : Print where
  source _ := s.stop.position.source
  place p := if ∃ t ∈ s.tokens, t.position.place = p then p else s.stop.position.place
  literal := id

theorem SchemaError.position?_reprint (r : Print) (e : SchemaError) :
    (e.reprint r).position? = e.position?.map (Position.reprint r) := by
  cases e <;> rfl

theorem SchemaError.IsSyntactic.exists_position {e : SchemaError} (h : e.IsSyntactic) :
    ∃ p, e.position? = some p := by
  cases e with
  | lexical p _ | expected p _ => exact ⟨p, rfl⟩
  | _ => cases h

namespace TokenStream

variable {s : TokenStream}

theorem reprint_onto_of_mem {t : Token} (ht : t ∈ s.tokens)
    (hsource : t.position.source = s.stop.position.source) :
    t.position.reprint (.onto s) = t.position := by
  have hplace : ∃ u ∈ s.tokens, u.position.place = t.position.place := ⟨t, ht, rfl⟩
  simp only [Position.reprint, Print.onto, if_pos hplace, ← hsource]

theorem reprint_onto_stop (s : TokenStream) :
    s.stop.position.reprint (.onto s) = s.stop.position := by
  simp only [Position.reprint, Print.onto, ite_self]

/-- All tokens are of the source in which the text stops. -/
def OneSource (s : TokenStream) : Prop :=
  ∀ t ∈ s.tokens, t.position.source = s.stop.position.source

theorem OneSource.position_cases (h : s.OneSource) {p : Position}
    (hp : p.reprint (.onto s) = p) : (∃ t ∈ s.tokens, t.position = p) ∨ s.stop.position = p := by
  by_cases ht : ∃ t ∈ s.tokens, t.position.place = p.place
  · obtain ⟨t, ht, hplace⟩ := ht
    have hsource := congrArg Position.source hp
    exact .inl ⟨t, ht, congrArg₂ Position.mk ((h t ht).trans hsource) hplace⟩
  · refine .inr ?_
    rw [← hp]
    simp only [Position.reprint, Print.onto, if_neg ht]

/-- Tokens of one source are the same where they are put at their landmarks. -/
theorem OneSource.common_onto (h : s.OneSource) : s.Common .same (.onto s) s := by
  refine ⟨List.forall₂_same.2 fun t ht => ?_, ?_⟩
  · have hposition : t.position.reprint .same = t.position.reprint (.onto s) :=
      (reprint_onto_of_mem ht (h t ht)).symm
    exact ⟨rfl, hposition, fun _ => rfl, fun _ => rfl,
      fun _ => Literal.ofToken_coincide _ _ hposition⟩
  · have hstop := reprint_onto_stop s
    obtain ⟨tokens, p | ⟨p, c⟩⟩ := s
    · exact congrArg Stop.finished hstop.symm
    · exact congrArg (Stop.unexpected · c) hstop.symm

theorem oneSource_ofText (source text : String) : (ofText source text).OneSource := by
  obtain ⟨htokens, hstop⟩ := marks_ofText source text
  have hsource : ∀ {p : Position}, p.Marks source text.toList (ofText source text) →
      p.source = source := by
    rintro _ ⟨_, _, -, rfl, -⟩
    rfl
  exact fun t ht => (hsource (htokens t ht)).trans (hsource hstop).symm

end TokenStream

/-- What is read from a text stands at its landmarks, also if that is an error. -/
theorem Body.ofText_onto (source text : String) :
    reprintResult (.onto (.ofText source text)) (Body.reprint (.onto (.ofText source text)))
      (ofText source text) = ofText source text := by
  have hread := (TokenStream.oneSource_ofText source text).common_onto.read
  exact hread.symm.trans (reprintResult_same Body.reprint_same _)

namespace Compilation

open Schema

variable {source text : String} {c c' : Compilation} {e : SchemaError}

theorem reprint_onto_of_error (h : (addSource source text).run c = (.error e, c')) :
    ∃ p, e.position? = some p ∧ p.reprint (.onto (.ofText source text)) = p := by
  have hread := Body.ofText_onto source text
  rw [addSource, run_addText] at h
  cases hbody : Body.ofText source text with
  | error e' =>
    rw [hbody] at h hread
    cases h
    obtain ⟨p, hp⟩ := (Body.ofText_error hbody).exists_position
    refine ⟨p, hp, ?_⟩
    have hsame := congrArg SchemaError.position? (Except.error.inj hread)
    rw [SchemaError.position?_reprint, hp] at hsame
    exact Option.some.inj hsame
  | ok b =>
    rw [hbody] at h hread
    obtain ⟨q, statements⟩ := b
    have hkept := Except.ok.inj hread
    simp only [Body.reprint, Body.mk.injEq] at hkept
    exact (Points.closed.declareAll root statements hkept.2).error h

/-- Whatever has been compiled before, an error in a source has a position there: that of a token of
its text, of the first character at which there is none, or of its end. Nothing else in the text,
and so nothing that is passed over, has the line and column. -/
theorem error_at_landmark (h : (addSource source text).run c = (.error e, c')) :
    ∃ before rest, text.toList = before ++ rest ∧
      e.position? = some ⟨source, .behind before⟩ ∧
      Landmark source (.ofText source text) before rest ∧
      ∀ before' rest', text.toList = before' ++ rest' → Place.behind before' = .behind before →
        before' = before := by
  obtain ⟨p, hp, hkept⟩ := reprint_onto_of_error h
  obtain ⟨htokens, hstop⟩ := TokenStream.marks_ofText source text
  have hmarks : p.Marks source text.toList (.ofText source text) := by
    obtain ⟨t, ht, rfl⟩ | rfl := (TokenStream.oneSource_ofText source text).position_cases hkept
    · exact htokens t ht
    · exact hstop
  obtain ⟨before, rest, htext, rfl, hmark⟩ := hmarks
  refine ⟨before, rest, htext, hp, hmark, fun before' rest' htext' hplace => ?_⟩
  exact Place.behind_inj (htext'.symm.trans htext) hplace

/-- The type is one of an earlier source and takes no arguments. In front of it are a tab and a
comment in which it stands as well, with a letter of two bytes. -/
theorem error_at_landmark_user_type : ∃ c e c' before rest,
    (addSource "a" "type s;").run (.start {}) = (.ok (), c) ∧
      (addSource "b" "# s é\n\tx : s 3;").run c = (.error e, c') ∧
      e = .badArguments ⟨"b", ⟨2, 6⟩⟩ "s" .userType ∧
      "# s é\n\tx : s 3;".toList = before ++ rest ∧
      e.position? = some ⟨"b", .behind before⟩ ∧
      Landmark "b" (.ofText "b" "# s é\n\tx : s 3;") before rest := by
  have hfirst : ((addSource "a" "type s;").run (.start {})).1 = .ok () := by decide +kernel
  obtain ⟨c', herror⟩ : ∃ c', (addSource "b" "# s é\n\tx : s 3;").run
      ((addSource "a" "type s;").run (.start {})).2 =
        (.error (.badArguments ⟨"b", ⟨2, 6⟩⟩ "s" .userType), c') :=
    ⟨_, Prod.ext (by decide +kernel) rfl⟩
  obtain ⟨before, rest, htext, hposition, hmark, -⟩ := error_at_landmark herror
  exact ⟨_, _, c', before, rest, Prod.ext hfirst rfl, herror, rfl, htext, hposition, hmark⟩

end Compilation

end PacketSchema
