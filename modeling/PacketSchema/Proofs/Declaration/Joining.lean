import PacketSchema.Proofs.Declaration.Parsing
import PacketSchema.Proofs.Token.Joining

/-! Reading the declarations of two texts with a line end between them. Where the first text can be
read, reading arrives at the second one as at the start of a text, and whatever comes of it there
comes of it here. -/

namespace PacketSchema

namespace TokenStream

open Grammar (Statements)

variable {s : TokenStream} {ts : List Token} {ss : List Statement}

/-- Statements that derive are read, and reading goes on behind them. -/
theorem run_statements_prepend {fuel : Nat} (h : Statements ts ss) (hts : Sane ts)
    (hfuel : (s.prepend ts).tokens.length < fuel) :
    (statements fuel).run (s.prepend ts) =
      (((statements (s.tokens.length + 1)).run s).1.map (ss ++ ·),
        ((statements (s.tokens.length + 1)).run s).2) := by
  induction fuel generalizing ts ss with
  | zero => exact absurd hfuel (Nat.not_lt_zero _)
  | succ fuel ih =>
    cases h with
    | nil =>
      rw [prepend_nil, run_statements_same _ _ s hfuel (Nat.lt_succ_self _)]
      rcases (statements (s.tokens.length + 1)).run s with ⟨_ | _, _⟩ <;> rfl
    | @skip semicolon ts _ hsemicolon h =>
      have haccept : (accept ";").run (s.prepend (semicolon :: ts)) = (.ok true, s.prepend ts) :=
        returns_accept.2 (.inl ⟨semicolon, hsemicolon, rfl, rfl⟩)
      rw [statements, run_bind, haccept]
      exact ih h hts.cons.2 (by simpa using hfuel)
    | @cons ts us semicolon st ss hst hsemicolon h =>
      simp only [prepend_tokens, List.length_append, List.length_cons] at hfuel
      obtain ⟨hfirst, hstatement⟩ := returns_statement?_ended (s := s)
        (statements_completes fuel) (type?_completes fuel) hst hsemicolon hts (by omega)
      have haccept := returns_accept.2 (.inr ⟨hfirst, rfl, rfl⟩)
      have hexpect : (expect ";").run (s.prepend (semicolon :: us)) = (.ok (), s.prepend us) :=
        returns_expect.2 ⟨semicolon, hsemicolon, rfl⟩
      have hrest := ih h hts.append.2.cons.2
        (by simp only [prepend_tokens, List.length_append]; omega)
      unfold Returns at haccept hstatement
      rw [statements, run_bind, haccept]
      dsimp only
      rw [if_neg (by decide), run_bind, hstatement]
      dsimp only
      rw [run_bind, hexpect]
      dsimp only
      rw [run_bind, hrest]
      rcases (statements (s.tokens.length + 1)).run s with ⟨_ | _, _⟩ <;> rfl

/-- Reading a body is reading its statements. -/
theorem run_body (s : TokenStream) :
    body.run s = (((statements (s.tokens.length + 1)).run s).1.map (Body.mk s.front),
      ((statements (s.tokens.length + 1)).run s).2) := by
  rw [run_body_eq (Nat.lt_succ_self _)]
  unfold bodyOf
  by_cases hreadable : s.Readable
  · have hposition : position.run s = (.ok s.front, s) := returns_position.2 ⟨hreadable, rfl, rfl⟩
    rw [run_bind, hposition]
    dsimp only
    rw [run_bind]
    rcases (statements (s.tokens.length + 1)).run s with ⟨_ | _, _⟩ <;> rfl
  · obtain ⟨tokens, stop⟩ := s
    cases tokens with
    | cons t ts => exact absurd (fun hnil => nomatch hnil) hreadable
    | nil =>
      cases stop with
      | finished p => exact absurd (fun _ => rfl) hreadable
      | unexpected p c => rfl

/-- A body in front of which more statements stand. -/
theorem wholeBody_prepend (h : Statements ts ss) (hts : Sane ts) :
    (wholeBody.run (s.prepend ts)).1.map Body.statements =
      (wholeBody.run s).1.map (ss ++ Body.statements ·) := by
  unfold wholeBody
  rw [run_bind, run_bind, run_body, run_body, run_statements_prepend h hts (Nat.lt_succ_self _)]
  rcases (statements (s.tokens.length + 1)).run s with ⟨_ | ss', rest⟩
  · rfl
  · dsimp only [Except.map]
    rw [run_bind, run_bind]
    rcases peek.run rest with ⟨_ | _ | _, rest'⟩
    · rfl
    · rfl
    · dsimp only
      rcases hrefused : (refuse .declaration : Reader Body).run rest' with ⟨_ | _, _⟩
      · rfl
      · exact absurd hrefused not_returns_refuse

end TokenStream

namespace Body

variable {source text : String}

theorem statements_relocate (f : Place → Place) (b : Body) :
    (b.relocate f).statements = relocateAll f b.statements := by
  cases b
  rfl

theorem read_relocate (f : Place → Place) (s : TokenStream) :
    (TokenStream.wholeBody.run (s.relocate f)).1 =
      relocateResult f (relocate f) (TokenStream.wholeBody.run s).1 := by
  have hread := TokenStream.read_of_relocate_eq
    (show (s.relocate f).relocate id = s.relocate f from TokenStream.relocate_relocate f id s)
  exact (reprintResult_same reprint_same _).symm.trans hread

/-- Nothing of a text stands below its lines. -/
theorem ofText_relocate_up (source text : String) (lines : Nat)
    (h : text.toList.count '\n' + 1 ≤ lines) :
    relocateResult (Place.up lines) (relocate (Place.up lines)) (ofText source text) =
      ofText source text := by
  have hread := read_relocate (Place.up lines) (TokenStream.ofText source text)
  rw [TokenStream.ofText_relocate_up lines h] at hread
  exact hread.symm

theorem ofText_down_up (source text : String) (lines : Nat) :
    relocateResult (Place.up lines) (relocate (Place.up lines))
      (relocateResult (Place.down lines) (relocate (Place.down lines)) (ofText source text)) =
        ofText source text := by
  have hread := read_relocate (Place.up lines)
    ((TokenStream.ofText source text).relocate (Place.down lines))
  rw [TokenStream.ofText_down_up, read_relocate] at hread
  exact hread.symm

theorem ofText_down_relocate (source text : String) (lines : Nat) :
    relocateResult (Place.down lines ∘ Place.up lines)
      (relocate (Place.down lines ∘ Place.up lines))
      (relocateResult (Place.down lines) (relocate (Place.down lines)) (ofText source text)) =
        relocateResult (Place.down lines) (relocate (Place.down lines)) (ofText source text) := by
  have hread := read_relocate (Place.down lines ∘ Place.up lines)
    ((TokenStream.ofText source text).relocate (Place.down lines))
  rw [TokenStream.ofText_down_relocate, read_relocate] at hread
  exact hread.symm

/-- The declarations of two texts with a line end between them are those of the first one, which can
be read, and then those of the second one, as many lines further down. -/
theorem ofText_join {b : Body} (h : ofText source text = .ok b) (behind : String) :
    (ofText source (text ++ "\n" ++ behind)).map statements =
      (relocateResult (Place.down (text.toList.count '\n' + 1))
        (relocate (Place.down (text.toList.count '\n' + 1))) (ofText source behind)).map
          (b.statements ++ statements ·) := by
  obtain ⟨p, hstop, hrange, hbody⟩ :=
    TokenStream.derives_of_returns (Prod.ext h rfl : TokenStream.Returns _ _ b _)
  have hproper := TokenStream.proper_ofSpot source ⟨.start, text.toList⟩
  cases hbody with
  | mk hstatements =>
    have hjoined := TokenStream.wholeBody_prepend (s := (TokenStream.ofText source behind).relocate
      (Place.down (text.toList.count '\n' + 1))) hstatements
      fun t ht => ⟨hproper t ht, hrange t ht⟩
    rw [← TokenStream.ofText_join hstop behind, read_relocate] at hjoined
    exact hjoined

end Body

end PacketSchema
