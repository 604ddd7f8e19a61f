import PacketSchema.Proofs.Declaration.Completeness
import PacketSchema.Proofs.Declaration.Fuel

/-! Reading decides the grammar: a text is read if and only if all of it can be derived, and what is
read is what it derives. -/

namespace PacketSchema

namespace TokenStream

variable {s : TokenStream}

theorem Stop.error?_eq_none {stop : Stop} : stop.error? = none ↔ ∃ p, stop = .finished p := by
  cases stop <;> simp [Stop.error?]

/-- A body reaches to the end of the text if nothing is left behind it. -/
theorem returns_wholeBody {b : Body} {rest : TokenStream} :
    Returns wholeBody s b rest ↔ Returns body s b rest ∧ rest.Readable ∧ rest.tokens = [] := by
  unfold wholeBody
  rw [returns_bind]
  constructor
  · rintro ⟨b', mid, hb, h⟩
    obtain ⟨o, _, ho, h⟩ := returns_bind.1 h
    obtain ⟨hreadable, rfl, rfl⟩ := returns_peek.1 ho
    cases htokens : mid.tokens with
    | nil =>
      rw [htokens] at h
      obtain ⟨rfl, rfl⟩ := returns_pure.1 h
      exact ⟨hb, hreadable, htokens⟩
    | cons t ts =>
      rw [htokens] at h
      exact absurd h not_returns_refuse
  · rintro ⟨hb, hreadable, htokens⟩
    refine ⟨b, rest, hb, returns_bind.2 ⟨none, rest, returns_peek.2 ⟨hreadable, ?_, rfl⟩,
      returns_pure.2 ⟨rfl, rfl⟩⟩⟩
    rw [htokens]
    rfl

theorem derives_of_returns {b : Body} {rest : TokenStream} (h : Returns wholeBody s b rest) :
    ∃ p, s.stop = .finished p ∧ (∀ t ∈ s.tokens, t.InRange) ∧ Grammar.Body p s.tokens b := by
  obtain ⟨hb, hreadable, hnil⟩ := returns_wholeBody.1 h
  obtain ⟨_, _, hget, hb⟩ := returns_bind.1 hb
  obtain ⟨rfl, rfl⟩ := returns_get.1 hget
  obtain ⟨ts, rfl, hts, hr⟩ := bodyOf_takes (statements_derives _) hb
  obtain ⟨p, hp⟩ := Stop.error?_eq_none.1 (hreadable hnil)
  have htokens : (rest.prepend ts).tokens = ts := by simp [hnil]
  have hfront : rest.front = p := by simp [front, hnil, hp]
  refine ⟨p, hp, ?_, ?_⟩
  · rwa [htokens]
  · rwa [htokens, ← hfront]

theorem returns_of_derives {b : Body} {p : Position} (hstop : s.stop = .finished p)
    (hsane : Sane s.tokens) (h : Grammar.Body p s.tokens b) :
    Returns wholeBody s b ⟨[], .finished p⟩ := by
  have hs : s = prepend s.tokens ⟨[], .finished p⟩ := by
    unfold prepend
    rw [List.append_nil, ← hstop]
  refine returns_wholeBody.2 ⟨?_, fun _ => rfl, rfl⟩
  refine returns_bind.2 ⟨s, s, returns_get.2 ⟨rfl, rfl⟩, ?_⟩
  have hbody := returns_bodyOf (s := ⟨[], .finished p⟩) (statements_completes (s.tokens.length + 1))
    h hsane ⟨fun _ => rfl, fun _ _ hnil => nomatch hnil⟩ (Nat.lt_succ_self _)
  rwa [← hs] at hbody

/-- Tokens whose numbers are in range derive one body at most. -/
theorem derives_unique {ts : List Token} {p : Position} {b b' : Body} (hts : Sane ts)
    (h : Grammar.Body p ts b) (h' : Grammar.Body p ts b') : b' = b := by
  have hb := returns_of_derives (s := ⟨ts, .finished p⟩) rfl hts h
  have hb' := returns_of_derives (s := ⟨ts, .finished p⟩) rfl hts h'
  exact Except.ok.inj (congrArg Prod.fst (hb'.symm.trans hb))

end TokenStream

theorem Body.ofText_eq_ok_of_derives {source text : String} {b : Body} {p : Position}
    (hstop : (TokenStream.ofText source text).stop = .finished p)
    (hrange : ∀ t ∈ (TokenStream.ofText source text).tokens, t.InRange)
    (h : Grammar.Body p (TokenStream.ofText source text).tokens b) : ofText source text = .ok b := by
  have hproper := TokenStream.proper_ofSpot source ⟨.start, text.toList⟩
  have hrun := TokenStream.returns_of_derives hstop (fun t ht => ⟨hproper t ht, hrange t ht⟩) h
  exact congrArg Prod.fst hrun

/-- A text is read if and only if it consists of tokens, its numbers are in range and all of it
derives from the grammar. What is read is what derives from it, and with numbers in range nothing
else does. Every statement has the position of its first token, and reading ends by itself: no fuel
makes a difference to it, as long as there is some for every token. -/
theorem Body.ofText_eq_ok_iff (source text : String) :
    (∀ b, ofText source text = .ok b ↔
      ∃ p, (TokenStream.ofText source text).stop = .finished p ∧
        (∀ t ∈ (TokenStream.ofText source text).tokens, t.InRange) ∧
        Grammar.Body p (TokenStream.ofText source text).tokens b) ∧
    ((∀ t ∈ (TokenStream.ofText source text).tokens, t.InRange) →
      ∀ p b b', Grammar.Body p (TokenStream.ofText source text).tokens b →
        Grammar.Body p (TokenStream.ofText source text).tokens b' → b' = b) ∧
    (∀ ts st, Grammar.Statement ts st → ts.head?.map Token.position = some st.position) ∧
    ∀ fuel, (TokenStream.ofText source text).tokens.length < fuel →
      TokenStream.body.run (TokenStream.ofText source text) =
        (TokenStream.bodyOf (TokenStream.statements fuel)).run (TokenStream.ofText source text) := by
  have hproper := TokenStream.proper_ofSpot source ⟨.start, text.toList⟩
  refine ⟨fun b => ⟨fun h => ?_, ?_⟩, fun hrange _ _ _ => ?_, fun _ _ h => h.position,
    fun _ h => TokenStream.run_body_eq h⟩
  · exact TokenStream.derives_of_returns (Prod.ext h rfl : TokenStream.Returns _ _ b _)
  · rintro ⟨p, hstop, hrange, hbody⟩
    exact ofText_eq_ok_of_derives hstop hrange hbody
  · exact TokenStream.derives_unique fun t ht => ⟨hproper t ht, hrange t ht⟩

end PacketSchema
