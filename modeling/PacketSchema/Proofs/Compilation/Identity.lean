import PacketSchema.Proofs.Compilation.Completing
import PacketSchema.Proofs.Schema.Unfolding

/-! Types are identified by their structure. An applied type has one number in a compiled schema,
whatever its elements are, and keeps it for as long as the compilation goes on. -/

namespace PacketSchema.Compilation

open Schema

/-! ## The cache at all moments -/

theorem Step.types {st st' : Stage} (h : Step st st') :
    st'.schema.types = st.schema.types ∨
      ∃ t, st'.schema.types = (st.schema.types.intern t).2 := by
  cases h with
  | note h =>
    cases h with
    | intern t => exact .inr ⟨t, rfl⟩
    | report _ => exact .inl rfl
    | mark _ => exact .inl rfl
    | warn _ => exact .inl rfl
  | field _ _ _ => exact .inl rfl
  | constraint _ _ _ => exact .inl rfl
  | announce _ _ => exact .inl rfl
  | enter _ => exact .inl rfl
  | leave _ _ => exact .inl rfl
  | assign _ => exact .inl rfl
  | conclude _ _ => exact .inl rfl
  | register _ _ _ _ _ => exact .inl rfl

theorem Step.inverse {st st' : Stage} (h : Step st st') (hst : st.schema.types.Inverse) :
    st'.schema.types.Inverse := by
  obtain heq | ⟨t, heq⟩ := h.types
  · rwa [heq]
  · rw [heq]
    exact hst.intern t

theorem Steps.inverse {options : Options} {st : Stage} (h : Steps (.start options) st) :
    ∀ c ∈ st.moments, c.schema.types.Inverse :=
  h.forall_moments TypeCache.inverse_empty fun _ _ _ h => h.inverse

/-- Types keep their numbers from every moment to every later one. -/
theorem History.types_prefix {moments : List Compilation} (h : History moments) :
    moments.Pairwise fun c' c => c.schema.types.types <+: c'.schema.types.types := by
  induction h with
  | start options => exact List.pairwise_singleton _ _
  | @step c c' past _ hc ih =>
    refine List.pairwise_cons.2 ⟨fun e he => ?_, ih⟩
    obtain rfl | he := List.mem_cons.1 he
    · exact hc.types_prefix
    · exact ((List.pairwise_cons.1 ih).1 e he).trans hc.types_prefix

/-! ## Running on -/

/-- After a success the compilation of more sources goes on from where it is. -/
theorem history_suffix {options : Options} {sources : List (String × String)} {s : Schema}
    (h : ofSources options sources = .ok s) (later : List (String × String)) :
    history options sources <:+ history options (sources ++ later) := by
  obtain ⟨r, hrun, -⟩ := recorded_of_ok h
  have hlater := Stays.addTexts later r
  unfold history
  rw [recorded_append hrun later, hrun]
  rcases hrest : (addTexts later : Recorded Unit).run r with ⟨e | ⟨⟩, r'⟩
  · obtain ⟨fs, hsteps, -⟩ := hlater.steps_of_error hrest
    exact hsteps.moments_suffix
  · exact (hlater.steps_of_ok hrest).moments_suffix

/-! ## Types and their structure -/

theorem LinksSettled.elemOf_wellFounded {s : Schema} {d : ScopeId} {held : Option Node}
    (h : LinksSettled s d held) : WellFounded s.ElemOf := by
  refine Subrelation.wf (fun {u t} hu => ?_) (InvImage.wf Node.type h.wellFounded)
  obtain ⟨id, p, rfl, hp, he⟩ := hu
  exact .part hp (.elem he)

theorem LinksSettled.knows {s : Schema} {d : ScopeId} {held : Option Node}
    (h : LinksSettled s d held) {t : TypeRef} (ht : s.Stores t) : s.Knows t := by
  have hlinked : ∃ n, s.Links n (.type t) := by
    cases ht with
    | field hl hmem => exact ⟨_, .member hl (.field hmem)⟩
    | @binding id scope name t hs hmem => exact ⟨.space id, .name rfl hs hmem⟩
    | elem hu =>
      obtain ⟨id, p, rfl, hp, he⟩ := hu
      exact ⟨_, .part hp (.elem he)⟩
  rintro id rfl
  obtain ⟨n, hlink⟩ := hlinked
  exact (h.complete hlink).1

/-- Type identity is structural. In a compiled schema every type that is referred to can be spelled
out in just one way, and two are the same if and only if they are spelled out alike. At all moments
the index of the cache is the inverse of the list of types, and a number that has been given to a
type stands for it at every later moment, also when more sources are compiled. -/
theorem ofSources_types {options : Options} {sources : List (String × String)} {s : Schema}
    (h : ofSources options sources = .ok s) :
    WellFounded s.ElemOf ∧
    (∀ t, s.Stores t → ∃! tree, s.Unfolds t tree) ∧
    (∀ t u tree tree', s.Stores t → s.Stores u → s.Unfolds t tree → s.Unfolds u tree' →
      (t = u ↔ tree = tree')) ∧
    (∀ c ∈ history options sources, ∀ t id,
      c.schema.types.find? t = some id ↔ c.schema.types.get? id = some t) ∧
    ∀ later, history options sources <:+ history options (sources ++ later) ∧
      (history options (sources ++ later)).Pairwise fun c' c =>
        ∀ id t, c.schema.param? id = some t → c'.schema.param? id = some t := by
  obtain ⟨-, -, hsettled⟩ := linksSettled_of_ok h
  have hwf := hsettled.elemOf_wellFounded
  refine ⟨hwf, fun t ht => ?_, fun t u tree tree' _ _ htree htree' => ⟨?_, ?_⟩, ?_,
    fun later => ⟨history_suffix h later, ?_⟩⟩
  · obtain ⟨tree, htree⟩ :=
      exists_unfolds hwf (fun u t hu => hsettled.knows (.elem hu)) (hsettled.knows ht)
    exact ⟨tree, htree, fun other hother => hother.unique htree⟩
  · rintro rfl
    exact htree.unique htree'
  · rintro rfl
    exact htree.injective hsettled.inverse htree'
  · obtain ⟨fs, hsteps⟩ := exists_steps options sources
    exact hsteps.inverse
  · obtain ⟨fs, hsteps⟩ := exists_steps options (sources ++ later)
    refine hsteps.history.types_prefix.imp fun hprefix id t ht => ?_
    exact TypeCache.get?_of_prefix hprefix ht

/-- A name and a field have the same type, which has been written twice. -/
theorem ofSources_types_shared : ∃ s t,
    ofSources {} [("t", "type a : array 3 (array 4 byte); type b { x : array 3 (array 4 byte); };")]
        = .ok s ∧
      s.getLocal? root "a" = some (.type t) ∧
      (s.layout? ⟨1⟩).map (·.fields.entries.map fun entry => entry.2.type) = some [t] ∧
      s.types.size = 2 ∧ ∃! tree, s.Unfolds t tree := by
  obtain ⟨s, hs, hp⟩ := exists_ok (show ((ofSources {}
    [("t", "type a : array 3 (array 4 byte); type b { x : array 3 (array 4 byte); };")]
      ).toOption.any fun s => s.getLocal? root "a" = some (.type (.param ⟨1⟩)) ∧
        (s.layout? ⟨1⟩).map (·.fields.entries.map fun entry => entry.2.type) =
          some [.param ⟨1⟩] ∧
        s.types.size = 2 ∧
        (s.scope? root).any fun scope => ("a", .type (.param ⟨1⟩)) ∈ scope.names.entries) = true by
    decide +kernel)
  obtain ⟨hname, hfields, hsize, hscope⟩ := of_decide_eq_true hp
  obtain ⟨scope, hfound, hmem⟩ := Option.any_eq_true _ _ |>.1 hscope
  obtain ⟨-, hunfolds, -⟩ := ofSources_types hs
  exact ⟨s, _, hs, hname, hfields, hsize,
    hunfolds _ (.binding hfound (of_decide_eq_true hmem))⟩

end PacketSchema.Compilation
