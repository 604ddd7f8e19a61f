import PacketSchema.Proofs.Compilation.Following
import PacketSchema.Proofs.Compilation.Mirroring

/-! What happens to scopes from each moment of a compilation to the next: either what they hold
grows by one entry at most, or a scope is added. -/

namespace PacketSchema.Compilation

open Schema

/-- All moments of the compilation of sources, the latest first. -/
def history (options : Options) (sources : List (String × String)) : List Compilation :=
  (recorded options sources).2.moments

/-- What a scope holds has at most one entry more. -/
inductive Extends (c : Compilation) (l : Layout) : Layout → Prop
  | same : Extends c l l
  | field {name : String} (field : Field) (hnew : l.fields.find? name = none) :
      Extends c l (l.addField name field)
  | constraint {name : String} {value : Literal} (hfits : Fits c l name value)
      (hsame : ∀ existing, l.constraints.find? name = some existing → existing = value) :
      Extends c l (l.addConstraint name value)
  | branch {path : Path} (id : ScopeId) (hnew : l.branches.find? path = none) :
      Extends c l (l.addBranch path id)

/-- What may happen from one moment to the next. -/
inductive Change (c c' : Compilation) : Prop
  | grow (hshapes : c.schema.SameShapes c'.schema) (hoptions : c'.options = c.options)
      (htypes : c.schema.types.types <+: c'.schema.types.types)
      (hlayouts : ∀ id l, c.schema.layout? id = some l →
        ∃ l', c'.schema.layout? id = some l' ∧ Extends c l l')
  | enter {d : ScopeId} {task : Task} {scope : Scope} (hd : c.schema.Has d)
      (hopens : Opens c.schema d task scope) (hc : c' = c.mapSchema (·.addScope scope))

/-- The moments of a run, the latest first. -/
inductive History : List Compilation → Prop
  | start (options : Options) : History [.start options]
  | step {c c' : Compilation} {past : List Compilation} (h : History (c :: past))
      (hc : Change c c') : History (c' :: c :: past)

namespace Change

variable {c c' : Compilation}

theorem of_layouts_eq (hshapes : c.schema.SameShapes c'.schema) (hoptions : c'.options = c.options)
    (htypes : c.schema.types.types <+: c'.schema.types.types)
    (hlayouts : ∀ id, c'.schema.layout? id = c.schema.layout? id) : Change c c' :=
  .grow hshapes hoptions htypes fun id l hl => ⟨l, (hlayouts id).trans hl, .same⟩

theorem bind (c : Compilation) (d : ScopeId) (name : String) (item : Item) :
    Change c (c.mapSchema (·.bind d name item)) :=
  .of_layouts_eq (.bind _ _ _ _) rfl List.prefix_rfl fun id => layout?_bind _ d id name item

theorem modifyLayout {d : ScopeId} {l : Layout} {f : Layout → Layout}
    (hl : c.schema.layout? d = some l) (hf : Extends c l (f l)) :
    Change c (c.mapSchema (·.modifyLayout d f)) := by
  refine .grow (.modifyLayout _ _ _) rfl List.prefix_rfl fun id old hold => ?_
  unfold mapSchema
  rw [layout?_modifyLayout, hold]
  by_cases hid : id = d
  · subst hid
    rw [hl] at hold
    cases hold
    exact ⟨f l, if_pos rfl, hf⟩
  · exact ⟨old, if_neg hid, .same⟩

theorem keeps (h : Change c c') : c.schema.Keeps c'.schema := by
  cases h with
  | grow hshapes _ _ _ => exact hshapes.keeps
  | enter _ _ hc =>
    subst hc
    exact keeps_addScope _ _

theorem rooted (h : Change c c') (hr : c.schema.Rooted) : c'.schema.Rooted := by
  cases h with
  | grow hshapes _ _ _ => exact hshapes.rooted hr
  | enter hd hopens hc =>
    subst hc
    exact hr.addScope hd hopens.parent

theorem options_eq (h : Change c c') : c'.options = c.options := by
  cases h with
  | grow _ hoptions _ _ => exact hoptions
  | enter _ _ hc => rw [hc]; rfl

theorem types_prefix (h : Change c c') : c.schema.types.types <+: c'.schema.types.types := by
  cases h with
  | grow _ _ htypes _ => exact htypes
  | enter _ _ hc => rw [hc]; exact List.prefix_rfl

/-- What a scope holds is never lost. -/
theorem layout? (h : Change c c') {id : ScopeId} {l : Layout} (hl : c.schema.layout? id = some l) :
    ∃ l', c'.schema.layout? id = some l' ∧ Extends c l l' := by
  cases h with
  | grow _ _ _ hlayouts => exact hlayouts id l hl
  | enter _ _ hc =>
    obtain ⟨scope, hs, -⟩ := Option.bind_eq_some_iff.1 hl
    subst hc
    exact ⟨l, (layout?_addScope_of_has (has_of_scope? hs) _).trans hl, .same⟩

/-- What a scope holds was held a moment ago, but for one entry, or the scope is new. -/
theorem layout?_cases (h : Change c c') {id : ScopeId} {l' : Layout}
    (hl' : c'.schema.layout? id = some l') :
    (∃ l, c.schema.layout? id = some l ∧ Extends c l l') ∨
      ∃ d task scope, id = c.schema.nextId ∧ c.schema.Has d ∧ Opens c.schema d task scope ∧
        c' = c.mapSchema (·.addScope scope) ∧ scope.layout? = some l' := by
  obtain ⟨scope', hs', hlayout⟩ := Option.bind_eq_some_iff.1 hl'
  cases h with
  | grow hshapes _ _ hlayouts =>
    obtain ⟨scope, hs, heq⟩ := hshapes.symm.keeps id scope' hs'
    have hstruct : scope.layout?.isSome := by
      have h' : scope.isStruct = scope'.isStruct := by
        rw [Scope.isStruct_eq heq]
      unfold Scope.isStruct at h'
      rw [h', hlayout]
      rfl
    obtain ⟨l, hl⟩ := Option.isSome_iff_exists.1 hstruct
    have hl : c.schema.layout? id = some l := Option.bind_eq_some_iff.2 ⟨scope, hs, hl⟩
    obtain ⟨found, hfound, hext⟩ := hlayouts id l hl
    rw [hl'] at hfound
    cases hfound
    exact .inl ⟨l, hl, hext⟩
  | @enter d task scope hd hopens hc =>
    subst hc
    unfold mapSchema at hs'
    rw [scope?_addScope] at hs'
    split at hs'
    · cases hs'
      exact .inr ⟨d, task, _, ‹_›, hd, hopens, rfl, hlayout⟩
    · exact .inl ⟨l', Option.bind_eq_some_iff.2 ⟨scope', hs', hlayout⟩, .same⟩

end Change

/-- Every step is one change or none. -/
theorem Step.change {st st' : Stage} (h : Step st st') (hst : st.Sound) :
    st'.moments = st.moments ∨
      ∃ c, st'.moments = c :: st.moments ∧ Change st.now c := by
  cases h with
  | note h =>
    exact .inr ⟨_, rfl, .of_layouts_eq (.of_scopes_eq h.scopes_eq) h.options_eq h.types_prefix
      (layout?_of_scopes_eq h.scopes_eq)⟩
  | field field hl hnew => exact .inr ⟨_, rfl, .modifyLayout hl (.field field hnew)⟩
  | constraint hl hfits hsame =>
    exact .inr ⟨_, rfl, .modifyLayout hl (.constraint hfits hsame)⟩
  | announce _ _ => exact .inl rfl
  | enter h => exact .inr ⟨_, rfl, .enter hst.nested.has h rfl⟩
  | leave _ _ => exact .inl rfl
  | assign t => exact .inr ⟨_, rfl, .bind _ _ _ _⟩
  | conclude _ _ => exact .inr ⟨_, rfl, .bind _ _ _ _⟩
  | register _ _ _ hl hnew => exact .inr ⟨_, rfl, .modifyLayout hl (.branch _ hnew)⟩

theorem Steps.history {options : Options} {st : Stage} (h : Steps (.start options) st) :
    History st.moments := by
  induction h with
  | refl => exact .start options
  | tail hsteps h ih =>
    obtain heq | ⟨c, heq, hc⟩ := h.change (Steps.sound hsteps (Stage.sound_start options))
    · exact heq ▸ ih
    · rw [heq]
      exact .step ih hc

theorem Steps.options_eq {options : Options} {st : Stage} (h : Steps (.start options) st) :
    st.now.options = options := by
  induction h with
  | refl => rfl
  | tail hsteps h ih =>
    obtain heq | ⟨c, heq, hc⟩ := h.change (Steps.sound hsteps (Stage.sound_start options))
    · rw [← ih]
      exact congrArg Compilation.options (List.head_eq_of_cons_eq heq)
    · rw [← ih, ← hc.options_eq]
      exact congrArg Compilation.options (List.head_eq_of_cons_eq heq)

theorem History.rooted {c : Compilation} {past : List Compilation} (h : History (c :: past)) :
    c.schema.Rooted := by
  generalize hm : c :: past = moments at h
  induction h generalizing c past with
  | start options =>
    cases hm
    exact rooted_empty
  | step _ hc ih =>
    cases hm
    exact hc.rooted (ih rfl)

/-- A step adds one moment at most. -/
theorem Step.moments {st st' : Stage} (h : Step st st') :
    st'.moments = st.moments ∨ st'.moments = st'.now :: st.moments := by
  cases h <;> first | exact .inl rfl | exact .inr rfl

theorem Steps.moments_suffix {st st' : Stage} (h : Steps st st') : st.moments <:+ st'.moments := by
  induction h with
  | refl => exact List.suffix_rfl
  | tail _ h ih =>
    obtain heq | heq := h.moments
    · rwa [heq]
    · rw [heq]
      exact ih.trans (List.suffix_cons _ _)

/-- What holds at the start and is kept by every step holds at all moments. -/
theorem Steps.forall_moments {options : Options} {P : Compilation → Prop} {st : Stage}
    (h : Steps (.start options) st) (hstart : P (.start options))
    (hstep : ∀ st st', Steps (.start options) st → Step st st' → P st.now → P st'.now) :
    ∀ c ∈ st.moments, P c := by
  have hall : P st.now ∧ ∀ c ∈ st.moments, P c := by
    induction h with
    | refl =>
      refine ⟨hstart, fun c hc => ?_⟩
      rwa [List.mem_singleton.1 hc]
    | tail hsteps h ih =>
      have hnow := hstep _ _ hsteps h ih.1
      refine ⟨hnow, fun c hc => ?_⟩
      obtain heq | heq := h.moments
      · exact ih.2 c (heq ▸ hc)
      · rw [heq] at hc
        obtain rfl | hc := List.mem_cons.1 hc
        · exact hnow
        · exact ih.2 c hc
  exact hall.2

/-- What is recorded are the moments of a machine, be the compilation successful or not. -/
theorem exists_steps (options : Options) (sources : List (String × String)) :
    ∃ fs, Steps (.start options) ⟨(recorded options sources).2, fs⟩ := by
  rcases hrun : recorded options sources with ⟨e | ⟨⟩, r⟩
  · obtain ⟨fs, hsteps, -⟩ := recorded_error hrun
    exact ⟨fs, hsteps⟩
  · exact ⟨_, recorded_ok hrun⟩

/-- Steps lead to a compiled schema, and nothing but its root is open in the end. -/
theorem steps_of_ok {options : Options} {sources : List (String × String)} {s : Schema}
    (h : ofSources options sources = .ok s) :
    ∃ r, history options sources = r.current :: r.past ∧ r.current.schema = s ∧
      Steps (.start options) ⟨r, [⟨root, .idle⟩]⟩ := by
  obtain ⟨r, hrun, hschema⟩ := recorded_of_ok h
  have hhistory : history options sources = r.current :: r.past := by
    rw [history, hrun]
    rfl
  exact ⟨r, hhistory, hschema, recorded_ok hrun⟩

/-- A compiled schema is what the last moment of its history holds. -/
theorem history_of_ok {options : Options} {sources : List (String × String)} {s : Schema}
    (h : ofSources options sources = .ok s) :
    ∃ c past, history options sources = c :: past ∧ c.schema = s ∧ c.options = options ∧
      History (c :: past) := by
  obtain ⟨r, hhistory, hschema, hsteps⟩ := steps_of_ok h
  exact ⟨r.current, r.past, hhistory, hschema, hsteps.options_eq, hsteps.history⟩

theorem exists_ok {ε α : Type} {x : Except ε α} {p : α → Bool}
    (h : x.toOption.any p = true) : ∃ a, x = .ok a ∧ p a = true := by
  cases x with
  | error e => cases h
  | ok a => exact ⟨a, rfl, h⟩

end PacketSchema.Compilation
