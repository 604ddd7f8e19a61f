import PacketSchema.Proofs.Schema.Ancestors

/-! What the operations on a schema do to its scopes. They add scopes at the end and change layouts
and names, never the shape of a scope that is there. -/

namespace PacketSchema.Schema

theorem scope?_addScope (s : Schema) (scope : Scope) (id : ScopeId) :
    (s.addScope scope).scope? id = if id = s.nextId then some scope else s.scope? id := by
  unfold scope? addScope
  by_cases h : id = s.nextId
  · subst h
    simp [nextId]
  · have hne : id.index ≠ s.scopes.length := fun heq => h (congrArg ScopeId.mk heq)
    rw [if_neg h, List.getElem?_append]
    split
    · rfl
    · rw [List.getElem?_eq_none (by simp; omega), List.getElem?_eq_none (by omega)]

theorem scope?_nextId (s : Schema) : s.scope? s.nextId = none :=
  List.getElem?_eq_none (Nat.le_refl _)

theorem scope?_addScope_self (s : Schema) (scope : Scope) :
    (s.addScope scope).scope? s.nextId = some scope := by
  rw [scope?_addScope, if_pos rfl]

theorem has_addScope (s : Schema) (scope : Scope) : (s.addScope scope).Has s.nextId :=
  has_of_scope? (scope?_addScope_self s scope)

theorem scope?_addScope_of_has {s : Schema} {id : ScopeId} (h : s.Has id) (scope : Scope) :
    (s.addScope scope).scope? id = s.scope? id := by
  rw [scope?_addScope, if_neg]
  rintro rfl
  exact Nat.lt_irrefl _ h

theorem scope?_modifyScope (s : Schema) (id x : ScopeId) (f : Scope → Scope) :
    (s.modifyScope id f).scope? x = if x = id then (s.scope? x).map f else s.scope? x := by
  unfold scope? modifyScope
  rw [List.getElem?_modify]
  by_cases h : x = id
  · subst h
    simp
  · have hne : id.index ≠ x.index := fun heq => h (congrArg ScopeId.mk heq.symm)
    simp [h, hne]

theorem layout?_modifyLayout (s : Schema) (id x : ScopeId) (f : Layout → Layout) :
    (s.modifyLayout id f).layout? x = if x = id then (s.layout? x).map f else s.layout? x := by
  unfold layout? modifyLayout
  rw [scope?_modifyScope]
  split
  · cases hs : s.scope? x with
    | none => rfl
    | some scope =>
      cases hk : scope.kind <;> simp [Scope.layout?, hk, ScopeKind.mapLayout, ScopeKind.layout?]
  · rfl

/-- What becomes of the layouts when one that is there is changed. -/
theorem layout?_modifyLayout_of_some {s : Schema} {d : ScopeId} {l : Layout}
    (hl : s.layout? d = some l) (f : Layout → Layout) (x : ScopeId) :
    (s.modifyLayout d f).layout? x = if x = d then some (f l) else s.layout? x := by
  rw [layout?_modifyLayout]
  split
  · rename_i hx
    rw [hx, hl]
    rfl
  · rfl

theorem names_modifyLayout (s : Schema) (id x : ScopeId) (f : Layout → Layout) :
    ((s.modifyLayout id f).scope? x).map Scope.names = (s.scope? x).map Scope.names := by
  unfold modifyLayout
  rw [scope?_modifyScope]
  split
  · cases s.scope? x <;> rfl
  · rfl

/-- What a change of layouts leaves alone is the same of every layout. -/
theorem map_layout?_modifyLayout {α : Type} {g : Layout → α} {f : Layout → Layout} {id : ScopeId}
    (s : Schema) (x : ScopeId) (hf : ∀ l, g (f l) = g l) :
    ((s.modifyLayout id f).layout? x).map g = (s.layout? x).map g := by
  rw [layout?_modifyLayout]
  split
  · cases s.layout? x with
    | none => rfl
    | some l => simp [hf]
  · rfl

theorem layout?_bind (s : Schema) (d x : ScopeId) (name : String) (item : Item) :
    (s.bind d name item).layout? x = s.layout? x := by
  unfold layout? bind
  rw [scope?_modifyScope]
  split
  · cases s.scope? x <;> rfl
  · rfl

theorem layout?_addScope_of_has {s : Schema} {id : ScopeId} (h : s.Has id) (scope : Scope) :
    (s.addScope scope).layout? id = s.layout? id := by
  unfold layout?
  rw [scope?_addScope_of_has h]

theorem layout?_of_scopes_eq {s s' : Schema} (h : s'.scopes = s.scopes) (id : ScopeId) :
    s'.layout? id = s.layout? id := by
  unfold layout? scope?
  rw [h]

/-! ## Shapes -/

/-- The same scopes with the same shapes. -/
def SameShapes (s s' : Schema) : Prop :=
  ∀ id, (s'.scope? id).map Scope.shape = (s.scope? id).map Scope.shape

namespace SameShapes

variable {s s' : Schema}

theorem of_scopes_eq (h : s'.scopes = s.scopes) : s.SameShapes s' := by
  intro id
  unfold scope?
  rw [h]

theorem modifyScope {id : ScopeId} {f : Scope → Scope}
    (hf : ∀ scope, (f scope).shape = scope.shape) : s.SameShapes (s.modifyScope id f) := by
  intro x
  rw [scope?_modifyScope]
  split
  · cases s.scope? x with
    | none => rfl
    | some scope => exact congrArg some (hf scope)
  · rfl

theorem modifyLayout (s : Schema) (id : ScopeId) (f : Layout → Layout) :
    s.SameShapes (s.modifyLayout id f) := by
  apply modifyScope
  intro scope
  unfold Scope.shape
  cases scope.kind <;> rfl

theorem bind (s : Schema) (d : ScopeId) (name : String) (item : Item) :
    s.SameShapes (s.bind d name item) :=
  modifyScope fun _ => rfl

theorem keeps (h : s.SameShapes s') : s.Keeps s' := by
  intro id scope hs
  have hid := h id
  rw [hs] at hid
  obtain ⟨scope', hs', heq⟩ := Option.map_eq_some_iff.1 hid
  exact ⟨scope', hs', heq⟩

theorem symm (h : s.SameShapes s') : s'.SameShapes s := fun id => (h id).symm

theorem rooted (h : s.SameShapes s') (hr : s.Rooted) : s'.Rooted where
  parent_lt := by
    intro id scope' p hs' hp
    obtain ⟨scope, hs, heq⟩ := h.symm.keeps id scope' hs'
    apply hr.parent_lt hs
    rw [Scope.parent_eq heq, hp]
  root := by
    intro id scope' hs' hp
    obtain ⟨scope, hs, heq⟩ := h.symm.keeps id scope' hs'
    obtain ⟨hid, hname, hkind⟩ := hr.root hs (by
      rw [Scope.parent_eq heq, hp])
    refine ⟨hid, ?_, ?_⟩
    · rw [Scope.name_eq heq.symm, hname]
    · have hk : scope'.shape.kind = .space := by rw [← heq, Scope.shape, hkind]; rfl
      unfold Scope.shape at hk
      cases hk' : scope'.kind <;> simp [hk', ScopeKind.mapLayout] at hk
      rfl

end SameShapes

theorem keeps_addScope (s : Schema) (scope : Scope) : s.Keeps (s.addScope scope) := by
  intro id found hs
  exact ⟨found, by rw [scope?_addScope_of_has (has_of_scope? hs), hs], rfl⟩

theorem Rooted.addScope {s : Schema} (hr : s.Rooted) {scope : Scope} {d : ScopeId}
    (hd : s.Has d) (hp : scope.parent = some d) : (s.addScope scope).Rooted where
  parent_lt := by
    intro id found p hs hfound
    rw [scope?_addScope] at hs
    split at hs
    · rename_i hid
      cases hs
      rw [hp] at hfound
      cases hfound
      rw [hid]
      exact hd
    · exact hr.parent_lt hs hfound
  root := by
    intro id found hs hfound
    rw [scope?_addScope] at hs
    split at hs
    · cases hs
      rw [hp] at hfound
      cases hfound
    · exact hr.root hs hfound

theorem rooted_empty : empty.Rooted where
  parent_lt := by
    intro id scope p hs hp
    obtain ⟨hlt, heq⟩ := List.getElem?_eq_some_iff.1 hs
    have h0 : id.index = 0 := by simpa [empty] using hlt
    simp [empty, h0] at heq
    subst heq
    cases hp
  root := by
    intro id scope hs hp
    obtain ⟨hlt, heq⟩ := List.getElem?_eq_some_iff.1 hs
    have h0 : id.index = 0 := by simpa [empty] using hlt
    simp [empty, h0] at heq
    subst heq
    exact ⟨congrArg ScopeId.mk h0, rfl, rfl⟩

/-! ## Names -/

theorem getLocal?_keeps {s s' : Schema} (hk : s.Keeps s') (hr : s.Rooted) (hr' : s'.Rooted)
    {x : ScopeId} (hx : s.Has x)
    (hnames : (s'.scope? (s.namesOwner x)).map Scope.names =
      (s.scope? (s.namesOwner x)).map Scope.names) (name : String) :
    s'.getLocal? x name = s.getLocal? x name := by
  unfold getLocal? names
  rw [hk.namesOwner hr hr' hx, hnames]

theorem getLocal?_modifyLayout {s : Schema} (hr : s.Rooted) {x : ScopeId} (hx : s.Has x)
    (id : ScopeId) (f : Layout → Layout) (name : String) :
    (s.modifyLayout id f).getLocal? x name = s.getLocal? x name := by
  have hsame := SameShapes.modifyLayout s id f
  exact getLocal?_keeps hsame.keeps hr (hsame.rooted hr) hx (names_modifyLayout _ _ _ _) name

theorem getLocal?_addScope {s : Schema} (hr : s.Rooted) {x : ScopeId} (hx : s.Has x) {scope : Scope}
    (hr' : (s.addScope scope).Rooted) (name : String) :
    (s.addScope scope).getLocal? x name = s.getLocal? x name := by
  apply getLocal?_keeps (keeps_addScope s scope) hr hr' hx
  obtain ⟨owner, ho, -, -⟩ := hr.namesOwner_spec hx
  rw [scope?_addScope_of_has (has_of_scope? ho)]

/-- A free name comes last among those of its owner. -/
theorem entries_insert_of_free {s : Schema} {d : ScopeId} {owner : Scope} {name : String}
    (ho : s.scope? (s.namesOwner d) = some owner) (hfree : s.getLocal? d name = none)
    (item : Item) :
    (owner.names.insert name item).entries = owner.names.entries ++ [(name, item)] := by
  unfold getLocal? names at hfree
  rw [ho] at hfree
  exact Table.entries_insert_of_find?_eq_none hfree item

/-- What a scope binds after a name has been bound: what it bound before and, if it is the owner,
this name behind it. -/
theorem entries_of_bind {s : Schema} {d id : ScopeId} {name : String} {item : Item}
    {scope' : Scope} (hfree : s.getLocal? d name = none)
    (hs' : (s.bind d name item).scope? id = some scope') :
    ∃ scope, s.scope? id = some scope ∧ scope'.names.entries =
      scope.names.entries ++ if id = s.namesOwner d then [(name, item)] else [] := by
  unfold bind at hs'
  rw [scope?_modifyScope] at hs'
  split at hs'
  · rename_i hid
    subst hid
    obtain ⟨scope, hs, rfl⟩ := Option.map_eq_some_iff.1 hs'
    refine ⟨scope, hs, ?_⟩
    rw [if_pos rfl]
    exact entries_insert_of_free hs hfree item
  · rename_i hid
    refine ⟨scope', hs', ?_⟩
    rw [if_neg hid, List.append_nil]

/-- An entry that is there after a name has been bound was there before or is the new one. -/
theorem entry_of_bind {s : Schema} {d id : ScopeId} {name : String} {item : Item}
    {scope' : Scope} {entry : String × Item} (hfree : s.getLocal? d name = none)
    (hs' : (s.bind d name item).scope? id = some scope') (hmem : entry ∈ scope'.names.entries) :
    (∃ scope, s.scope? id = some scope ∧ entry ∈ scope.names.entries) ∨
      id = s.namesOwner d ∧ entry = (name, item) := by
  obtain ⟨scope, hs, hentries⟩ := entries_of_bind hfree hs'
  rw [hentries, List.mem_append] at hmem
  obtain hmem | hmem := hmem
  · exact .inl ⟨scope, hs, hmem⟩
  · split at hmem
    · rename_i hid
      exact .inr ⟨hid, List.mem_singleton.1 hmem⟩
    · cases hmem

/-- Binding a name changes what it means in the scopes with the same owner of names. -/
theorem getLocal?_bind {s : Schema} (hr : s.Rooted) {d x : ScopeId} (hd : s.Has d) (hx : s.Has x)
    (name other : String) (item : Item) :
    (s.bind d name item).getLocal? x other =
      if s.namesOwner x = s.namesOwner d ∧ name = other then some item
      else s.getLocal? x other := by
  have hsame := SameShapes.bind s d name item
  obtain ⟨owner, ho, -, -⟩ := hr.namesOwner_spec hd
  unfold getLocal? names
  rw [hsame.keeps.namesOwner hr (hsame.rooted hr) hx]
  unfold bind
  rw [scope?_modifyScope]
  by_cases h : s.namesOwner x = s.namesOwner d
  · rw [h, if_pos rfl, ho]
    simp [Table.find?_insert]
  · simp [h]

end PacketSchema.Schema
