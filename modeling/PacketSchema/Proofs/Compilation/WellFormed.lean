import PacketSchema.Proofs.Compilation.Completing

/-! Well-formed schemas. Every number in them stands for a scope or an applied type that is there
and of the right kind, and every applied type has a length that its builtin takes. The operations on
a schema keep this up, whatever else they are given. -/

namespace PacketSchema

/-- The lengths that a builtin takes: the word for what is left is for bytes only. -/
def Length.Fits (owner : Builtin) : Length → Prop
  | fixed count => (count : Int) ≤ Literal.maxNumber
  | prefixed b => b.isInteger = true
  | remaining => owner = .bytes

namespace Compilation

open Schema

/-- The scopes of one schema are in the other with the same shapes, and applied types keep their
numbers. -/
structure Continues (s s' : Schema) : Prop where
  keeps : s.Keeps s'
  types_prefix : s.types.types <+: s'.types.types

/-- What names, fields, branches and other types may refer to. A builtin that takes arguments is
referred to as an applied type only. -/
structure Refers (s : Schema) (m : Node) : Prop where
  isNode : IsNode s m
  plain : ∀ b, m = .type (.builtin b) → b.isParameterized = false

structure LayoutWellFormed (s : Schema) (l : Layout) : Prop where
  fields : ∀ {name field}, (name, field) ∈ l.fields.entries → Refers s (.type field.type)
  branches : ∀ {path id}, (path, id) ∈ l.branches.entries → Refers s (.type (.struct id))
  order : ∀ {path id}, .branch path id ∈ l.order → Refers s (.type (.struct id))

structure ScopeWellFormed (s : Schema) (scope : Scope) : Prop where
  base : ∀ {b}, scope.kind.base? = some b → Refers s (.type (.struct b))
  layout : ∀ {l}, scope.layout? = some l → LayoutWellFormed s l
  names : ∀ {name item}, (name, item) ∈ scope.names.entries → Refers s item.node

structure ParamWellFormed (s : Schema) (t : ParamType) : Prop where
  length : ∀ {l}, t.length? = some l → l.Fits t.constructor
  elem : ∀ {u}, t.elem? = some u → Refers s (.type u)

structure WellFormed (s : Schema) : Prop where
  rooted : s.Rooted
  root : s.Has root
  scope : ∀ {id scope}, s.scope? id = some scope → ScopeWellFormed s scope
  param : ∀ {id t}, s.param? id = some t → ParamWellFormed s t
  older : ∀ {id t e}, s.param? id = some t → t.elem? = some (.param e) → e.index < id.index
  inverse : s.types.Inverse

/-! ## What stays -/

namespace Continues

variable {s s₁ s' : Schema}

theorem refl (s : Schema) : Continues s s := ⟨.refl s, List.prefix_rfl⟩

theorem trans (h : Continues s s₁) (h' : Continues s₁ s') : Continues s s' :=
  ⟨h.keeps.trans h'.keeps, h.types_prefix.trans h'.types_prefix⟩

theorem of_shapes (h : s.SameShapes s') (ht : s'.types = s.types) : Continues s s' :=
  ⟨h.keeps, ht ▸ List.prefix_rfl⟩

theorem addScope (s : Schema) (scope : Scope) : Continues s (s.addScope scope) :=
  ⟨keeps_addScope s scope, List.prefix_rfl⟩

theorem intern (s : Schema) (t : ParamType) : Continues s (s.intern t) :=
  ⟨.refl s, s.types.types_prefix_intern t⟩

theorem has (h : Continues s s') {id : ScopeId} (hid : s.Has id) : s'.Has id := h.keeps.has hid

theorem refers (h : Continues s s') {m : Node} (hm : Refers s m) : Refers s' m :=
  ⟨hm.isNode.keeps h.keeps h.types_prefix, hm.plain⟩

theorem layout (h : Continues s s') {l : Layout} (hl : LayoutWellFormed s l) :
    LayoutWellFormed s' l where
  fields := fun hmem => h.refers (hl.fields hmem)
  branches := fun hmem => h.refers (hl.branches hmem)
  order := fun hmem => h.refers (hl.order hmem)

theorem scope (h : Continues s s') {scope : Scope} (hs : ScopeWellFormed s scope) :
    ScopeWellFormed s' scope where
  base := fun hb => h.refers (hs.base hb)
  layout := fun hl => h.layout (hs.layout hl)
  names := fun hmem => h.refers (hs.names hmem)

theorem param (h : Continues s s') {t : ParamType} (ht : ParamWellFormed s t) :
    ParamWellFormed s' t where
  length := ht.length
  elem := fun hu => h.refers (ht.elem hu)

end Continues

/-! ## What operations do -/

section

variable {s : Schema}

/-- What the name of a scope would be bound to may be referred to, unless the scope is a proxy. -/
theorem refers_item {id : ScopeId} {scope : Scope} (hs : s.scope? id = some scope)
    (hp : scope.isProxy = false) : Refers s (scope.item id).node := by
  refine ⟨isNode_item hs hp, fun b h => ?_⟩
  have hscope := scope.item_node_scope? id
  rw [h] at hscope
  cases hscope

theorem layoutWellFormed_empty (s : Schema) : LayoutWellFormed s {} where
  fields := fun h => absurd h List.not_mem_nil
  branches := fun h => absurd h List.not_mem_nil
  order := fun h => absurd h List.not_mem_nil

namespace LayoutWellFormed

variable {l : Layout} (h : LayoutWellFormed s l)

include h

theorem snapshot : LayoutWellFormed s l.snapshot where
  fields := h.fields
  branches := fun h => absurd h List.not_mem_nil
  order := fun h => absurd h List.not_mem_nil

/-- What is listed last is no branch or leads to a struct. -/
theorem order_concat {e : Entry}
    (he : ∀ path id, e = .branch path id → Refers s (.type (.struct id))) {path : Path}
    {id : ScopeId} (hmem : .branch path id ∈ l.order ++ [e]) : Refers s (.type (.struct id)) := by
  obtain hmem | hmem := List.mem_append.1 hmem
  · exact h.order hmem
  · exact he path id (List.mem_singleton.1 hmem).symm

theorem addField (name : String) {field : Field} (hfield : Refers s (.type field.type)) :
    LayoutWellFormed s (l.addField name field) where
  fields := by
    intro other held hmem
    obtain heq | hmem := Table.mem_insert hmem
    · cases heq
      exact hfield
    · exact h.fields hmem
  branches := h.branches
  order := h.order_concat (by simp)

theorem addConstraint (name : String) (value : Literal) :
    LayoutWellFormed s (l.addConstraint name value) where
  fields := h.fields
  branches := h.branches
  order := h.order_concat (by simp)

theorem addBranch (path : Path) {id : ScopeId} (hid : Refers s (.type (.struct id))) :
    LayoutWellFormed s (l.addBranch path id) where
  fields := h.fields
  branches := by
    intro other held hmem
    obtain heq | hmem := Table.mem_insert hmem
    · cases heq
      exact hid
    · exact h.branches hmem
  order := by
    refine h.order_concat ?_
    rintro _ _ ⟨⟩
    exact hid

end LayoutWellFormed

theorem wellFormed_empty : WellFormed .empty where
  rooted := rooted_empty
  root := Nat.zero_lt_one
  scope := by
    intro id scope hs
    cases List.mem_singleton.1 (List.mem_of_getElem? hs)
    exact ⟨fun h => (by cases h), fun h => (by cases h), fun h => absurd h List.not_mem_nil⟩
  param := fun h => by cases h
  older := fun h => by cases h
  inverse := TypeCache.inverse_empty

namespace WellFormed

variable {s' : Schema} (h : WellFormed s)

include h

theorem layout {id : ScopeId} {l : Layout} (hl : s.layout? id = some l) : LayoutWellFormed s l := by
  obtain ⟨scope, hs, hlayout⟩ := Option.bind_eq_some_iff.1 hl
  exact (h.scope hs).layout hlayout

/-- Scopes may change as long as they keep their shapes and stay well formed by themselves. -/
theorem of_shapes (hshapes : s.SameShapes s') (ht : s'.types = s.types)
    (hscope : ∀ id scope', s'.scope? id = some scope' → ScopeWellFormed s scope') :
    WellFormed s' := by
  have hc := Continues.of_shapes hshapes ht
  have hparam : ∀ {id}, s'.param? id = s.param? id := by
    intro id
    unfold param?
    rw [ht]
  constructor
  case rooted => exact hshapes.rooted h.rooted
  case root => exact hc.has h.root
  case scope => exact fun hs => hc.scope (hscope _ _ hs)
  case param => exact fun hp => hc.param (h.param (hparam ▸ hp))
  case older => exact fun hp => h.older (hparam ▸ hp)
  case inverse => exact ht ▸ h.inverse

theorem of_scopes_eq (hs : s'.scopes = s.scopes) (ht : s'.types = s.types) : WellFormed s' := by
  refine h.of_shapes (.of_scopes_eq hs) ht fun id scope hscope => ?_
  have hsame : s.scope? id = s'.scope? id := congrArg (·[id.index]?) hs.symm
  exact h.scope (hsame.trans hscope)

theorem modifyScope (id : ScopeId) {f : Scope → Scope}
    (hshape : ∀ scope, (f scope).shape = scope.shape)
    (hf : ∀ scope, ScopeWellFormed s scope → ScopeWellFormed s (f scope)) :
    WellFormed (s.modifyScope id f) := by
  refine h.of_shapes (.modifyScope hshape) rfl fun x scope' hs' => ?_
  rw [scope?_modifyScope] at hs'
  split at hs'
  · obtain ⟨scope, hs, rfl⟩ := Option.map_eq_some_iff.1 hs'
    exact hf scope (h.scope hs)
  · exact h.scope hs'

theorem modifyLayout (id : ScopeId) {f : Layout → Layout}
    (hf : ∀ l, LayoutWellFormed s l → LayoutWellFormed s (f l)) :
    WellFormed (s.modifyLayout id f) := by
  refine h.of_shapes (.modifyLayout _ _ _) rfl fun x scope' hs' => ?_
  unfold Schema.modifyLayout at hs'
  rw [scope?_modifyScope] at hs'
  split at hs'
  · obtain ⟨scope, hs, rfl⟩ := Option.map_eq_some_iff.1 hs'
    have hscope := h.scope hs
    obtain ⟨name, parent, position, kind, names⟩ := scope
    refine ⟨?_, ?_, hscope.names⟩
    · intro b hb
      refine hscope.base ?_
      cases kind <;> exact hb
    · intro l hl
      cases kind <;> cases hl <;> exact hf _ (hscope.layout rfl)
  · exact h.scope hs'

theorem bind (d : ScopeId) (name : String) {item : Item} (hitem : Refers s item.node) :
    WellFormed (s.bind d name item) := by
  refine h.modifyScope _ (fun _ => rfl) fun scope hscope => ⟨hscope.base, hscope.layout, ?_⟩
  intro other held hmem
  obtain heq | hmem := Table.mem_insert hmem
  · cases heq
    exact hitem
  · exact hscope.names hmem

theorem addScope {d : ScopeId} (hd : s.Has d) {scope : Scope} (hp : scope.parent = some d)
    (hscope : ScopeWellFormed s scope) : WellFormed (s.addScope scope) := by
  have hc := Continues.addScope s scope
  constructor
  case rooted => exact h.rooted.addScope hd hp
  case root => exact hc.has h.root
  case scope =>
    intro id found hs
    rw [scope?_addScope] at hs
    split at hs
    · cases hs
      exact hc.scope hscope
    · exact hc.scope (h.scope hs)
  case param => exact fun hp => hc.param (h.param hp)
  case older => exact h.older
  case inverse => exact h.inverse

/-- The number of an applied type is that of a type that is there. -/
theorem refers_intern (t : ParamType) :
    Refers (s.intern t) (.type (.param (s.types.intern t).1)) := by
  refine ⟨⟨t, ?_⟩, fun _ h => by cases h⟩
  rw [param?_intern]
  cases hfound : s.types.find? t with
  | none => rw [TypeCache.intern_of_new hfound, if_pos ⟨rfl, rfl⟩]
  | some id =>
    rw [TypeCache.intern_of_found hfound, if_neg (by simp)]
    exact (h.inverse t id).1 hfound

theorem intern {t : ParamType} (ht : ParamWellFormed s t) : WellFormed (s.intern t) := by
  have hc := Continues.intern s t
  have hparam : ∀ {id u}, (s.intern t).param? id = some u →
      id = ⟨s.types.size⟩ ∧ u = t ∨ s.param? id = some u := by
    intro id u hu
    rw [param?_intern] at hu
    split at hu
    · rename_i hnew
      exact .inl ⟨hnew.2, (Option.some.inj hu).symm⟩
    · exact .inr hu
  constructor
  case rooted => exact SameShapes.rooted (s := s) (.of_scopes_eq rfl) h.rooted
  case root => exact h.root
  case scope => exact fun hs => hc.scope (h.scope hs)
  case param =>
    intro id u hu
    obtain ⟨-, rfl⟩ | hu := hparam hu
    · exact hc.param ht
    · exact hc.param (h.param hu)
  case older =>
    intro id u e hu he
    obtain ⟨rfl, rfl⟩ | hu := hparam hu
    · obtain ⟨held, hheld⟩ := (ht.elem he).isNode
      exact (List.getElem?_eq_some_iff.1 hheld).1
    · exact h.older hu he
  case inverse => exact h.inverse.intern t

theorem refers_of_lookup? {d : ScopeId} {path : Path} {item : Item}
    (hfound : s.lookup? d path = some item) : Refers s item.node := by
  obtain ⟨x, scope, name, hs, hmem⟩ := mem_names_of_lookup? hfound
  exact (h.scope hs).names hmem

/-- What a variant branches from is a struct that is no proxy. -/
theorem refers_base {d : ScopeId} (hd : s.Has d) {source : Option ScopeId} {path : Option Path}
    {a : Anchor} (hclimb : climb source path (s.chain d) = some a) :
    Refers s (.type (.struct a.base)) := by
  obtain ⟨link, hlink, heq⟩ := Option.map_eq_some_iff.1 (climb_base hclimb)
  have hs := h.rooted.scope?_of_mem_chain hd (List.mem_of_find?_eq_some hlink)
  have hkind := List.find?_some hlink
  rw [Bool.and_eq_true, Bool.not_eq_true'] at hkind
  have hrefers := refers_item hs hkind.2
  rwa [Scope.item_of_isStruct hkind.1, heq] at hrefers

end WellFormed

end

end Compilation

end PacketSchema
