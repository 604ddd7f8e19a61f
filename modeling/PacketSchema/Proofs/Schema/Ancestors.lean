import Mathlib
import PacketSchema.Compilation.Basic

/-! The scopes around a scope. Which they are, who binds the names of a scope and what a variant
branches from depend only on what never changes about scopes: name, parent and kind. -/

namespace PacketSchema

/-- What never changes about a scope. -/
def Scope.shape (scope : Scope) : Scope :=
  { scope with kind := scope.kind.mapLayout fun _ => {}, names := {} }

namespace Scope

variable (scope : Scope)

@[simp] theorem shape_name : scope.shape.name = scope.name := rfl

@[simp] theorem shape_parent : scope.shape.parent = scope.parent := rfl

@[simp] theorem shape_isProxy : scope.shape.isProxy = scope.isProxy := by
  unfold shape isProxy
  cases scope.kind <;> rfl

@[simp] theorem shape_isStruct : scope.shape.isStruct = scope.isStruct := by
  unfold shape isStruct layout?
  cases scope.kind <;> rfl

@[simp] theorem shape_base? : scope.shape.kind.base? = scope.kind.base? := by
  unfold shape
  cases scope.kind <;> rfl

@[simp] theorem shape_path? : scope.shape.kind.path? = scope.kind.path? := by
  unfold shape
  cases scope.kind <;> rfl

section

variable {scope scope' : Scope} (h : scope'.shape = scope.shape)

include h

theorem name_eq : scope'.name = scope.name := by rw [← shape_name, h, shape_name]

theorem parent_eq : scope'.parent = scope.parent := by rw [← shape_parent, h, shape_parent]

theorem isProxy_eq : scope'.isProxy = scope.isProxy := by rw [← shape_isProxy, h, shape_isProxy]

theorem isStruct_eq : scope'.isStruct = scope.isStruct := by
  rw [← shape_isStruct, h, shape_isStruct]

theorem base?_eq : scope'.kind.base? = scope.kind.base? := by rw [← shape_base?, h, shape_base?]

theorem path?_eq : scope'.kind.path? = scope.kind.path? := by rw [← shape_path?, h, shape_path?]

end

theorem isStruct_iff {scope : Scope} :
    scope.isStruct = true ↔ ∃ layout, scope.layout? = some layout :=
  Option.isSome_iff_exists

end Scope

namespace Schema

/-- The scopes of one schema are in the other with the same shapes. -/
def Keeps (s s' : Schema) : Prop :=
  ∀ id scope, s.scope? id = some scope →
    ∃ scope', s'.scope? id = some scope' ∧ scope'.shape = scope.shape

theorem Keeps.refl (s : Schema) : s.Keeps s := fun _ scope h => ⟨scope, h, rfl⟩

theorem Keeps.trans {s₁ s₂ s₃ : Schema} (h : s₁.Keeps s₂) (h' : s₂.Keeps s₃) : s₁.Keeps s₃ := by
  intro id scope hs
  obtain ⟨scope₂, hs₂, heq₂⟩ := h id scope hs
  obtain ⟨scope₃, hs₃, heq₃⟩ := h' id scope₂ hs₂
  exact ⟨scope₃, hs₃, heq₃.trans heq₂⟩

/-- The nearest scope around a scope that satisfies a condition. -/
def enclosing? (s : Schema) (id : ScopeId) (p : Scope → Bool) : Option ScopeId :=
  ((s.chain id).tail.find? fun link => p link.2).map Prod.fst

/-- A scope is the other one or stands somewhere in it. -/
def Around (s : Schema) (id x : ScopeId) : Prop := x ∈ (s.chain id).map Prod.fst

/-- A number that a schema has given to a scope. -/
def Has (s : Schema) (id : ScopeId) : Prop := id.index < s.scopes.length

theorem has_of_scope? {s : Schema} {id : ScopeId} {scope : Scope} (h : s.scope? id = some scope) :
    s.Has id :=
  (List.getElem?_eq_some_iff.1 h).1

theorem has_of_layout? {s : Schema} {id : ScopeId} {l : Layout} (h : s.layout? id = some l) :
    s.Has id := by
  obtain ⟨scope, hs, -⟩ := Option.bind_eq_some_iff.1 h
  exact has_of_scope? hs

theorem Has.scope? {s : Schema} {id : ScopeId} (h : s.Has id) : ∃ scope, s.scope? id = some scope :=
  ⟨_, List.getElem?_eq_getElem h⟩

theorem Keeps.has {s s' : Schema} (hk : s.Keeps s') {id : ScopeId} (h : s.Has id) : s'.Has id := by
  obtain ⟨scope, hs⟩ := h.scope?
  obtain ⟨_, hs', _⟩ := hk id scope hs
  exact has_of_scope? hs'

theorem Keeps.length_le {s s' : Schema} (hk : s.Keeps s') :
    s.scopes.length ≤ s'.scopes.length := by
  by_contra hlt
  have hhas : s.Has ⟨s'.scopes.length⟩ := Nat.lt_of_not_le hlt
  exact Nat.lt_irrefl _ (hk.has hhas)

theorem chain_root {s : Schema} {id : ScopeId} {scope : Scope} (h : s.scope? id = some scope)
    (hp : scope.parent = none) : s.chain id = [(id, scope)] := by
  rw [chain]
  simp [h, hp]

theorem getLocal?_of_namesOwner {s : Schema} {d e : ScopeId}
    (h : s.namesOwner d = s.namesOwner e) (name : String) :
    s.getLocal? d name = s.getLocal? e name := by
  unfold getLocal? names
  rw [h]

/-- Every scope but the root has a parent, which is older. -/
structure Rooted (s : Schema) : Prop where
  parent_lt : ∀ {id scope p}, s.scope? id = some scope → scope.parent = some p → p.index < id.index
  root : ∀ {id scope}, s.scope? id = some scope → scope.parent = none →
    id = root ∧ scope.name = none ∧ scope.kind = .space

/-- A scope that is reached from the root downwards. -/
inductive Placed (s : Schema) : ScopeId → Prop
  | root {id : ScopeId} {scope : Scope} (hs : s.scope? id = some scope)
      (hp : scope.parent = none) : s.Placed id
  | child {id p : ScopeId} {scope : Scope} (hs : s.scope? id = some scope)
      (hp : scope.parent = some p) (h : s.Placed p) : s.Placed id

namespace Rooted

variable {s : Schema} (hr : s.Rooted)

include hr

theorem has_parent {id p : ScopeId} {scope : Scope} (h : s.scope? id = some scope)
    (hp : scope.parent = some p) : s.Has p :=
  Nat.lt_trans (hr.parent_lt h hp) (has_of_scope? h)

theorem placed {id : ScopeId} (h : s.Has id) : s.Placed id := by
  induction hn : id.index using Nat.strongRecOn generalizing id with
  | ind n ih =>
    obtain ⟨scope, hs⟩ := h.scope?
    cases hp : scope.parent with
    | none => exact .root hs hp
    | some p =>
      have hlt := hr.parent_lt hs hp
      exact .child hs hp (ih p.index (hn ▸ hlt) (hr.has_parent hs hp) rfl)

theorem chain_child {id p : ScopeId} {scope : Scope} (h : s.scope? id = some scope)
    (hp : scope.parent = some p) : s.chain id = (id, scope) :: s.chain p := by
  have hlt := hr.parent_lt h hp
  rw [chain]
  simp [h, hp, hlt]

theorem enclosing?_child {id d : ScopeId} {scope : Scope} (h : s.scope? id = some scope)
    (hp : scope.parent = some d) (p : Scope → Bool) :
    s.enclosing? id p = ((s.chain d).find? fun link => p link.2).map Prod.fst := by
  simp [enclosing?, hr.chain_child h hp]

theorem around_child {id p x : ScopeId} {scope : Scope} (h : s.scope? id = some scope)
    (hp : scope.parent = some p) : s.Around id x ↔ x = id ∨ s.Around p x := by
  simp [Around, hr.chain_child h hp]

theorem around_self {id : ScopeId} (h : s.Has id) : s.Around id id := by
  obtain ⟨scope, hs⟩ := h.scope?
  cases hp : scope.parent with
  | none => simp [Around, chain_root hs hp]
  | some p => exact (hr.around_child hs hp).2 (.inl rfl)

theorem around_le {id x : ScopeId} (h : s.Has id) (hx : s.Around id x) : x.index ≤ id.index := by
  replace h := hr.placed h
  induction h with
  | root hs hroot =>
    simp [Around, chain_root hs hroot] at hx
    simp [hx]
  | child hs hp _ ih =>
    obtain rfl | hx := (hr.around_child hs hp).1 hx
    · omega
    · have hlt := hr.parent_lt hs hp
      have hle := ih hx
      omega

/-- Nothing is around the root but the root. -/
theorem around_root (h : s.Has Schema.root) {x : ScopeId} (hx : s.Around Schema.root x) :
    x = Schema.root := by
  have hle := hr.around_le h hx
  exact congrArg ScopeId.mk (Nat.le_zero.1 hle)

theorem ne_root {id p : ScopeId} {scope : Scope} (h : s.scope? id = some scope)
    (hp : scope.parent = some p) : id ≠ Schema.root := by
  rintro rfl
  exact Nat.not_lt_zero _ (hr.parent_lt h hp)

theorem parent_root {scope : Scope} (h : s.scope? Schema.root = some scope) :
    scope.parent = none := by
  cases hp : scope.parent with
  | none => rfl
  | some p => exact absurd rfl (hr.ne_root h hp)

/-- Of two scopes around a third, one stands in the other. -/
theorem around_total {id x y : ScopeId} (h : s.Has id) (hx : s.Around id x)
    (hy : s.Around id y) : s.Around x y ∨ s.Around y x := by
  replace h := hr.placed h
  induction h with
  | @root id scope hs hroot =>
    have hself := hr.around_self (has_of_scope? hs)
    simp [Around, chain_root hs hroot] at hx hy
    rw [hx, hy]
    exact .inl hself
  | child hs hp _ ih =>
    obtain rfl | hx' := (hr.around_child hs hp).1 hx
    · exact .inl hy
    · obtain rfl | hy' := (hr.around_child hs hp).1 hy
      · exact .inr hx
      · exact ih hx' hy'

theorem scope?_of_mem_chain {id : ScopeId} {link : ScopeId × Scope} (h : s.Has id)
    (hlink : link ∈ s.chain id) : s.scope? link.1 = some link.2 := by
  replace h := hr.placed h
  induction h with
  | root hs hroot =>
    rw [chain_root hs hroot, List.mem_singleton] at hlink
    rw [hlink, hs]
  | child hs hp _ ih =>
    rw [hr.chain_child hs hp] at hlink
    obtain rfl | hlink := List.mem_cons.1 hlink
    · exact hs
    · exact ih hlink

/-! ## Who binds the names of a scope -/

theorem namesOwner_of_not_proxy {id : ScopeId} {scope : Scope} (h : s.scope? id = some scope)
    (hk : scope.isProxy = false) : s.namesOwner id = id := by
  unfold namesOwner
  cases hp : scope.parent with
  | none => simp [chain_root h hp, hk]
  | some p => simp [hr.chain_child h hp, hk]

theorem isProxy_root {id : ScopeId} {scope : Scope} (h : s.scope? id = some scope)
    (hp : scope.parent = none) : scope.isProxy = false := by
  simp [Scope.isProxy, ScopeKind.isProxy, (hr.root h hp).2.2]

theorem namesOwner_of_proxy {id p : ScopeId} {scope : Scope} (h : s.scope? id = some scope)
    (hk : scope.isProxy = true) (hp : scope.parent = some p) :
    s.namesOwner id = s.namesOwner p := by
  have hfind : ∀ {q : ScopeId}, s.Has q →
      ((s.chain q).find? fun link => !link.2.isProxy).isSome := by
    intro q hq
    replace hq := hr.placed hq
    induction hq with
    | root hs hroot => simp [chain_root hs hroot, hr.isProxy_root hs hroot]
    | child hs hq _ ih =>
      rw [hr.chain_child hs hq, List.find?_cons]
      split
      · rfl
      · exact ih
  obtain ⟨link, hlink⟩ := Option.isSome_iff_exists.1 (hfind (hr.has_parent h hp))
  simp [namesOwner, hr.chain_child h hp, hk, hlink]

/-- The owner of the names is a scope that is no proxy, and a scope is never older than it. -/
theorem namesOwner_spec {id : ScopeId} (h : s.Has id) :
    ∃ scope, s.scope? (s.namesOwner id) = some scope ∧ scope.isProxy = false ∧
      (s.namesOwner id).index ≤ id.index := by
  replace h := hr.placed h
  induction h with
  | root hs hroot =>
    have hk := hr.isProxy_root hs hroot
    rw [hr.namesOwner_of_not_proxy hs hk]
    exact ⟨_, hs, hk, Nat.le_refl _⟩
  | @child id p scope hs hp _ ih =>
    cases hk : scope.isProxy with
    | false =>
      rw [hr.namesOwner_of_not_proxy hs hk]
      exact ⟨scope, hs, hk, Nat.le_refl _⟩
    | true =>
      rw [hr.namesOwner_of_proxy hs hk hp]
      obtain ⟨owner, ho, hko, hle⟩ := ih
      have hlt := hr.parent_lt hs hp
      exact ⟨owner, ho, hko, by omega⟩

theorem namesOwner_le_child {id p : ScopeId} {scope : Scope} (h : s.scope? id = some scope)
    (hp : scope.parent = some p) : (s.namesOwner p).index ≤ (s.namesOwner id).index := by
  cases hk : scope.isProxy with
  | true => rw [hr.namesOwner_of_proxy h hk hp]
  | false =>
    rw [hr.namesOwner_of_not_proxy h hk]
    obtain ⟨-, -, -, hle⟩ := hr.namesOwner_spec (hr.has_parent h hp)
    have hlt := hr.parent_lt h hp
    omega

/-- A scope that is no proxy owns the names of what stands in it, or something in it does. -/
theorem le_namesOwner {id x : ScopeId} {scope : Scope} (h : s.Has id) (hx : s.Around id x)
    (hs : s.scope? x = some scope) (hk : scope.isProxy = false) :
    x.index ≤ (s.namesOwner id).index := by
  replace h := hr.placed h
  induction h with
  | root hs' hroot =>
    simp [Around, chain_root hs' hroot] at hx
    subst hx
    have howner := hr.namesOwner_of_not_proxy hs hk
    have hindex := congrArg ScopeId.index howner
    omega
  | @child id p scope' hs' hp _ ih =>
    cases hk' : scope'.isProxy with
    | false =>
      rw [hr.namesOwner_of_not_proxy hs' hk']
      exact hr.around_le (has_of_scope? hs') hx
    | true =>
      rw [hr.namesOwner_of_proxy hs' hk' hp]
      obtain rfl | hx := (hr.around_child hs' hp).1 hx
      · rw [hs] at hs'
        cases hs'
        rw [hk] at hk'
        cases hk'
      · exact ih hx

end Rooted

/-! ## What depends on shapes only -/

def mapLink (g : Scope → Scope) (link : ScopeId × Scope) : ScopeId × Scope := (link.1, g link.2)

theorem find?_map_mapLink {g : Scope → Scope} {p : Scope → Bool}
    (hp : ∀ scope, p (g scope) = p scope) (links : List (ScopeId × Scope)) :
    ((links.map (mapLink g)).find? fun link => p link.2).map Prod.fst =
      (links.find? fun link => p link.2).map Prod.fst := by
  induction links with
  | nil => rfl
  | cons link links ih =>
    by_cases h : p link.2 = true
    · simp [mapLink, hp, h]
    · simpa [mapLink, hp, h] using ih

namespace Keeps

variable {s s' : Schema} (hk : s.Keeps s') (hr : s.Rooted) (hr' : s'.Rooted)

include hk hr hr'

theorem chain {id : ScopeId} (h : s.Has id) :
    (s'.chain id).map (mapLink Scope.shape) = (s.chain id).map (mapLink Scope.shape) := by
  replace h := hr.placed h
  induction h with
  | @root id scope hs hp =>
    obtain ⟨scope', hs', heq⟩ := hk id scope hs
    have hp' : scope'.parent = none := by rw [Scope.parent_eq heq, hp]
    rw [chain_root hs hp, chain_root hs' hp']
    simp [mapLink, heq]
  | @child id p scope hs hp _ ih =>
    obtain ⟨scope', hs', heq⟩ := hk id scope hs
    have hp' : scope'.parent = some p := by
      rw [Scope.parent_eq heq, hp]
    rw [hr.chain_child hs hp, hr'.chain_child hs' hp']
    simp [ih, mapLink, heq]

theorem namesOwner {id : ScopeId} (h : s.Has id) : s'.namesOwner id = s.namesOwner id := by
  have hfind := find?_map_mapLink (g := Scope.shape) (p := fun scope => !scope.isProxy) (by simp)
  unfold Schema.namesOwner
  rw [← hfind (s'.chain id), ← hfind (s.chain id), hk.chain hr hr' h]

theorem enclosing? {id : ScopeId} (h : s.Has id) {p : Scope → Bool}
    (hp : ∀ scope, p scope.shape = p scope) : s'.enclosing? id p = s.enclosing? id p := by
  have hfind := find?_map_mapLink hp
  unfold Schema.enclosing?
  rw [← hfind (s'.chain id).tail, ← hfind (s.chain id).tail, List.map_tail, List.map_tail,
    hk.chain hr hr' h]

end Keeps

end Schema

/-! ## Climbing to the struct around a variant -/

namespace Compilation

open Schema

/-- Only the names and the constructors of the kinds matter to it. -/
theorem climb_map_mapLink {g : Scope → Scope} (hname : ∀ scope, (g scope).name = scope.name)
    (hkind : ∀ scope, ∃ h, (g scope).kind = scope.kind.mapLayout h) (source : Option ScopeId)
    (path : Option Path) (links : List (ScopeId × Scope)) :
    climb source path (links.map (mapLink g)) = climb source path links := by
  induction links generalizing source path with
  | nil => rfl
  | cons link links ih =>
    obtain ⟨id, scope⟩ := link
    obtain ⟨h, hk⟩ := hkind scope
    simp only [List.map_cons, mapLink, climb, hname, hk]
    cases scope.kind <;> simp [ScopeKind.mapLayout, ih]

theorem climb_keeps {s s' : Schema} (hk : s.Keeps s') (hr : s.Rooted) (hr' : s'.Rooted)
    {d : ScopeId} (h : s.Has d) (source : Option ScopeId) (path : Option Path) :
    climb source path (s'.chain d) = climb source path (s.chain d) := by
  have hshape := climb_map_mapLink (g := Scope.shape) (fun _ => rfl) (fun _ => ⟨_, rfl⟩)
  rw [← hshape source path (s'.chain d), hk.chain hr hr' h, hshape]

/-- Variants without a name are proxies, and those with a name are none. -/
theorem climb_path_isSome {source : Option ScopeId} {path : Option Path}
    {links : List (ScopeId × Scope)} {a : Anchor} (h : climb source path links = some a) :
    a.path.isSome = path.isSome := by
  induction links generalizing source path with
  | nil => cases h
  | cons link links ih =>
    obtain ⟨id, scope⟩ := link
    unfold climb at h
    split at h
    · cases h
      rfl
    · cases h
      rfl
    · exact ih h
    · split at h
      · rw [ih h]
        rfl
      · cases h

/-- The base is the nearest struct that is no proxy. -/
theorem climb_base {source : Option ScopeId} {path : Option Path}
    {links : List (ScopeId × Scope)} {a : Anchor} (h : climb source path links = some a) :
    (links.find? fun link => link.2.isStruct && !link.2.isProxy).map Prod.fst = some a.base := by
  induction links generalizing source path with
  | nil => cases h
  | cons link links ih =>
    obtain ⟨id, scope⟩ := link
    unfold climb at h
    split at h <;> rename_i hk
    · cases h
      simp [Scope.isStruct, Scope.layout?, Scope.isProxy, hk, ScopeKind.layout?, ScopeKind.isProxy]
    · cases h
      simp [Scope.isStruct, Scope.layout?, Scope.isProxy, hk, ScopeKind.layout?, ScopeKind.isProxy]
    · simpa [Scope.isStruct, Scope.layout?, Scope.isProxy, hk, ScopeKind.layout?,
        ScopeKind.isProxy] using ih h
    · split at h
      · simpa [Scope.isStruct, Scope.layout?, Scope.isProxy, hk, ScopeKind.layout?,
          ScopeKind.isProxy] using ih h
      · cases h

/-- What fields are taken from is the nearest struct, be it a proxy or not. -/
theorem climb_source {source : Option ScopeId} {path : Option Path}
    {links : List (ScopeId × Scope)} {a : Anchor} (h : climb source path links = some a) :
    source.or ((links.find? fun link => link.2.isStruct).map Prod.fst) = some a.source := by
  induction links generalizing source path with
  | nil => cases h
  | cons link links ih =>
    obtain ⟨id, scope⟩ := link
    unfold climb at h
    split at h <;> rename_i hk
    · cases h
      cases source <;> simp [Scope.isStruct, Scope.layout?, hk, ScopeKind.layout?]
    · cases h
      cases source <;> simp [Scope.isStruct, Scope.layout?, hk, ScopeKind.layout?]
    · have := ih h
      cases source <;> simpa [Scope.isStruct, Scope.layout?, hk, ScopeKind.layout?] using this
    · split at h
      · have := ih h
        simpa [Scope.isStruct, Scope.layout?, hk, ScopeKind.layout?] using this
      · cases h

/-- Where fields come from has no part in what a variant is a branch of. -/
theorem climb_base_path (source : Option ScopeId) (path : Option Path)
    (links : List (ScopeId × Scope)) :
    (climb source path links).map (fun a => (a.base, a.path)) =
      (climb none path links).map (fun a => (a.base, a.path)) := by
  induction links generalizing source path with
  | nil => rfl
  | cons link links ih =>
    obtain ⟨id, scope⟩ := link
    unfold climb
    split
    · rfl
    · rfl
    · exact (ih _ path).trans (ih _ path).symm
    · split
      · exact ih _ _
      · rfl

end Compilation

end PacketSchema
