import PacketSchema.Proofs.Schema.Ancestors

/-! Looking up dotted paths. A path that is found is found in the nearest of the scopes that have
names of their own, all of it there, and what it is bound to does not depend on where between its
names it is cut in two. -/

namespace PacketSchema

namespace Schema

/-! ## Paths within a scope -/

theorem lookupLocal?_cons (s : Schema) (id : ScopeId) (name : String) {rest : Path}
    (h : rest ≠ []) : s.lookupLocal? id (name :: rest) =
      ((s.getLocal? id name).bind Item.scope?).bind fun inner => s.lookupLocal? inner rest := by
  cases rest with
  | nil => exact absurd rfl h
  | cons next rest => rfl

/-- A path goes on within what its first half is bound to, and nowhere else. -/
theorem lookupLocal?_append (s : Schema) (id : ScopeId) {p q : Path} (hp : p ≠ []) (hq : q ≠ []) :
    s.lookupLocal? id (p ++ q) =
      ((s.lookupLocal? id p).bind Item.scope?).bind fun inner => s.lookupLocal? inner q := by
  induction p generalizing id with
  | nil => exact absurd rfl hp
  | cons name p ih =>
    cases p with
    | nil => exact s.lookupLocal?_cons id name hq
    | cons next p =>
      have hp' : next :: p ≠ [] := by simp
      rw [List.cons_append, s.lookupLocal?_cons id name (by simp),
        s.lookupLocal?_cons id name hp', Option.bind_assoc, Option.bind_assoc]
      simp only [ih _ hp', Option.bind_assoc]

theorem lookupLocal?_of_namesOwner {s : Schema} {d e : ScopeId}
    (h : s.namesOwner d = s.namesOwner e) (path : Path) :
    s.lookupLocal? d path = s.lookupLocal? e path := by
  match path with
  | [] => rfl
  | [name] => exact getLocal?_of_namesOwner h name
  | name :: next :: rest =>
    rw [s.lookupLocal?_cons d name (by simp), s.lookupLocal?_cons e name (by simp),
      getLocal?_of_namesOwner h]

/-! ## The nearest scope -/

/-- Of a scope and the scopes around it, the nearest one that is no proxy and in which the whole
path resolves. All others of this kind are around it. -/
structure Nearest (s : Schema) (path : Path) (id x : ScopeId) : Prop where
  around : s.Around id x
  own : ∃ scope, s.scope? x = some scope ∧ scope.isProxy = false
  resolves : (s.lookupLocal? x path).isSome
  first : ∀ y scope, s.Around id y → s.scope? y = some scope → scope.isProxy = false →
    (s.lookupLocal? y path).isSome → s.Around x y

namespace Rooted

variable {s : Schema} (hr : s.Rooted) {path : Path} {id p x : ScopeId} {scope : Scope}

include hr

theorem namesOwner_idem (h : s.Has id) : s.namesOwner (s.namesOwner id) = s.namesOwner id := by
  obtain ⟨owner, ho, hk, -⟩ := hr.namesOwner_spec h
  exact hr.namesOwner_of_not_proxy ho hk

theorem lookup?_child (hs : s.scope? id = some scope) (hp : scope.parent = some p) (path : Path) :
    s.lookup? id path = (s.lookupLocal? id path).or (s.lookup? p path) := by
  unfold lookup?
  rw [hr.chain_child hs hp, List.findSome?_cons]
  cases s.lookupLocal? id path <;> rfl

/-- A scope that the path resolves in hides all others. -/
theorem nearest_self (hs : s.scope? id = some scope) (hk : scope.isProxy = false)
    (h : (s.lookupLocal? id path).isSome) : s.Nearest path id x ↔ x = id := by
  have hhas := has_of_scope? hs
  constructor
  · intro hx
    obtain ⟨own, hown, -⟩ := hx.own
    have hle := hr.around_le hhas hx.around
    have hge := hr.around_le (has_of_scope? hown) (hx.first id scope (hr.around_self hhas) hs hk h)
    exact congrArg ScopeId.mk (Nat.le_antisymm hle hge)
  · rintro rfl
    exact ⟨hr.around_self hhas, ⟨scope, hs, hk⟩, h, fun y _ hy _ _ _ => hy⟩

/-- A proxy and a scope that the path does not resolve in are passed by. -/
theorem nearest_child (hs : s.scope? id = some scope) (hp : scope.parent = some p)
    (h : scope.isProxy = false → s.lookupLocal? id path = none) :
    s.Nearest path id x ↔ s.Nearest path p x := by
  have hnot : ∀ {own}, s.scope? id = some own → own.isProxy = false →
      ¬ (s.lookupLocal? id path).isSome := by
    intro own hown hk hsome
    rw [hs] at hown
    cases hown
    simp [h hk] at hsome
  constructor
  · intro hx
    obtain ⟨own, hown, hk⟩ := hx.own
    refine ⟨?_, hx.own, hx.resolves, fun y other hy => ?_⟩
    · obtain rfl | hx' := (hr.around_child hs hp).1 hx.around
      · exact absurd hx.resolves (hnot hown hk)
      · exact hx'
    · exact hx.first y other ((hr.around_child hs hp).2 (.inr hy))
  · intro hx
    refine ⟨(hr.around_child hs hp).2 (.inr hx.around), hx.own, hx.resolves, ?_⟩
    intro y other hy hother hk hsome
    obtain rfl | hy := (hr.around_child hs hp).1 hy
    · exact absurd hsome (hnot hother hk)
    · exact hx.first y other hy hother hk hsome

/-- A proxy is passed by as well when a path is looked up, since it has no names but those of the
scope around. -/
theorem lookup?_of_proxy (hs : s.scope? id = some scope) (hk : scope.isProxy = true)
    (hp : scope.parent = some p) (path : Path) : s.lookup? id path = s.lookup? p path := by
  have hlocal := lookupLocal?_of_namesOwner (hr.namesOwner_of_proxy hs hk hp) path
  have hparent := hr.has_parent hs hp
  rw [hr.lookup?_child hs hp, hlocal]
  obtain ⟨outer, houter⟩ := hparent.scope?
  cases hq : outer.parent with
  | none =>
    unfold lookup?
    rw [chain_root houter hq, List.findSome?_singleton]
    cases s.lookupLocal? p path <;> rfl
  | some q =>
    rw [hr.lookup?_child houter hq]
    cases s.lookupLocal? p path <;> rfl

theorem lookup?_namesOwner (h : s.Has id) (path : Path) :
    s.lookup? id path = s.lookup? (s.namesOwner id) path := by
  replace h := hr.placed h
  induction h with
  | root hs hroot => rw [hr.namesOwner_of_not_proxy hs (hr.isProxy_root hs hroot)]
  | @child id p scope hs hp _ ih =>
    cases hk : scope.isProxy with
    | false => rw [hr.namesOwner_of_not_proxy hs hk]
    | true => rw [hr.lookup?_of_proxy hs hk hp, hr.namesOwner_of_proxy hs hk hp, ih]

theorem lookup?_eq_some_iff (h : s.Has id) {item : Item} : s.lookup? id path = some item ↔
    ∃ x, s.Nearest path id x ∧ s.lookupLocal? x path = some item := by
  replace h := hr.placed h
  induction h with
  | @root id scope hs hroot =>
    have hk := hr.isProxy_root hs hroot
    have hlookup : s.lookup? id path = s.lookupLocal? id path := by
      unfold lookup?
      rw [chain_root hs hroot, List.findSome?_singleton]
    rw [hlookup]
    constructor
    · intro hitem
      exact ⟨id, (hr.nearest_self hs hk (by simp [hitem])).2 rfl, hitem⟩
    · rintro ⟨x, hx, hitem⟩
      have haround := hx.around
      simp [Around, chain_root hs hroot] at haround
      exact haround ▸ hitem
  | @child id p scope hs hp _ ih =>
    cases hk : scope.isProxy with
    | true =>
      have hpassed : ∀ x, s.Nearest path id x ↔ s.Nearest path p x :=
        fun x => hr.nearest_child hs hp (by simp [hk])
      simp only [hr.lookup?_of_proxy hs hk hp, ih, hpassed]
    | false =>
      rw [hr.lookup?_child hs hp]
      cases hlocal : s.lookupLocal? id path with
      | none =>
        have hpassed : ∀ x, s.Nearest path id x ↔ s.Nearest path p x :=
          fun x => hr.nearest_child hs hp fun _ => hlocal
        simp only [Option.none_or, ih, hpassed]
      | some found =>
        have hself : ∀ x, s.Nearest path id x ↔ x = id :=
          fun x => hr.nearest_self hs hk (by simp [hlocal])
        simp only [Option.some_or, hself, exists_eq_left, hlocal]

theorem lookup?_eq_none_iff (h : s.Has id) : s.lookup? id path = none ↔
    ∀ x, ¬ s.Nearest path id x := by
  constructor
  · intro hnone x hx
    obtain ⟨item, hitem⟩ := Option.isSome_iff_exists.1 hx.resolves
    have hsome := (hr.lookup?_eq_some_iff h).2 ⟨x, hx, hitem⟩
    rw [hnone] at hsome
    cases hsome
  · intro hx
    by_contra hne
    obtain ⟨item, hitem⟩ := Option.ne_none_iff_exists'.1 hne
    obtain ⟨x, hnearest, -⟩ := (hr.lookup?_eq_some_iff h).1 hitem
    exact hx x hnearest

end Rooted

end Schema

end PacketSchema
