import PacketSchema.Proofs.Compilation.Following

/-! Names and scopes at every stage. A scope that has been closed is what its name is bound to, and
the name of an open scope is still free where it will be bound. Hence a path of names leads from a
scope to at most one other. -/

namespace PacketSchema.Compilation

open Schema

/-- What a variant or a proxy branches from, and by which path, is found by climbing. -/
def Anchored (s : Schema) : Prop :=
  ∀ id scope base, s.scope? id = some scope → scope.kind.base? = some base →
    ∃ d a, scope.parent = some d ∧ climb none (scope.name.map ([·])) (s.chain d) = some a ∧
      a.base = base ∧ a.path = scope.kind.path?

namespace Anchored

variable {s s' : Schema}

theorem sameShapes (h : Anchored s) (hr : s.Rooted) (hsame : s.SameShapes s') : Anchored s' := by
  intro id scope' base hs' hb
  obtain ⟨scope, hs, heq⟩ := hsame.symm.keeps id scope' hs'
  rw [Scope.base?_eq heq.symm] at hb
  obtain ⟨d, a, hp, hclimb, hbase, hpath⟩ := h id scope base hs hb
  refine ⟨d, a, ?_, ?_, hbase, ?_⟩
  · rw [Scope.parent_eq heq.symm, hp]
  · rw [climb_keeps hsame.keeps hr (hsame.rooted hr) (hr.has_parent hs hp), ← hclimb,
      Scope.name_eq heq.symm]
  · rw [hpath, Scope.path?_eq heq.symm]

theorem addScope (h : Anchored s) (hr : s.Rooted) {d : ScopeId} {task : Task} {scope : Scope}
    (hd : s.Has d) (hopens : Opens s d task scope) : Anchored (s.addScope scope) := by
  have hk := keeps_addScope s scope
  have hr' := hr.addScope hd hopens.parent
  intro id found base hs hb
  rw [scope?_addScope] at hs
  split at hs
  · cases hs
    cases hopens with
    | space _ _ => cases hb
    | struct _ _ => cases hb
    | inline _ => cases hb
    | @arm name a p hclimb =>
      rw [Anchor.kind_base?] at hb
      cases hb
      refine ⟨d, a, rfl, ?_, rfl, (a.kind_path? _).symm⟩
      rw [climb_keeps hk hr hr' hd]
      exact hclimb
  · obtain ⟨e, a, hp, hclimb, hbase, hpath⟩ := h id found base hs hb
    refine ⟨e, a, hp, ?_, hbase, hpath⟩
    rw [climb_keeps hk hr hr' (hr.has_parent hs hp)]
    exact hclimb

/-- A proxy has no name. -/
theorem isProxy_of_name (h : Anchored s) {id : ScopeId} {scope : Scope} {name : String}
    (hs : s.scope? id = some scope) (hname : scope.name = some name) : scope.isProxy = false := by
  cases hk : scope.kind with
  | space => simp [Scope.isProxy, hk, ScopeKind.isProxy]
  | struct _ => simp [Scope.isProxy, hk, ScopeKind.isProxy]
  | variant _ _ _ => simp [Scope.isProxy, hk, ScopeKind.isProxy]
  | proxy layout base =>
    obtain ⟨d, a, -, hclimb, -, hpath⟩ := h id scope base hs (by rw [hk]; rfl)
    have hsome := climb_path_isSome hclimb
    rw [hname, hpath, hk] at hsome
    cases hsome

end Anchored

/-- What holds of names when some scopes are open. -/
structure NamesSettled (s : Schema) (fs : List Frame) : Prop where
  anchored : Anchored s
  undotted : ∀ id scope name, s.scope? id = some scope → scope.name = some name → Undotted name
  bound : ∀ id scope name d, s.scope? id = some scope → scope.name = some name →
    scope.parent = some d → ¬ IsOpen fs id → s.getLocal? d name = some (scope.item id)
  free : ∀ d name, (⟨d, .naming name⟩ : Frame) ∈ fs →
    s.getLocal? d name = none ∧ Undotted name

namespace NamesSettled

variable {s s' : Schema} {fs : List Frame}

theorem start (options : Options) :
    NamesSettled (Stage.start options).schema (Stage.start options).frames := by
  have hscope : ∀ {id scope}, (Stage.start options).schema.scope? id = some scope →
      scope = { name := none, parent := none, position := none, kind := .space } := by
    intro id scope hs
    exact List.mem_singleton.1 (List.mem_of_getElem? hs)
  constructor
  case anchored =>
    intro id scope base hs hb
    rw [hscope hs] at hb
    cases hb
  case undotted =>
    intro id scope name hs hname
    rw [hscope hs] at hname
    cases hname
  case bound =>
    intro id scope name d hs hname
    rw [hscope hs] at hname
    cases hname
  case free =>
    intro d name hmem
    cases mem_of_task_ne hmem (by simp)

/-- Nothing changes for names while shapes and bindings stay the same. -/
theorem view (h : NamesSettled s fs) (hr : s.Rooted) (hn : Nested s fs)
    (hsame : s.SameShapes s')
    (hlocal : ∀ x, s.Has x → ∀ name, s'.getLocal? x name = s.getLocal? x name) :
    NamesSettled s' fs where
  anchored := h.anchored.sameShapes hr hsame
  undotted := by
    intro id scope' name hs' hname
    obtain ⟨scope, hs, heq⟩ := hsame.symm.keeps id scope' hs'
    exact h.undotted id scope name hs (by rw [Scope.name_eq heq, hname])
  bound := by
    intro id scope' name d hs' hname hp hclosed
    obtain ⟨scope, hs, heq⟩ := hsame.symm.keeps id scope' hs'
    have hp : scope.parent = some d := by rw [Scope.parent_eq heq, hp]
    have hname : scope.name = some name := by rw [Scope.name_eq heq, hname]
    rw [hlocal d (hr.has_parent hs hp), h.bound id scope name d hs hname hp hclosed,
      Scope.item_shape heq]
  free := by
    intro d name hmem
    obtain ⟨hfree, hundotted⟩ := h.free d name hmem
    rw [hlocal d (hn.has_of_mem hmem)]
    exact ⟨hfree, hundotted⟩

theorem announce {d : ScopeId} {name : String} (h : NamesSettled s (⟨d, .idle⟩ :: fs))
    (hname : Undotted name) (hfree : s.getLocal? d name = none) :
    NamesSettled s (⟨d, .naming name⟩ :: fs) where
  anchored := h.anchored
  undotted := h.undotted
  bound := h.bound
  free := by
    intro e other hmem
    obtain heq | hmem := List.mem_cons.1 hmem
    · cases heq
      exact ⟨hfree, hname⟩
    · exact h.free e other (.tail _ hmem)

theorem leave {id : ScopeId} {scope : Scope} (h : NamesSettled s (⟨id, .idle⟩ :: fs))
    (hs : s.scope? id = some scope) (hn : scope.name = none) : NamesSettled s fs where
  anchored := h.anchored
  undotted := h.undotted
  bound := by
    intro x found name d hx hname hp hclosed
    refine h.bound x found name d hx hname hp fun hopen => ?_
    obtain rfl | hopen := List.mem_cons.1 hopen
    · rw [hs] at hx
      cases hx
      rw [hn] at hname
      cases hname
    · exact hclosed hopen
  free := fun d name hmem => h.free d name (.tail _ hmem)

theorem enter {d : ScopeId} {task : Task} {scope : Scope} (h : NamesSettled s (⟨d, task⟩ :: fs))
    (hr : s.Rooted) (hn : Nested s (⟨d, task⟩ :: fs)) (hopens : Opens s d task scope) :
    NamesSettled (s.addScope scope) (⟨s.nextId, .idle⟩ :: ⟨d, task⟩ :: fs) := by
  have hr' := hr.addScope hn.has hopens.parent
  constructor
  case anchored => exact h.anchored.addScope hr hn.has hopens
  case undotted =>
    intro id found name hs hname
    rw [scope?_addScope] at hs
    split at hs
    · cases hs
      have htask := hopens.name hname
      subst htask
      exact (h.free d name (.head _)).2
    · exact h.undotted id found name hs hname
  case bound =>
    intro id found name e hs hname hp hclosed
    rw [scope?_addScope] at hs
    split at hs
    · rename_i hid
      exact absurd (hid ▸ List.mem_cons_self) hclosed
    · rw [getLocal?_addScope hr (hr.has_parent hs hp) hr']
      exact h.bound id found name e hs hname hp fun hopen => hclosed (.tail _ hopen)
  case free =>
    intro e name hmem
    have hmem := mem_of_task_ne hmem (by simp)
    rw [getLocal?_addScope hr (hn.has_of_mem hmem) hr']
    exact h.free e name hmem

/-- Binding the name that a declaration has announced. The scopes that are closed with it are
bound by it. -/
theorem bind (ps : List Frame) {d : ScopeId} {name : String} {task : Task} {item : Item}
    (h : NamesSettled s (ps ++ ⟨d, .naming name⟩ :: fs)) (hr : s.Rooted)
    (hn : Nested s (⟨d, .naming name⟩ :: fs)) (htask : ∀ other, task ≠ .naming other)
    (hclosed : ∀ f ∈ ps, ∀ scope other e, s.scope? f.scope = some scope →
      scope.name = some other → scope.parent = some e →
      other = name ∧ e = d ∧ item = scope.item f.scope) :
    NamesSettled (s.bind d name item) (⟨d, task⟩ :: fs) := by
  have hsame := SameShapes.bind s d name item
  have hd : s.Has d := hn.has
  obtain ⟨hfree, -⟩ := h.free d name (List.mem_append_right _ (.head _))
  constructor
  case anchored => exact h.anchored.sameShapes hr hsame
  case undotted =>
    intro id scope' other hs' hname
    obtain ⟨scope, hs, heq⟩ := hsame.symm.keeps id scope' hs'
    exact h.undotted id scope other hs (by rw [Scope.name_eq heq, hname])
  case bound =>
    intro x scope' other e hs' hname hp hopen
    obtain ⟨scope, hs, heq⟩ := hsame.symm.keeps x scope' hs'
    rw [Scope.name_eq heq.symm] at hname
    rw [Scope.parent_eq heq.symm] at hp
    rw [getLocal?_bind hr hd (hr.has_parent hs hp), ← Scope.item_shape heq]
    by_cases hx : IsOpen ps x
    · obtain ⟨f, hf, rfl⟩ := List.mem_map.1 hx
      obtain ⟨rfl, rfl, rfl⟩ := hclosed f hf scope other e hs hname hp
      simp
    · have hold := h.bound x scope other e hs hname hp fun hmem => by
        unfold IsOpen at hmem
        rw [List.map_append, List.mem_append] at hmem
        exact hmem.elim hx hopen
      rw [if_neg, hold]
      rintro ⟨howner, rfl⟩
      have hsome : s.getLocal? d name = some (scope.item x) := by
        rw [← hold]
        unfold getLocal? names
        rw [howner]
      rw [hfree] at hsome
      cases hsome
  case free =>
    intro e other hmem
    have hmem := mem_of_task_ne hmem (htask other).symm
    obtain ⟨hfree', hundotted⟩ := h.free e other (List.mem_append_right _ (.tail _ hmem))
    refine ⟨?_, hundotted⟩
    rw [getLocal?_bind hr hd (hn.has_of_mem (.tail _ hmem)), if_neg, hfree']
    rintro ⟨howner, -⟩
    have hlt := hn.namesOwner_lt hr hmem
    simp [howner] at hlt

end NamesSettled

theorem Task.after_ne_naming (id : ScopeId) (scope : Scope) (name : String) :
    Task.after id scope ≠ .naming name := by
  unfold Task.after
  split <;> exact fun h => nomatch h

theorem Step.namesSettled {st st' : Stage} (h : Step st st') (hst : st.Sound)
    (hnames : NamesSettled st.schema st.frames) : NamesSettled st'.schema st'.frames := by
  obtain ⟨hr, hn⟩ := hst
  cases h with
  | @note r c fs h =>
    have hscopes := h.scopes_eq
    refine hnames.view hr hn (.of_scopes_eq hscopes) fun x hx name => ?_
    have hsame : r.current.schema.SameShapes c.schema := .of_scopes_eq hscopes
    apply getLocal?_keeps hsame.keeps hr (hsame.rooted hr) hx
    unfold scope?
    rw [hscopes]
  | field _ _ _ =>
    exact hnames.view hr hn (.modifyLayout _ _ _) fun x hx => getLocal?_modifyLayout hr hx _ _
  | constraint _ _ _ =>
    exact hnames.view hr hn (.modifyLayout _ _ _) fun x hx => getLocal?_modifyLayout hr hx _ _
  | announce hname hfree => exact hnames.announce hname hfree
  | enter h => exact hnames.enter hr hn h
  | leave hs hname => exact hnames.leave hs hname
  | assign t =>
    exact NamesSettled.bind [] hnames hr hn (fun _ h => nomatch h) fun _ h => nomatch h
  | @conclude r id d fs scope name hs hname =>
    refine NamesSettled.bind [⟨id, .idle⟩] hnames hr hn.2 (Task.after_ne_naming _ _) ?_
    intro f hf found other e hfound hother hp
    rw [List.mem_singleton.1 hf, hs] at hfound
    cases hfound
    rw [hname] at hother
    cases hother
    obtain ⟨⟨inner, hinner, hparent, -⟩, -⟩ := hn
    rw [show r.current.schema.scope? id = some inner from hinner] at hs
    cases hs
    rw [hparent] at hp
    cases hp
    rw [List.mem_singleton.1 hf]
    exact ⟨rfl, rfl, rfl⟩
  | @register r id d fs scope base path layout _ _ _ _ _ =>
    have hidle : NamesSettled r.current.schema (⟨d, .idle⟩ :: fs) :=
      ⟨hnames.anchored, hnames.undotted, hnames.bound, fun e other hmem =>
        hnames.free e other (.tail _ (mem_of_task_ne hmem (by simp)))⟩
    exact hidle.view hr (hn.retask _) (.modifyLayout _ _ _) fun x hx =>
      getLocal?_modifyLayout hr hx _ _

/-! ## Paths -/

/-- A scope with a name stands where the names belong to an owner. -/
def Named (s : Schema) (owner : ScopeId) (name : String) (x : ScopeId) : Prop :=
  ∃ scope d, s.scope? x = some scope ∧ scope.name = some name ∧ scope.parent = some d ∧
    s.namesOwner d = owner

def IsSpace (s : Schema) (x : ScopeId) : Prop :=
  ∃ scope, s.scope? x = some scope ∧ scope.kind = .space

/-- A path leads from a scope through namespaces to a scope, be they bound or not. -/
def Reaches (s : Schema) (owner : ScopeId) : Path → ScopeId → Prop
  | [], _ => False
  | name :: rest, x =>
    ∃ y, Named s owner name y ∧ (rest = [] ∧ y = x ∨ IsSpace s y ∧ Reaches s y rest x)

section

variable {s : Schema} {fs : List Frame}

/-- While a name is free for an open scope, no closed scope has it. -/
theorem NamesSettled.not_closed (h : NamesSettled s fs) (hr : s.Rooted) (hn : Nested s fs)
    {owner x y : ScopeId} {name : String} (hx : Named s owner name x) (hy : Named s owner name y)
    (hopen : IsOpen fs x) : IsOpen fs y := by
  obtain ⟨scope, d, hs, hname, hp, rfl⟩ := hx
  obtain ⟨scope', e, hs', hname', hp', howner⟩ := hy
  obtain ⟨f, hf, rfl⟩ := List.mem_map.1 hopen
  obtain ⟨hfree, -⟩ := h.free d name (hn.naming hr hf hs hname hp)
  refine Classical.byContradiction fun hclosed => ?_
  have hbound := h.bound y scope' name e hs' hname' hp' hclosed
  rw [getLocal?_of_namesOwner howner, hfree] at hbound
  cases hbound

/-- Of two open scopes one stands in the other, so their names have different owners. -/
theorem Nested.named_eq (hr : s.Rooted) (hn : Nested s fs) (hanchored : Anchored s)
    {owner x y : ScopeId} {name : String} (hx : Named s owner name x) (hy : Named s owner name y)
    (hxo : IsOpen fs x) (hyo : IsOpen fs y) : x = y := by
  have hinner : ∀ {x y : ScopeId}, Named s owner name x → Named s owner name y →
      s.Around x y → x = y := by
    rintro x y ⟨scope, d, hs, hname, hp, rfl⟩ ⟨scope', e, hs', hname', hp', howner⟩ hy
    obtain rfl | hy := (hr.around_child hs hp).1 hy
    · rfl
    · have hd := hr.has_parent hs hp
      have hle := hr.le_namesOwner hd hy hs' (hanchored.isProxy_of_name hs' hname')
      obtain ⟨-, -, -, hle'⟩ := hr.namesOwner_spec (hr.has_parent hs' hp')
      have hlt := hr.parent_lt hs' hp'
      rw [← howner] at hle
      omega
  cases fs with
  | nil => cases hn
  | cons f fs =>
    have hchain := hn.chain hr
    unfold IsOpen at hxo hyo
    rw [← hchain] at hxo hyo
    obtain h | h := hr.around_total hn.has hxo hyo
    · exact hinner hx hy h
    · exact (hinner hy hx h).symm

/-- Two scopes with one name and one owner of it are the same. -/
theorem NamesSettled.named_unique (h : NamesSettled s fs) (hr : s.Rooted) (hn : Nested s fs)
    {owner x y : ScopeId} {name : String} (hx : Named s owner name x)
    (hy : Named s owner name y) : x = y := by
  by_cases hopen : IsOpen fs x
  · exact hn.named_eq hr h.anchored hx hy hopen (h.not_closed hr hn hx hy hopen)
  · have hopen' : ¬ IsOpen fs y := fun hy' => hopen (h.not_closed hr hn hy hx hy')
    obtain ⟨scope, d, hs, hname, hp, rfl⟩ := hx
    obtain ⟨scope', e, hs', hname', hp', howner⟩ := hy
    have hbound := h.bound x scope name d hs hname hp hopen
    have hbound' := h.bound y scope' name e hs' hname' hp' hopen'
    rw [getLocal?_of_namesOwner howner, hbound] at hbound'
    have hitem : scope.item x = scope'.item y := Option.some.inj hbound'
    have hids := congrArg Item.scope? hitem
    rw [scope.item_scope?, scope'.item_scope?] at hids
    exact Option.some.inj hids

/-- A path leads to one scope at most. -/
theorem NamesSettled.reaches_unique (h : NamesSettled s fs) (hr : s.Rooted) (hn : Nested s fs)
    {path : Path} {owner x y : ScopeId} (hx : Reaches s owner path x)
    (hy : Reaches s owner path y) : x = y := by
  induction path generalizing owner with
  | nil => cases hx
  | cons name rest ih =>
    obtain ⟨x', hx', hxrest⟩ := hx
    obtain ⟨y', hy', hyrest⟩ := hy
    have heq := h.named_unique hr hn hx' hy'
    subst heq
    obtain ⟨rfl, rfl⟩ | ⟨-, hxrest⟩ := hxrest
    · obtain ⟨-, rfl⟩ | ⟨-, hyrest⟩ := hyrest
      · rfl
      · exact absurd hyrest id
    · obtain ⟨rfl, rfl⟩ | ⟨-, hyrest⟩ := hyrest
      · exact absurd hxrest id
      · exact ih hxrest hyrest

theorem namesOwner_of_isSpace (hr : s.Rooted) {x : ScopeId} (hx : IsSpace s x) :
    s.namesOwner x = x := by
  obtain ⟨scope, hs, hk⟩ := hx
  exact hr.namesOwner_of_not_proxy hs (by simp [Scope.isProxy, hk, ScopeKind.isProxy])

/-- Climbing finds a path that leads back to where it started. -/
theorem climb_reaches (hr : s.Rooted) {d : ScopeId} (hd : s.Has d) {source : Option ScopeId}
    {path : Path} {a : Anchor} {x : ScopeId}
    (hclimb : climb source (some path) (s.chain d) = some a)
    (hx : Reaches s (s.namesOwner d) path x) :
    ∃ full, a.path = some full ∧ Reaches s a.base full x := by
  replace hd := hr.placed hd
  induction hd generalizing source path with
  | root hs hroot =>
    obtain ⟨-, hname, hk⟩ := hr.root hs hroot
    rw [chain_root hs hroot] at hclimb
    simp [climb, hk, hname] at hclimb
  | @child id p scope hs hp _ ih =>
    rw [hr.chain_child hs hp] at hclimb
    unfold climb at hclimb
    split at hclimb
    case h_1 hk =>
      cases hclimb
      rw [hr.namesOwner_of_not_proxy hs (by simp [Scope.isProxy, hk, ScopeKind.isProxy])] at hx
      exact ⟨path, rfl, hx⟩
    case h_2 hk =>
      cases hclimb
      rw [hr.namesOwner_of_not_proxy hs (by simp [Scope.isProxy, hk, ScopeKind.isProxy])] at hx
      exact ⟨path, rfl, hx⟩
    case h_3 hk =>
      rw [hr.namesOwner_of_proxy hs (by simp [Scope.isProxy, hk, ScopeKind.isProxy]) hp] at hx
      exact ih hclimb hx
    case h_4 hk =>
      split at hclimb
      case h_2 => cases hclimb
      case h_1 name path' hname hpath =>
        cases hpath
        have hspace : IsSpace s id := ⟨scope, hs, hk⟩
        rw [namesOwner_of_isSpace hr hspace] at hx
        exact ih hclimb ⟨id, ⟨scope, p, hs, hname, hp, rfl⟩, .inr ⟨hspace, hx⟩⟩

/-- Where no scope with a parent is open, paths are looked up by names. -/
theorem NamesSettled.lookupLocal?_of_reaches (h : NamesSettled s fs) (hr : s.Rooted)
    (hclosed : ∀ id scope d, s.scope? id = some scope → scope.parent = some d → ¬ IsOpen fs id)
    {path : Path} {owner x : ScopeId} {scope : Scope} (howner : s.namesOwner owner = owner)
    (hs : s.scope? x = some scope) (hx : Reaches s owner path x) :
    s.lookupLocal? owner path = some (scope.item x) := by
  induction path generalizing owner with
  | nil => cases hx
  | cons name rest ih =>
    obtain ⟨y, ⟨scope', d, hs', hname, hp, hd⟩, hrest⟩ := hx
    have hbound := h.bound y scope' name d hs' hname hp (hclosed y scope' d hs' hp)
    rw [getLocal?_of_namesOwner (hd.trans howner.symm)] at hbound
    obtain ⟨rfl, rfl⟩ | ⟨hspace, hrest⟩ := hrest
    · rw [hs] at hs'
      cases hs'
      exact hbound
    · have hfound := ih (namesOwner_of_isSpace hr hspace) hrest
      obtain ⟨found, hfoundScope, hk⟩ := hspace
      rw [hs'] at hfoundScope
      cases hfoundScope
      cases rest with
      | nil => cases hrest
      | cons next rest =>
        have hitem : scope'.item y = .space y := by simp [Scope.item, hk]
        unfold lookupLocal?
        rw [hbound, hitem]
        exact hfound

end

end PacketSchema.Compilation
