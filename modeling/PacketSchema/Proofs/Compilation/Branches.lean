import PacketSchema.Proofs.Compilation.Mirroring
import PacketSchema.Proofs.Compilation.Names
import PacketSchema.Proofs.Text.Split

/-! The branches of structs. Every variant that has been closed is a branch of what it was anchored
in, and every branch is such a variant, so that there is always a place for the next one. -/

namespace PacketSchema.Compilation

open Schema

/-- What holds of branches when some scopes are open. -/
structure BranchesSettled (s : Schema) (fs : List Frame) : Prop where
  registered : ∀ id scope base path, s.scope? id = some scope → scope.kind.base? = some base →
    scope.kind.path? = some path → ¬ IsOpen fs id →
    (∃ d, (⟨d, .branching id⟩ : Frame) ∈ fs) ∨
      ∃ layout, s.layout? base = some layout ∧ layout.branches.find? path = some id
  listed : ∀ base layout path id, s.layout? base = some layout →
    (path, id) ∈ layout.branches.entries →
    (∃ scope, s.scope? id = some scope ∧ scope.kind.base? = some base ∧
      scope.kind.path? = some path) ∧
      ¬ IsOpen fs id ∧ ∀ d, (⟨d, .branching id⟩ : Frame) ∉ fs
  pending : ∀ d id, (⟨d, .branching id⟩ : Frame) ∈ fs → ¬ IsOpen fs id ∧ s.Has id

theorem Anchored.name_of_path {s : Schema} (h : Anchored s) {id base : ScopeId} {scope : Scope}
    {path : Path} (hs : s.scope? id = some scope) (hb : scope.kind.base? = some base)
    (hp : scope.kind.path? = some path) : ∃ name, scope.name = some name := by
  obtain ⟨d, a, -, hclimb, -, hpath⟩ := h id scope base hs hb
  have hsome := climb_path_isSome hclimb
  rw [hpath, hp, Option.isSome_map] at hsome
  exact Option.isSome_iff_exists.1 hsome.symm

theorem Task.after_branching {id x : ScopeId} {scope : Scope}
    (h : Task.after id scope = .branching x) : x = id := by
  unfold Task.after at h
  split at h
  · cases h
    rfl
  · cases h

theorem Opens.branches {s : Schema} {d : ScopeId} {task : Task} {scope : Scope} {layout : Layout}
    (h : Opens s d task scope) (hl : scope.layout? = some layout) : layout.branches = {} := by
  obtain rfl | ⟨-, taken, -, rfl⟩ := h.layout_eq hl <;> rfl

/-- What a variant branches from, and by which path, is told by its shape. -/
theorem exists_branch_of_sameShapes {s s' : Schema} (hsame : s.SameShapes s') {id base : ScopeId}
    {path : Path} (h : ∃ scope, s.scope? id = some scope ∧ scope.kind.base? = some base ∧
      scope.kind.path? = some path) :
    ∃ scope, s'.scope? id = some scope ∧ scope.kind.base? = some base ∧
      scope.kind.path? = some path := by
  obtain ⟨scope, hs, hb, hp⟩ := h
  obtain ⟨scope', hs', heq⟩ := hsame.keeps id scope hs
  refine ⟨scope', hs', ?_, ?_⟩
  · rw [Scope.base?_eq heq, hb]
  · rw [Scope.path?_eq heq, hp]

namespace BranchesSettled

variable {s s' : Schema} {fs gs : List Frame}

/-- Nothing changes for branches while shapes and branches stay the same. -/
theorem view (h : BranchesSettled s fs) (hsame : s.SameShapes s')
    (hbranches : ∀ x, (s'.layout? x).map Layout.branches = (s.layout? x).map Layout.branches) :
    BranchesSettled s' fs where
  registered := by
    intro id scope' base path hs' hb' hp' hclosed
    obtain ⟨scope, hs, hb, hp⟩ := exists_branch_of_sameShapes hsame.symm ⟨scope', hs', hb', hp'⟩
    obtain hpending | ⟨layout, hl, hfound⟩ := h.registered id scope base path hs hb hp hclosed
    · exact .inl hpending
    · have hx := hbranches base
      rw [hl, Option.map_some] at hx
      obtain ⟨layout', hl', heq'⟩ := Option.map_eq_some_iff.1 hx
      exact .inr ⟨layout', hl', by rw [heq', hfound]⟩
  listed := by
    intro base layout' path id hl' hmem
    have hx := hbranches base
    rw [hl', Option.map_some] at hx
    obtain ⟨layout, hl, heq⟩ := Option.map_eq_some_iff.1 hx.symm
    rw [← heq] at hmem
    obtain ⟨hscope, hclosed⟩ := h.listed base layout path id hl hmem
    exact ⟨exists_branch_of_sameShapes hsame hscope, hclosed⟩
  pending := by
    intro d id hmem
    obtain ⟨hclosed, hhas⟩ := h.pending d id hmem
    exact ⟨hclosed, hsame.keeps.has hhas⟩

/-- Only what is open and what is to be registered matters of the open scopes. -/
theorem reframe (h : BranchesSettled s fs) (hopen : ∀ id, IsOpen gs id ↔ IsOpen fs id)
    (hbranching : ∀ d id, (⟨d, .branching id⟩ : Frame) ∈ gs ↔ ⟨d, .branching id⟩ ∈ fs) :
    BranchesSettled s gs where
  registered := by
    intro id scope base path hs hb hp hclosed
    rw [hopen] at hclosed
    obtain ⟨d, hd⟩ | hfound := h.registered id scope base path hs hb hp hclosed
    · exact .inl ⟨d, (hbranching d id).2 hd⟩
    · exact .inr hfound
  listed := by
    intro base layout path id hl hmem
    obtain ⟨hscope, hclosed, hnot⟩ := h.listed base layout path id hl hmem
    exact ⟨hscope, fun ho => hclosed ((hopen id).1 ho), fun d hd => hnot d ((hbranching d id).1 hd)⟩
  pending := by
    intro d id hmem
    obtain ⟨hclosed, hhas⟩ := h.pending d id ((hbranching d id).1 hmem)
    exact ⟨fun ho => hclosed ((hopen id).1 ho), hhas⟩

/-- The innermost scope may take up a task that is not about a branch. -/
theorem retask {d : ScopeId} {task task' : Task} (h : BranchesSettled s (⟨d, task⟩ :: fs))
    (htask : ∀ id, task ≠ .branching id) (htask' : ∀ id, task' ≠ .branching id) :
    BranchesSettled s (⟨d, task'⟩ :: fs) := by
  refine h.reframe (fun _ => Iff.rfl) fun e id => ?_
  constructor
  · intro hmem
    exact .tail _ (mem_of_task_ne hmem (htask' id).symm)
  · intro hmem
    exact .tail _ (mem_of_task_ne hmem (htask id).symm)

theorem enter {d : ScopeId} {task : Task} {scope : Scope} (h : BranchesSettled s fs)
    (hopens : Opens s d task scope) :
    BranchesSettled (s.addScope scope) (⟨s.nextId, .idle⟩ :: fs) := by
  have hne : ∀ {x}, s.Has x → x ≠ s.nextId := by
    rintro x hx rfl
    exact Nat.lt_irrefl _ hx
  constructor
  case registered =>
    intro id found base path hs hb hp hclosed
    rw [scope?_addScope] at hs
    split at hs
    · rename_i hid
      exact absurd (hid ▸ List.mem_cons_self) hclosed
    · obtain ⟨e, he⟩ | ⟨layout, hl, hfound⟩ :=
        h.registered id found base path hs hb hp fun ho => hclosed (.tail _ ho)
      · exact .inl ⟨e, .tail _ he⟩
      · obtain ⟨outer, hbase, -⟩ := Option.bind_eq_some_iff.1 hl
        exact .inr ⟨layout, by rw [layout?_addScope_of_has (has_of_scope? hbase), hl], hfound⟩
  case listed =>
    intro base layout path id hl hmem
    obtain ⟨outer, hbase, hlayout⟩ := Option.bind_eq_some_iff.1 hl
    rw [scope?_addScope] at hbase
    split at hbase
    · cases hbase
      rw [hopens.branches hlayout] at hmem
      cases hmem
    · have hl : s.layout? base = some layout := Option.bind_eq_some_iff.2 ⟨outer, hbase, hlayout⟩
      obtain ⟨⟨found, hs, hb, hp⟩, hclosed, hnot⟩ := h.listed base layout path id hl hmem
      have hhas := has_of_scope? hs
      refine ⟨⟨found, by rw [scope?_addScope_of_has hhas, hs], hb, hp⟩, ?_, ?_⟩
      · intro ho
        obtain heq | ho := List.mem_cons.1 ho
        · exact hne hhas heq
        · exact hclosed ho
      · intro e hmem
        exact hnot e (mem_of_task_ne hmem (by simp))
  case pending =>
    intro e id hmem
    obtain ⟨hclosed, hhas⟩ := h.pending e id (mem_of_task_ne hmem (by simp))
    refine ⟨fun ho => ?_, (keeps_addScope s scope).has hhas⟩
    obtain heq | ho := List.mem_cons.1 ho
    · exact hne hhas heq
    · exact hclosed ho

theorem leave {id : ScopeId} {scope : Scope} (h : BranchesSettled s (⟨id, .idle⟩ :: fs))
    (hanchored : Anchored s) (hs : s.scope? id = some scope) (hn : scope.name = none) :
    BranchesSettled s fs where
  registered := by
    intro x found base path hx hb hp hclosed
    have hclosed' : ¬ IsOpen (⟨id, .idle⟩ :: fs) x := by
      intro ho
      obtain rfl | ho := List.mem_cons.1 ho
      · rw [hs] at hx
        cases hx
        obtain ⟨name, hname⟩ := hanchored.name_of_path hs hb hp
        rw [hn] at hname
        cases hname
      · exact hclosed ho
    obtain ⟨d, hd⟩ | hfound := h.registered x found base path hx hb hp hclosed'
    · exact .inl ⟨d, mem_of_task_ne hd (by simp)⟩
    · exact .inr hfound
  listed := by
    intro base layout path x hl hmem
    obtain ⟨hscope, hclosed, hnot⟩ := h.listed base layout path x hl hmem
    exact ⟨hscope, fun ho => hclosed (.tail _ ho), fun d hd => hnot d (.tail _ hd)⟩
  pending := by
    intro d x hmem
    obtain ⟨hclosed, hhas⟩ := h.pending d x (.tail _ hmem)
    exact ⟨fun ho => hclosed (.tail _ ho), hhas⟩

/-- A scope is closed, and a variant is to be registered then. -/
theorem conclude {id d : ScopeId} {scope : Scope} {name : String}
    (h : BranchesSettled s (⟨id, .idle⟩ :: ⟨d, .naming name⟩ :: fs)) (hr : s.Rooted)
    (hn : Nested s (⟨id, .idle⟩ :: ⟨d, .naming name⟩ :: fs)) (hs : s.scope? id = some scope) :
    BranchesSettled s (⟨d, .after id scope⟩ :: fs) where
  registered := by
    intro x found base path hx hb hp hclosed
    by_cases hid : x = id
    · subst hid
      rw [hs] at hx
      cases hx
      rw [Task.after_of_path hp]
      exact .inl ⟨d, .head _⟩
    · have hclosed' : ¬ IsOpen (⟨id, .idle⟩ :: ⟨d, .naming name⟩ :: fs) x := by
        intro ho
        obtain heq | ho := List.mem_cons.1 ho
        · exact hid heq
        · exact hclosed ho
      obtain ⟨e, he⟩ | hfound := h.registered x found base path hx hb hp hclosed'
      · have he := mem_of_task_ne he (by simp)
        exact .inl ⟨e, .tail _ (mem_of_task_ne he (by simp))⟩
      · exact .inr hfound
  listed := by
    intro base layout path x hl hmem
    obtain ⟨hscope, hclosed, hnot⟩ := h.listed base layout path x hl hmem
    refine ⟨hscope, fun ho => hclosed (.tail _ ho), fun e he => ?_⟩
    obtain heq | he := List.mem_cons.1 he
    · injection heq with _ htask
      have hx := Task.after_branching htask.symm
      exact hclosed (hx ▸ List.mem_cons_self)
    · exact hnot e (.tail _ (.tail _ he))
  pending := by
    intro e x he
    obtain heq | he := List.mem_cons.1 he
    · injection heq with _ htask
      have hx := Task.after_branching htask.symm
      subst hx
      refine ⟨fun ho => ?_, has_of_scope? hs⟩
      have hopen : IsOpen (⟨d, .naming name⟩ :: fs) x := ho
      obtain ⟨f, hf, heq⟩ := List.mem_map.1 hopen
      have hlt := hn.lt_head hr hf
      rw [heq] at hlt
      exact Nat.lt_irrefl _ hlt
    · obtain ⟨hclosed, hhas⟩ := h.pending e x (.tail _ (.tail _ he))
      exact ⟨fun ho => hclosed (.tail _ ho), hhas⟩

theorem register {id d base : ScopeId} {scope : Scope} {path : Path} {layout : Layout}
    (h : BranchesSettled s (⟨d, .branching id⟩ :: fs)) (hn : Nested s (⟨d, .branching id⟩ :: fs))
    (hs : s.scope? id = some scope) (hb : scope.kind.base? = some base)
    (hp : scope.kind.path? = some path) (hl : s.layout? base = some layout)
    (hnew : layout.branches.find? path = none) :
    BranchesSettled (s.modifyLayout base (·.addBranch path id)) (⟨d, .idle⟩ :: fs) := by
  have hsame := SameShapes.modifyLayout s base (·.addBranch path id)
  have hlayout := layout?_modifyLayout_of_some hl (·.addBranch path id)
  constructor
  case registered =>
    intro x scope' base' path' hs' hbase' hpath' hclosed
    obtain ⟨found, hx, hb', hp'⟩ :=
      exists_branch_of_sameShapes hsame.symm ⟨scope', hs', hbase', hpath'⟩
    obtain ⟨e, he⟩ | ⟨old, hold, hfound⟩ := h.registered x found base' path' hx hb' hp' hclosed
    · obtain heq | he := List.mem_cons.1 he
      · injection heq with _ hid
        cases hid
        rw [hs] at hx
        cases hx
        rw [hb] at hb'
        cases hb'
        rw [hp] at hp'
        cases hp'
        refine .inr ⟨layout.addBranch path id, by rw [hlayout, if_pos rfl], ?_⟩
        exact (Table.find?_insert _ _ _ _).trans (if_pos rfl)
      · exact .inl ⟨e, .tail _ he⟩
    · rw [hlayout]
      by_cases hbase : base' = base
      · subst hbase
        rw [hl] at hold
        cases hold
        refine .inr ⟨_, if_pos rfl, ?_⟩
        refine (Table.find?_insert _ _ _ _).trans ((if_neg ?_).trans hfound)
        rintro rfl
        rw [hnew] at hfound
        cases hfound
      · exact .inr ⟨old, (if_neg hbase).trans hold, hfound⟩
  case listed =>
    have hnot : ∀ {x}, (∀ e, (⟨e, .branching x⟩ : Frame) ∉ fs) →
        ∀ e, (⟨e, .branching x⟩ : Frame) ∉ ⟨d, .idle⟩ :: fs := by
      intro x hx e he
      exact hx e (mem_of_task_ne he (by simp))
    intro base' layout' path' x hl' hmem
    rw [hlayout] at hl'
    split at hl'
    · rename_i hbase
      subst hbase
      cases hl'
      have hentries : (layout.addBranch path id).branches.entries =
          layout.branches.entries ++ [(path, id)] :=
        Table.entries_insert_of_find?_eq_none hnew id
      rw [hentries, List.mem_append, List.mem_singleton] at hmem
      obtain hmem | hmem := hmem
      · obtain ⟨hscope, hclosed, hold⟩ := h.listed base' layout path' x hl hmem
        exact ⟨exists_branch_of_sameShapes hsame hscope, hclosed,
          hnot fun e he => hold e (.tail _ he)⟩
      · cases hmem
        obtain ⟨hclosed, -⟩ := h.pending d id (.head _)
        exact ⟨exists_branch_of_sameShapes hsame ⟨scope, hs, hb, hp⟩, hclosed,
          hnot fun e => hn.not_branching⟩
    · obtain ⟨hscope, hclosed, hold⟩ := h.listed base' layout' path' x hl' hmem
      exact ⟨exists_branch_of_sameShapes hsame hscope, hclosed,
        hnot fun e he => hold e (.tail _ he)⟩
  case pending =>
    intro e x he
    obtain ⟨hclosed, hhas⟩ := h.pending e x (.tail _ (mem_of_task_ne he (by simp)))
    exact ⟨hclosed, hsame.keeps.has hhas⟩

end BranchesSettled

theorem Step.branchesSettled {st st' : Stage} (h : Step st st') (hst : st.Sound)
    (hnames : NamesSettled st.schema st.frames)
    (hbranches : BranchesSettled st.schema st.frames) :
    BranchesSettled st'.schema st'.frames := by
  obtain ⟨hr, hn⟩ := hst
  cases h with
  | @note r c fs h =>
    refine hbranches.view (.of_scopes_eq h.scopes_eq) fun x => ?_
    exact congrArg _ (layout?_of_scopes_eq h.scopes_eq x)
  | field _ _ _ =>
    exact hbranches.view (.modifyLayout _ _ _) fun x =>
      map_layout?_modifyLayout _ x fun _ => rfl
  | constraint _ _ _ =>
    exact hbranches.view (.modifyLayout _ _ _) fun x =>
      map_layout?_modifyLayout _ x fun _ => rfl
  | announce _ _ => exact hbranches.retask (by simp) (by simp)
  | enter h => exact hbranches.enter h
  | leave hs hname => exact hbranches.leave hnames.anchored hs hname
  | assign t =>
    refine (hbranches.retask (by simp) (by simp)).view (.bind _ _ _ _) fun x => ?_
    exact congrArg _ (layout?_bind _ _ x _ _)
  | conclude hs _ =>
    refine (hbranches.conclude hr hn hs).view (.bind _ _ _ _) fun x => ?_
    exact congrArg _ (layout?_bind _ _ x _ _)
  | register hs hb hp hl hnew => exact hbranches.register hn hs hb hp hl hnew

theorem BranchesSettled.start (options : Options) :
    BranchesSettled (Stage.start options).schema (Stage.start options).frames where
  registered := by
    intro id scope base path hs hb
    rw [List.mem_singleton.1 (List.mem_of_getElem? hs)] at hb
    cases hb
  listed := by
    intro base layout path id hl
    obtain ⟨scope, hs, hlayout⟩ := Option.bind_eq_some_iff.1 hl
    rw [List.mem_singleton.1 (List.mem_of_getElem? hs)] at hlayout
    cases hlayout
  pending := by
    intro d id hmem
    cases mem_of_task_ne hmem (by simp)

/-- What every stage of a compilation satisfies. -/
structure Stage.Settled (st : Stage) : Prop where
  sound : st.Sound
  names : NamesSettled st.schema st.frames
  branches : BranchesSettled st.schema st.frames

theorem Steps.settled {options : Options} {st : Stage} (h : Steps (.start options) st) :
    st.Settled := by
  induction h with
  | refl => exact ⟨Stage.sound_start options, .start options, .start options⟩
  | tail _ h ih =>
    exact ⟨h.sound ih.sound, h.namesSettled ih.sound ih.names,
      h.branchesSettled ih.sound ih.names ih.branches⟩

/-! ## There is a place for every branch -/

section

variable {s : Schema} {fs : List Frame}

/-- A variant is reached from what it branches from by its path. -/
theorem NamesSettled.reaches (h : NamesSettled s fs) (hr : s.Rooted) {id base : ScopeId}
    {scope : Scope} {path : Path} (hs : s.scope? id = some scope)
    (hb : scope.kind.base? = some base) (hp : scope.kind.path? = some path) :
    Reaches s base path id := by
  obtain ⟨name, hname⟩ := h.anchored.name_of_path hs hb hp
  obtain ⟨d, a, hparent, hclimb, rfl, hpath⟩ := h.anchored id scope base hs hb
  rw [hname] at hclimb
  have hself : Reaches s (s.namesOwner d) [name] id :=
    ⟨id, ⟨scope, d, hs, hname, hparent, rfl⟩, .inl ⟨rfl, rfl⟩⟩
  obtain ⟨full, hfull, hreaches⟩ := climb_reaches hr (hr.has_parent hs hparent) hclimb hself
  rw [hpath, hp] at hfull
  cases hfull
  exact hreaches

theorem Anchored.base_layout? (h : Anchored s) (hr : s.Rooted) {id base : ScopeId} {scope : Scope}
    (hs : s.scope? id = some scope) (hb : scope.kind.base? = some base) :
    ∃ owner layout, s.scope? base = some owner ∧ owner.layout? = some layout ∧
      owner.isProxy = false := by
  obtain ⟨d, a, hparent, hclimb, rfl, -⟩ := h id scope base hs hb
  obtain ⟨link, hfind, hbase⟩ := Option.map_eq_some_iff.1 (climb_base hclimb)
  have hlink := hr.scope?_of_mem_chain (hr.has_parent hs hparent) (List.mem_of_find?_eq_some hfind)
  have hstruct := List.find?_some hfind
  simp only [Bool.and_eq_true, Bool.not_eq_true'] at hstruct
  obtain ⟨layout, hlayout⟩ := Option.isSome_iff_exists.1 hstruct.1
  exact ⟨link.2, layout, by rw [← hbase, hlink], hlayout, hstruct.2⟩

end

theorem Stage.Settled.not_stuck {st : Stage} (h : st.Settled) : ¬ Stuck st := by
  rintro ⟨r, d, id, fs, scope, base, path, rfl, hs, hb, hp, hstuck⟩
  obtain ⟨⟨hr, hn⟩, hnames, hbranches⟩ := h
  obtain ⟨owner, layout, howner, hlayout, -⟩ := hnames.anchored.base_layout? hr hs hb
  have hl : r.current.schema.layout? base = some layout :=
    Option.bind_eq_some_iff.2 ⟨owner, howner, hlayout⟩
  obtain ⟨other, hother⟩ := Option.ne_none_iff_exists'.1 (hstuck layout hl)
  obtain ⟨⟨scope', hs', hb', hp'⟩, -, hnot⟩ :=
    hbranches.listed base layout path other hl (Table.mem_of_find? hother)
  have heq : id = other :=
    hnames.reaches_unique hr hn (hnames.reaches hr hs hb hp) (hnames.reaches hr hs' hb' hp')
  exact hnot d (heq ▸ List.mem_cons_self)

/-! ## Compiled schemas -/

/-- The path that climbing finds is made of the names on the way. -/
theorem climb_undotted {source : Option ScopeId} {path : Path} {links : List (ScopeId × Scope)}
    {a : Anchor} (h : climb source (some path) links = some a)
    (hpath : ∀ name ∈ path, Undotted name)
    (hlinks : ∀ link ∈ links, ∀ name, link.2.name = some name → Undotted name) :
    ∀ full, a.path = some full → ∀ name ∈ full, Undotted name := by
  induction links generalizing source path with
  | nil => cases h
  | cons link links ih =>
    obtain ⟨id, scope⟩ := link
    have hrest : ∀ link ∈ links, ∀ name, link.2.name = some name → Undotted name :=
      fun link hlink => hlinks link (.tail _ hlink)
    unfold climb at h
    split at h
    case h_1 =>
      cases h
      rintro full ⟨⟩
      exact hpath
    case h_2 =>
      cases h
      rintro full ⟨⟩
      exact hpath
    case h_3 => exact ih h hpath hrest
    case h_4 =>
      split at h
      case h_2 => cases h
      case h_1 name path' hname heq =>
        cases heq
        refine ih h (fun other hother => ?_) hrest
        obtain rfl | hother := List.mem_cons.1 hother
        · exact hlinks (id, scope) (.head _) other hname
        · exact hpath other hother

theorem NamesSettled.path_undotted {s : Schema} {fs : List Frame} (h : NamesSettled s fs)
    (hr : s.Rooted) {id base : ScopeId} {scope : Scope} {path : Path}
    (hs : s.scope? id = some scope) (hb : scope.kind.base? = some base)
    (hp : scope.kind.path? = some path) : ∀ name ∈ path, Undotted name := by
  obtain ⟨name, hname⟩ := h.anchored.name_of_path hs hb hp
  obtain ⟨d, a, hparent, hclimb, -, hpath⟩ := h.anchored id scope base hs hb
  rw [hname] at hclimb
  refine climb_undotted hclimb ?_ ?_ path (hpath.trans hp)
  · intro other hother
    rw [List.mem_singleton.1 hother]
    exact h.undotted id scope name hs hname
  · intro link hlink other hother
    exact h.undotted link.1 link.2 other
      (hr.scope?_of_mem_chain (hr.has_parent hs hparent) hlink) hother

end PacketSchema.Compilation

namespace PacketSchema.Schema

open Compilation

/-- The variants of a schema and the branches of its structs are the same, one for one. -/
structure BranchesMatch (s : Schema) : Prop where
  /-- A variant branches from the nearest struct around it that is no proxy, by its path. -/
  registered : ∀ id scope layout base path, s.scope? id = some scope →
    scope.kind = .variant layout base path →
    s.enclosing? id (fun outer => outer.isStruct && !outer.isProxy) = some base ∧
      ∃ own, s.layout? base = some own ∧ own.branches.find? path = some id
  /-- What is listed as a branch is a variant of just this struct, and its path is bound to it. -/
  listed : ∀ base own path id, s.layout? base = some own → (path, id) ∈ own.branches.entries →
    (∃ scope layout, s.scope? id = some scope ∧ scope.kind = .variant layout base path) ∧
      s.lookupLocal? base (Path.ofText path.text) = some (.type (.struct id))

theorem branchesMatch_of_settled {s : Schema} (hr : s.Rooted)
    (hnames : NamesSettled s [⟨root, .idle⟩]) (hbranches : BranchesSettled s [⟨root, .idle⟩]) :
    s.BranchesMatch := by
  have hclosed : ∀ id scope d, s.scope? id = some scope → scope.parent = some d →
      ¬ IsOpen [⟨root, .idle⟩] id := by
    intro id scope d hs hp hopen
    exact hr.ne_root hs hp (List.mem_singleton.1 hopen)
  constructor
  case registered =>
    intro id scope layout base path hs hk
    have hb : scope.kind.base? = some base := by rw [hk]; rfl
    have hp : scope.kind.path? = some path := by rw [hk]; rfl
    obtain ⟨d, a, hparent, hclimb, rfl, -⟩ := hnames.anchored id scope base hs hb
    refine ⟨?_, ?_⟩
    · rw [hr.enclosing?_child hs hparent]
      exact climb_base hclimb
    · obtain ⟨e, he⟩ | hfound :=
        hbranches.registered id scope a.base path hs hb hp (hclosed id scope d hs hparent)
      · cases mem_of_task_ne he (by simp)
      · exact hfound
  case listed =>
    intro base own path id hl hmem
    obtain ⟨⟨scope, hs, hb, hp⟩, -⟩ := hbranches.listed base own path id hl hmem
    obtain ⟨layout, hk⟩ : ∃ layout, scope.kind = .variant layout base path := by
      cases hk : scope.kind <;> simp_all [ScopeKind.base?, ScopeKind.path?]
    refine ⟨⟨scope, layout, hs, hk⟩, ?_⟩
    obtain ⟨owner, -, howner, -, hproxy⟩ := hnames.anchored.base_layout? hr hs hb
    have hreaches := hnames.reaches hr hs hb hp
    have hne : path ≠ [] := by
      rintro rfl
      exact hreaches
    rw [Path.ofText_text hne (hnames.path_undotted hr hs hb hp),
      hnames.lookupLocal?_of_reaches hr hclosed (hr.namesOwner_of_not_proxy howner hproxy) hs
        hreaches]
    simp [Scope.item, hk]

/-- In a compiled schema the branches match the variants, and no compilation fails for want of a
place for a branch. -/
theorem ofSources_branchesMatch (options : Options) (sources : List (String × String)) :
    match ofSources options sources with
    | .ok s => s.BranchesMatch
    | .error e => ¬ e.IsRegistration := by
  rw [ofSources_eq_recorded]
  rcases hrun : recorded options sources with ⟨e | ⟨⟩, r⟩
  · obtain ⟨fs, hsteps, hstuck⟩ := recorded_error hrun
    exact fun he => hsteps.settled.not_stuck (hstuck he)
  · have hsettled := (recorded_ok hrun).settled
    exact branchesMatch_of_settled hsettled.sound.rooted hsettled.names hsettled.branches

end PacketSchema.Schema
