import PacketSchema.Proofs.Compilation.Recording
import PacketSchema.Proofs.Declaration.Undotted
import PacketSchema.Proofs.Schema.Updates
import PacketSchema.Proofs.WireType.Interning

/-! A recorded compilation as the run of a machine. A stage of it is a recording together with the
scopes that are open, and every step makes at most one change, under the conditions that the
compilation has checked. What holds after every step holds of every compilation. -/

namespace PacketSchema

/-- What the name of a scope is bound to. -/
def Scope.item (scope : Scope) (id : ScopeId) : Item :=
  match scope.kind with
  | .space => .space id
  | .struct _ | .variant _ _ _ | .proxy _ _ => .type (.struct id)

theorem Scope.item_scope? (scope : Scope) (id : ScopeId) : (scope.item id).scope? = some id := by
  unfold item
  cases scope.kind <;> rfl

theorem Scope.item_shape {scope scope' : Scope} (h : scope'.shape = scope.shape) (id : ScopeId) :
    scope'.item id = scope.item id := by
  have hkind : scope'.shape.kind = scope.shape.kind := by rw [h]
  unfold shape at hkind
  unfold item
  cases hk : scope.kind <;> cases hk' : scope'.kind <;>
    simp [hk, hk', ScopeKind.mapLayout] at hkind ⊢

namespace Compilation

open Schema

def mapSchema (c : Compilation) (f : Schema → Schema) : Compilation :=
  { c with schema := f c.schema }

/-- What is under way in an open scope. -/
inductive Task where
  | idle
  /-- A declaration, the name of which is bound when it is complete. -/
  | naming (name : String)
  /-- A variant that is bound and not yet a branch. -/
  | branching (id : ScopeId)

def Task.ofName : Option String → Task
  | none => idle
  | some name => naming name

/-- The task of a scope in which another one is opened. -/
def Task.Admits : Task → Scope → Prop
  | idle, scope => scope.name = none
  | naming name, scope => (scope.name = none ∨ scope.name = some name) ∧ scope.isProxy = false
  | branching _, _ => False

/-- What is under way when a scope has been closed and bound. -/
def Task.after (id : ScopeId) (scope : Scope) : Task :=
  if scope.kind.path?.isSome then branching id else idle

theorem Task.after_of_path {id : ScopeId} {scope : Scope} {path : Path}
    (h : scope.kind.path? = some path) : Task.after id scope = .branching id := by
  simp [after, h]

theorem Task.after_of_no_path {id : ScopeId} {scope : Scope} (h : scope.kind.path? = none) :
    Task.after id scope = .idle := by
  simp [after, h]

structure Frame where
  scope : ScopeId
  task : Task := .idle

structure Stage where
  recording : Recording
  /-- The open scopes, the innermost first. -/
  frames : List Frame

namespace Stage

def now (st : Stage) : Compilation := st.recording.current

def schema (st : Stage) : Schema := st.now.schema

def moments (st : Stage) : List Compilation := st.recording.moments

def start (options : Options) : Stage := ⟨⟨.start options, []⟩, [⟨root, .idle⟩]⟩

end Stage

/-- A change that leaves the scopes alone. -/
inductive Note (c : Compilation) : Compilation → Prop
  | report (e : Event) : Note c { c with log := c.log ++ [e] }
  | mark (id : ScopeId) : Note c { c with snapshotted := id :: c.snapshotted }
  | intern (t : ParamType) :
      Note c (c.mapSchema fun s => { s with types := (c.schema.types.intern t).2 })
  | warn (f : Finding) : Note c (c.mapSchema (·.addWarning f))

/-- The scopes that may be opened in a scope with a task. -/
inductive Opens (s : Schema) (d : ScopeId) : Task → Scope → Prop
  | space (name : String) (p : Position) :
      Opens s d (.naming name) ⟨some name, some d, some p, .space, {}⟩
  | struct (name : String) (p : Position) :
      Opens s d (.naming name) ⟨some name, some d, some p, .struct {}, {}⟩
  | inline {name : Option String} (p : Position) :
      Opens s d (.ofName name) ⟨none, some d, some p, .struct {}, {}⟩
  | arm (name : Option String) {a : Anchor} (p : Position)
      (h : climb none (name.map ([·])) (s.chain d) = some a) :
      Opens s d (.ofName name)
        ⟨name, some d, some p, a.kind (((s.layout? a.source).map Layout.snapshot).getD {}), {}⟩

/-- The type of the field with a name has the literal as a value, if that is asked for. -/
def Fits (c : Compilation) (layout : Layout) (name : String) (value : Literal) : Prop :=
  c.options.typedConstraints = true →
    ∀ field, layout.fields.find? name = some field → literalFits c.schema field.type value = true

inductive Step : Stage → Stage → Prop
  | note {r c fs} (h : Note r.current c) : Step ⟨r, fs⟩ ⟨r.push c, fs⟩
  | field {r d fs layout name} (field : Field)
      (hl : r.current.schema.layout? d = some layout) (hnew : layout.fields.find? name = none) :
      Step ⟨r, ⟨d, .idle⟩ :: fs⟩
        ⟨r.push (r.current.mapSchema (·.modifyLayout d (·.addField name field))),
          ⟨d, .idle⟩ :: fs⟩
  | constraint {r d fs layout name value}
      (hl : r.current.schema.layout? d = some layout) (hfits : Fits r.current layout name value)
      (hsame : ∀ existing, layout.constraints.find? name = some existing → existing = value) :
      Step ⟨r, ⟨d, .idle⟩ :: fs⟩
        ⟨r.push (r.current.mapSchema (·.modifyLayout d (·.addConstraint name value))),
          ⟨d, .idle⟩ :: fs⟩
  | announce {r d fs name} (hname : Undotted name)
      (hfree : r.current.schema.getLocal? d name = none) :
      Step ⟨r, ⟨d, .idle⟩ :: fs⟩ ⟨r, ⟨d, .naming name⟩ :: fs⟩
  | enter {r d task fs scope} (h : Opens r.current.schema d task scope) :
      Step ⟨r, ⟨d, task⟩ :: fs⟩
        ⟨r.push (r.current.mapSchema (·.addScope scope)),
          ⟨r.current.schema.nextId, .idle⟩ :: ⟨d, task⟩ :: fs⟩
  | leave {r id f fs scope} (hs : r.current.schema.scope? id = some scope)
      (hn : scope.name = none) :
      Step ⟨r, ⟨id, .idle⟩ :: f :: fs⟩ ⟨r, f :: fs⟩
  | assign {r d fs name} (t : TypeRef) :
      Step ⟨r, ⟨d, .naming name⟩ :: fs⟩
        ⟨r.push (r.current.mapSchema (·.bind d name (.type t))), ⟨d, .idle⟩ :: fs⟩
  | conclude {r id d fs scope name} (hs : r.current.schema.scope? id = some scope)
      (hn : scope.name = some name) :
      Step ⟨r, ⟨id, .idle⟩ :: ⟨d, .naming name⟩ :: fs⟩
        ⟨r.push (r.current.mapSchema (·.bind d name (scope.item id))),
          ⟨d, .after id scope⟩ :: fs⟩
  | register {r id d fs scope base path layout} (hs : r.current.schema.scope? id = some scope)
      (hb : scope.kind.base? = some base) (hp : scope.kind.path? = some path)
      (hl : r.current.schema.layout? base = some layout)
      (hnew : layout.branches.find? path = none) :
      Step ⟨r, ⟨d, .branching id⟩ :: fs⟩
        ⟨r.push (r.current.mapSchema (·.modifyLayout base (·.addBranch path id))),
          ⟨d, .idle⟩ :: fs⟩

abbrev Steps : Stage → Stage → Prop := Relation.ReflTransGen Step

/-! ## Shapes -/

namespace Note

variable {c c' : Compilation}

theorem scopes_eq (h : Note c c') : c'.schema.scopes = c.schema.scopes := by
  cases h <;> rfl

theorem options_eq (h : Note c c') : c'.options = c.options := by
  cases h <;> rfl

theorem types_prefix (h : Note c c') : c.schema.types.types <+: c'.schema.types.types := by
  cases h with
  | intern t => exact TypeCache.types_prefix_intern _ t
  | report _ => exact List.prefix_rfl
  | mark _ => exact List.prefix_rfl
  | warn _ => exact List.prefix_rfl

end Note

theorem Step.keeps {st st' : Stage} (h : Step st st') : st.schema.Keeps st'.schema := by
  cases h with
  | note h => exact (SameShapes.of_scopes_eq h.scopes_eq).keeps
  | field _ _ _ => exact (SameShapes.modifyLayout _ _ _).keeps
  | constraint _ _ _ => exact (SameShapes.modifyLayout _ _ _).keeps
  | announce _ _ => exact Keeps.refl _
  | enter _ => exact keeps_addScope _ _
  | leave _ _ => exact Keeps.refl _
  | assign _ => exact (SameShapes.bind _ _ _ _).keeps
  | conclude _ _ => exact (SameShapes.bind _ _ _ _).keeps
  | register _ _ _ _ _ => exact (SameShapes.modifyLayout _ _ _).keeps

theorem Steps.keeps {st st' : Stage} (h : Steps st st') : st.schema.Keeps st'.schema := by
  induction h with
  | refl => exact Keeps.refl _
  | tail _ h ih => exact ih.trans h.keeps

theorem Anchor.kind_layout? (a : Anchor) (layout : Layout) :
    (a.kind layout).layout? = some layout := by
  unfold Anchor.kind
  split <;> rfl

theorem Anchor.kind_base? (a : Anchor) (layout : Layout) : (a.kind layout).base? = some a.base := by
  unfold Anchor.kind
  split <;> rfl

theorem Anchor.kind_path? (a : Anchor) (layout : Layout) : (a.kind layout).path? = a.path := by
  unfold Anchor.kind
  split <;> simp [ScopeKind.path?, *]

theorem Anchor.kind_isProxy (a : Anchor) (layout : Layout) :
    (a.kind layout).isProxy = a.path.isNone := by
  unfold Anchor.kind
  split <;> simp [ScopeKind.isProxy, *]

theorem Opens.parent {s : Schema} {d : ScopeId} {task : Task} {scope : Scope}
    (h : Opens s d task scope) : scope.parent = some d := by
  cases h <;> rfl

theorem Opens.names {s : Schema} {d : ScopeId} {task : Task} {scope : Scope}
    (h : Opens s d task scope) : scope.names = {} := by
  cases h <;> rfl

/-- A new scope has nothing but what it takes over. -/
theorem Opens.layout_eq {s : Schema} {d : ScopeId} {task : Task} {scope : Scope} {layout : Layout}
    (h : Opens s d task scope) (hl : scope.layout? = some layout) :
    layout = {} ∨ ∃ source taken, s.layout? source = some taken ∧ layout = taken.snapshot := by
  cases h with
  | space _ _ => cases hl
  | struct _ _ =>
    cases hl
    exact .inl rfl
  | inline _ =>
    cases hl
    exact .inl rfl
  | @arm _ a _ _ =>
    have hlayout := (a.kind_layout? _).symm.trans hl
    rw [← Option.some.inj hlayout]
    cases hsource : s.layout? a.source with
    | none => exact .inl rfl
    | some taken => exact .inr ⟨a.source, taken, hsource, rfl⟩

theorem Opens.admits {s : Schema} {d : ScopeId} {task : Task} {scope : Scope}
    (h : Opens s d task scope) : task.Admits scope := by
  cases h with
  | space _ _ => exact ⟨.inr rfl, rfl⟩
  | struct _ _ => exact ⟨.inr rfl, rfl⟩
  | @inline name _ =>
    cases name with
    | none => exact rfl
    | some _ => exact ⟨.inl rfl, rfl⟩
  | @arm name a _ h =>
    have hpath := climb_path_isSome h
    cases name with
    | none => exact rfl
    | some _ =>
      refine ⟨.inr rfl, ?_⟩
      unfold Scope.isProxy
      rw [a.kind_isProxy]
      cases hp : a.path <;> simp_all

/-- A scope takes its name from the task of the scope in which it is opened. -/
theorem Opens.name {s : Schema} {d : ScopeId} {task : Task} {scope : Scope} {name : String}
    (h : Opens s d task scope) (hname : scope.name = some name) : task = .naming name := by
  cases h with
  | space _ _ => cases hname; rfl
  | struct _ _ => cases hname; rfl
  | inline _ => cases hname
  | arm _ _ _ =>
    cases hname
    rfl

/-! ## The open scopes -/

def IsOpen (fs : List Frame) (id : ScopeId) : Prop := id ∈ fs.map Frame.scope

theorem mem_of_task_ne {f g : Frame} {fs : List Frame} (h : f ∈ g :: fs)
    (htask : f.task ≠ g.task) : f ∈ fs := by
  obtain rfl | h := List.mem_cons.1 h
  · exact absurd rfl htask
  · exact h

/-- Every open scope stands in the next one, down to the root. -/
def Nested (s : Schema) : List Frame → Prop
  | [] => False
  | [f] => f.scope = root ∧ s.Has root
  | f :: g :: fs =>
    (∃ scope, s.scope? f.scope = some scope ∧ scope.parent = some g.scope ∧ g.task.Admits scope) ∧
      Nested s (g :: fs)

theorem Task.admits_shape {task : Task} {scope scope' : Scope} (h : scope'.shape = scope.shape) :
    task.Admits scope' ↔ task.Admits scope := by
  have hname : scope'.name = scope.name := by rw [Scope.name_eq h]
  have hproxy : scope'.isProxy = scope.isProxy := by
    rw [Scope.isProxy_eq h]
  cases task <;> simp [Task.Admits, hname, hproxy]

namespace Nested

variable {s s' : Schema}

theorem has {f : Frame} {fs : List Frame} (h : Nested s (f :: fs)) : s.Has f.scope := by
  cases fs with
  | nil => exact h.1 ▸ h.2
  | cons g fs =>
    obtain ⟨⟨scope, hs, -, -⟩, -⟩ := h
    exact has_of_scope? hs

theorem keeps {fs : List Frame} (h : Nested s fs) (hk : s.Keeps s') : Nested s' fs := by
  induction fs with
  | nil => exact h
  | cons f fs ih =>
    cases fs with
    | nil => exact ⟨h.1, hk.has h.2⟩
    | cons g fs =>
      obtain ⟨⟨scope, hs, hp, hadmits⟩, htail⟩ := h
      obtain ⟨scope', hs', heq⟩ := hk _ _ hs
      refine ⟨⟨scope', hs', ?_, (Task.admits_shape heq).2 hadmits⟩, ih htail⟩
      rw [Scope.parent_eq heq, hp]

/-- The innermost scope may take up another task. -/
theorem retask {d : ScopeId} {task : Task} {fs : List Frame} (h : Nested s (⟨d, task⟩ :: fs))
    (task' : Task) : Nested s (⟨d, task'⟩ :: fs) := by
  cases fs with
  | nil => exact h
  | cons g fs => exact h

/-- The open scopes are those around the innermost one. -/
theorem chain (hr : s.Rooted) {f : Frame} {fs : List Frame} (h : Nested s (f :: fs)) :
    (s.chain f.scope).map Prod.fst = (f :: fs).map Frame.scope := by
  induction fs generalizing f with
  | nil =>
    obtain ⟨hroot, hhas⟩ := h
    obtain ⟨scope, hs⟩ := hhas.scope?
    rw [hroot, chain_root hs (hr.parent_root hs)]
    simp [hroot]
  | cons g fs ih =>
    obtain ⟨⟨scope, hs, hp, -⟩, htail⟩ := h
    rw [hr.chain_child hs hp, List.map_cons, ih htail]
    rfl

theorem has_of_mem {fs : List Frame} (h : Nested s fs) {f : Frame} (hf : f ∈ fs) :
    s.Has f.scope := by
  induction fs with
  | nil => cases hf
  | cons g fs ih =>
    obtain rfl | hf := List.mem_cons.1 hf
    · exact h.has
    · cases fs with
      | nil => cases hf
      | cons e fs => exact ih h.2 hf

/-- The innermost scope is the youngest. -/
theorem lt_head (hr : s.Rooted) {f g : Frame} {fs : List Frame} (h : Nested s (f :: fs))
    (hg : g ∈ fs) : g.scope.index < f.scope.index := by
  induction fs generalizing f with
  | nil => cases hg
  | cons e fs ih =>
    obtain ⟨⟨scope, hs, hp, -⟩, htail⟩ := h
    have hlt := hr.parent_lt hs hp
    obtain rfl | hg := List.mem_cons.1 hg
    · exact hlt
    · have hinner := ih htail hg
      omega

/-- Only in the innermost scope there may be a variant to register. -/
theorem not_branching {f : Frame} {fs : List Frame} (h : Nested s (f :: fs)) {d id : ScopeId} :
    (⟨d, .branching id⟩ : Frame) ∉ fs := by
  induction fs generalizing f with
  | nil => exact List.not_mem_nil
  | cons g fs ih =>
    obtain ⟨⟨scope, -, -, hadmits⟩, htail⟩ := h
    intro hmem
    obtain rfl | hmem := List.mem_cons.1 hmem
    · exact hadmits
    · exact ih htail hmem

/-- Where an open scope stands, its name is about to be bound. -/
theorem naming {fs : List Frame} (hr : s.Rooted) (h : Nested s fs) {f : Frame} (hf : f ∈ fs)
    {scope : Scope} {name : String} {d : ScopeId} (hs : s.scope? f.scope = some scope)
    (hname : scope.name = some name) (hp : scope.parent = some d) :
    (⟨d, .naming name⟩ : Frame) ∈ fs := by
  induction fs with
  | nil => cases hf
  | cons g fs ih =>
    cases fs with
    | nil =>
      obtain rfl | hf := List.mem_cons.1 hf
      · have hlt := hr.parent_lt hs hp
        rw [h.1] at hlt
        exact absurd hlt (Nat.not_lt_zero _)
      · cases hf
    | cons e fs =>
      obtain ⟨⟨found, hs', hp', hadmits⟩, htail⟩ := h
      obtain rfl | hf := List.mem_cons.1 hf
      · rw [hs] at hs'
        cases hs'
        rw [hp] at hp'
        cases hp'
        obtain ⟨parent, task⟩ := e
        have htask : task = .naming name := by
          cases task with
          | idle =>
            rw [show scope.name = none from hadmits] at hname
            cases hname
          | naming other =>
            obtain ⟨hnone | hsome, -⟩ := hadmits
            · rw [hnone] at hname
              cases hname
            · rw [hsome] at hname
              cases hname
              rfl
          | branching _ => exact absurd hadmits id
        subst htask
        exact .tail _ (.head _)
      · exact .tail _ (ih htail hf)

/-- Names that are about to be bound around the innermost scope belong to other owners. -/
theorem namesOwner_lt (hr : s.Rooted) {f : Frame} {fs : List Frame} (h : Nested s (f :: fs))
    {d : ScopeId} {name : String} (hd : (⟨d, .naming name⟩ : Frame) ∈ fs) :
    (s.namesOwner d).index < (s.namesOwner f.scope).index := by
  induction fs generalizing f with
  | nil => cases hd
  | cons g fs ih =>
    obtain ⟨⟨scope, hs, hp, hadmits⟩, htail⟩ := h
    obtain rfl | hd := List.mem_cons.1 hd
    · obtain ⟨-, -, -, hle⟩ := hr.namesOwner_spec (has htail)
      rw [hr.namesOwner_of_not_proxy hs hadmits.2]
      have hlt : d.index < f.scope.index := hr.parent_lt hs hp
      exact Nat.lt_of_le_of_lt hle hlt
    · have hlt := ih htail hd
      have hle := hr.namesOwner_le_child hs hp
      omega

end Nested

/-- What every stage satisfies: scopes have older parents and the open ones are nested. -/
structure Stage.Sound (st : Stage) : Prop where
  rooted : st.schema.Rooted
  nested : Nested st.schema st.frames

theorem Stage.sound_start (options : Options) : (Stage.start options).Sound :=
  ⟨rooted_empty, rfl, Nat.zero_lt_one⟩

theorem Step.sound {st st' : Stage} (h : Step st st') (hst : st.Sound) : st'.Sound := by
  have hk := h.keeps
  obtain ⟨hr, hn⟩ := hst
  cases h with
  | note h => exact ⟨(SameShapes.of_scopes_eq h.scopes_eq).rooted hr, hn.keeps hk⟩
  | field _ _ _ => exact ⟨(SameShapes.modifyLayout _ _ _).rooted hr, hn.keeps hk⟩
  | constraint _ _ _ => exact ⟨(SameShapes.modifyLayout _ _ _).rooted hr, hn.keeps hk⟩
  | announce _ _ => exact ⟨hr, hn.retask _⟩
  | @enter r d task fs scope h =>
    refine ⟨hr.addScope hn.has h.parent, ⟨scope, ?_, h.parent, h.admits⟩, hn.keeps hk⟩
    exact scope?_addScope_self _ _
  | leave _ _ => exact ⟨hr, hn.2⟩
  | assign _ => exact ⟨(SameShapes.bind _ _ _ _).rooted hr, (hn.keeps hk).retask _⟩
  | conclude _ _ => exact ⟨(SameShapes.bind _ _ _ _).rooted hr, (Nested.keeps hn.2 hk).retask _⟩
  | register _ _ _ _ _ =>
    exact ⟨(SameShapes.modifyLayout _ _ _).rooted hr, (hn.keeps hk).retask _⟩

theorem Steps.sound {st st' : Stage} (h : Steps st st') (hst : st.Sound) : st'.Sound := by
  induction h with
  | refl => exact hst
  | tail _ h ih => exact h.sound ih

end Compilation

end PacketSchema
