import PacketSchema.Proofs.Compilation.History

/-! What variants and proxies take over. It is what the nearest struct around them held at the
moment they were declared, and their own entries are stored on top of it in the order of the
text. -/

namespace PacketSchema

namespace Entry

def field? : Entry → Option String
  | field name => some name
  | constraint _ _ | branch _ _ => none

def constraint? : Entry → Option (String × Literal)
  | constraint name value => some (name, value)
  | field _ | branch _ _ => none

def branch? : Entry → Option (Path × ScopeId)
  | branch path id => some (path, id)
  | field _ | constraint _ _ => none

end Entry

namespace Layout

def ownFields (l : Layout) : List String := l.order.filterMap Entry.field?

def ownConstraints (l : Layout) : List (String × Literal) := l.order.filterMap Entry.constraint?

def ownBranches (l : Layout) : List (Path × ScopeId) := l.order.filterMap Entry.branch?

section

variable (l : Layout) (name : String) (field : Field) (value : Literal) (path : Path)
  (id : ScopeId)

@[simp] theorem ownFields_addField : (l.addField name field).ownFields = l.ownFields ++ [name] :=
  List.filterMap_append

@[simp] theorem ownFields_addConstraint : (l.addConstraint name value).ownFields = l.ownFields :=
  List.filterMap_append.trans (List.append_nil _)

@[simp] theorem ownFields_addBranch : (l.addBranch path id).ownFields = l.ownFields :=
  List.filterMap_append.trans (List.append_nil _)

@[simp] theorem ownConstraints_addField :
    (l.addField name field).ownConstraints = l.ownConstraints :=
  List.filterMap_append.trans (List.append_nil _)

@[simp] theorem ownConstraints_addConstraint :
    (l.addConstraint name value).ownConstraints = l.ownConstraints ++ [(name, value)] :=
  List.filterMap_append

@[simp] theorem ownConstraints_addBranch :
    (l.addBranch path id).ownConstraints = l.ownConstraints :=
  List.filterMap_append.trans (List.append_nil _)

@[simp] theorem ownBranches_addField : (l.addField name field).ownBranches = l.ownBranches :=
  List.filterMap_append.trans (List.append_nil _)

@[simp] theorem ownBranches_addConstraint :
    (l.addConstraint name value).ownBranches = l.ownBranches :=
  List.filterMap_append.trans (List.append_nil _)

@[simp] theorem ownBranches_addBranch :
    (l.addBranch path id).ownBranches = l.ownBranches ++ [(path, id)] :=
  List.filterMap_append

end

/-- A layout is what was taken over with its own entries stored on top of it in turn, none of which
replaces a value. -/
structure Replays (taken l : Layout) : Prop where
  fields : ∃ own, l.fields.entries = taken.fields.entries ++ own ∧ own.map Prod.fst = l.ownFields
  fields_nodup : (l.fields.entries.map Prod.fst).Nodup
  constraints : l.constraints = taken.constraints.insertAll l.ownConstraints
  accepted : taken.constraints.Accepts l.ownConstraints
  branches : l.branches.entries = l.ownBranches
  branches_nodup : (l.branches.entries.map Prod.fst).Nodup

/-- The fields and constraints of one layout come first in the other. -/
structure Leads (l l' : Layout) : Prop where
  fields : l.fields.entries <+: l'.fields.entries
  constraints : l.constraints.entries <+: l'.constraints.entries

namespace Leads

theorem refl (l : Layout) : l.Leads l := ⟨List.prefix_rfl, List.prefix_rfl⟩

theorem empty (l : Layout) : Leads {} l := ⟨List.nil_prefix, List.nil_prefix⟩

theorem snapshot (l : Layout) : l.Leads l.snapshot := ⟨List.prefix_rfl, List.prefix_rfl⟩

theorem trans {l₁ l₂ l₃ : Layout} (h : l₁.Leads l₂) (h' : l₂.Leads l₃) : l₁.Leads l₃ :=
  ⟨h.fields.trans h'.fields, h.constraints.trans h'.constraints⟩

end Leads

namespace Replays

variable {taken l : Layout}

theorem empty : Replays {} {} where
  fields := ⟨[], rfl, rfl⟩
  fields_nodup := List.nodup_nil
  constraints := rfl
  accepted := trivial
  branches := rfl
  branches_nodup := List.nodup_nil

theorem snapshot (h : (l.fields.entries.map Prod.fst).Nodup) :
    l.snapshot.Replays l.snapshot where
  fields := ⟨[], (List.append_nil _).symm, rfl⟩
  fields_nodup := h
  constraints := rfl
  accepted := trivial
  branches := rfl
  branches_nodup := List.nodup_nil

theorem addField (h : taken.Replays l) {name : String} (field : Field)
    (hnew : l.fields.find? name = none) : taken.Replays (l.addField name field) := by
  have hentries : (l.addField name field).fields.entries = l.fields.entries ++ [(name, field)] :=
    Table.entries_insert_of_find?_eq_none hnew field
  constructor
  case fields =>
    obtain ⟨own, hown, hnames⟩ := h.fields
    refine ⟨own ++ [(name, field)], ?_, ?_⟩
    · rw [hentries, hown, List.append_assoc]
    · simp [hnames]
  case fields_nodup =>
    rw [hentries]
    exact Table.nodup_keys_concat field h.fields_nodup (Table.not_mem_keys hnew)
  case constraints =>
    rw [ownConstraints_addField]
    exact h.constraints
  case accepted =>
    rw [ownConstraints_addField]
    exact h.accepted
  case branches =>
    rw [ownBranches_addField]
    exact h.branches
  case branches_nodup => exact h.branches_nodup

theorem addConstraint (h : taken.Replays l) {name : String} {value : Literal}
    (hsame : ∀ existing, l.constraints.find? name = some existing → existing = value) :
    taken.Replays (l.addConstraint name value) := by
  constructor
  case fields =>
    rw [ownFields_addConstraint]
    exact h.fields
  case fields_nodup => exact h.fields_nodup
  case constraints =>
    rw [ownConstraints_addConstraint, Table.insertAll_append, ← h.constraints]
    rfl
  case accepted =>
    rw [ownConstraints_addConstraint, Table.accepts_append, ← h.constraints]
    exact ⟨h.accepted, hsame, trivial⟩
  case branches =>
    rw [ownBranches_addConstraint]
    exact h.branches
  case branches_nodup => exact h.branches_nodup

theorem addBranch (h : taken.Replays l) {path : Path} (id : ScopeId)
    (hnew : l.branches.find? path = none) : taken.Replays (l.addBranch path id) := by
  have hentries : (l.addBranch path id).branches.entries = l.branches.entries ++ [(path, id)] :=
    Table.entries_insert_of_find?_eq_none hnew id
  constructor
  case fields =>
    rw [ownFields_addBranch]
    exact h.fields
  case fields_nodup => exact h.fields_nodup
  case constraints =>
    rw [ownConstraints_addBranch]
    exact h.constraints
  case accepted =>
    rw [ownConstraints_addBranch]
    exact h.accepted
  case branches => rw [hentries, h.branches, ownBranches_addBranch]
  case branches_nodup =>
    rw [hentries]
    exact Table.nodup_keys_concat id h.branches_nodup (Table.not_mem_keys hnew)

end Replays

end Layout

namespace Compilation

open Schema

namespace Extends

variable {c : Compilation} {l l' : Layout}

theorem replays (h : Extends c l l') {taken : Layout} (ht : taken.Replays l) :
    taken.Replays l' := by
  cases h with
  | same => exact ht
  | field field hnew => exact ht.addField field hnew
  | constraint _ hsame => exact ht.addConstraint hsame
  | branch id hnew => exact ht.addBranch id hnew

theorem leads (h : Extends c l l') : l.Leads l' := by
  cases h with
  | same => exact .refl l
  | field field hnew =>
    refine ⟨?_, List.prefix_rfl⟩
    exact Table.entries_prefix_insert fun held hheld => by rw [hnew] at hheld; cases hheld
  | constraint _ hsame => exact ⟨List.prefix_rfl, Table.entries_prefix_insert hsame⟩
  | branch _ _ => exact ⟨List.prefix_rfl, List.prefix_rfl⟩

end Extends

/-- What a variant or a proxy copies: the nearest struct around it, be that a proxy. -/
def source? (s : Schema) (id : ScopeId) : Option ScopeId :=
  ((s.scope? id).bind fun scope => scope.kind.base?).bind fun _ => s.enclosing? id Scope.isStruct

def Copies (s : Schema) (id source : ScopeId) : Prop := source? s id = some source

theorem copies_iff {s : Schema} {id source : ScopeId} :
    Copies s id source ↔
      (∃ scope base, s.scope? id = some scope ∧ scope.kind.base? = some base) ∧
        s.enclosing? id Scope.isStruct = some source := by
  unfold Copies source?
  simp only [Option.bind_eq_some_iff]
  constructor
  · rintro ⟨base, ⟨scope, hs, hb⟩, hsource⟩
    exact ⟨⟨scope, base, hs, hb⟩, hsource⟩
  · rintro ⟨⟨scope, base, hs, hb⟩, hsource⟩
    exact ⟨base, ⟨scope, hs, hb⟩, hsource⟩

/-- The moment in which a scope was declared: the last one without it. -/
def declaredIn? (moments : List Compilation) (id : ScopeId) : Option Compilation :=
  moments.find? fun m => (m.schema.scope? id).isNone

/-- What a scope took over: a struct nothing, and any other scope what the one that it copies held
when it was declared. -/
inductive TakenOver (moments : List Compilation) (s : Schema) (id : ScopeId) : Layout → Prop
  | nothing {scope : Scope} {own : Layout} (hs : s.scope? id = some scope)
      (hk : scope.kind = .struct own) : TakenOver moments s id {}
  | snapshot {source : ScopeId} {m : Compilation} {held : Layout} (hcopies : Copies s id source)
      (hm : declaredIn? moments id = some m) (hheld : m.schema.layout? source = some held) :
      TakenOver moments s id { fields := held.fields, constraints := held.constraints }

/-- A scope holds what it took over and its own entries, and where it was taken from all of it is
still there in front. -/
structure Inherits (moments : List Compilation) (s : Schema) (id : ScopeId) (l taken : Layout) :
    Prop where
  takenOver : TakenOver moments s id taken
  replays : taken.Replays l
  leads : ∀ source, s.enclosing? id Scope.isStruct = some source →
    ∃ now, s.layout? source = some now ∧ taken.Leads now

section

variable {s s' : Schema} {c : Compilation} {moments past : List Compilation} {id : ScopeId}

theorem enclosing?_isStruct_keeps (hk : s.Keeps s') (hr : s.Rooted) (hr' : s'.Rooted)
    (hid : s.Has id) : s'.enclosing? id Scope.isStruct = s.enclosing? id Scope.isStruct :=
  hk.enclosing? hr hr' hid Scope.shape_isStruct

theorem Copies.has {source : ScopeId} (h : Copies s id source) : s.Has id := by
  obtain ⟨⟨scope, base, hs, -⟩, -⟩ := copies_iff.1 h
  exact has_of_scope? hs

theorem Copies.not_struct {source : ScopeId} (h : Copies s id source) {scope : Scope}
    {own : Layout} (hs : s.scope? id = some scope) : scope.kind ≠ .struct own := by
  obtain ⟨⟨found, base, hfound, hb⟩, -⟩ := copies_iff.1 h
  rw [hs] at hfound
  cases hfound
  intro hk
  rw [hk] at hb
  cases hb

theorem Copies.keeps {source : ScopeId} (h : Copies s id source) (hk : s.Keeps s')
    (hr : s.Rooted) (hr' : s'.Rooted) : Copies s' id source := by
  obtain ⟨⟨scope, base, hs, hb⟩, hsource⟩ := copies_iff.1 h
  obtain ⟨scope', hs', heq⟩ := hk id scope hs
  refine copies_iff.2 ⟨⟨scope', base, hs', ?_⟩, ?_⟩
  · rw [Scope.base?_eq heq, hb]
  · rw [enclosing?_isStruct_keeps hk hr hr' (has_of_scope? hs), hsource]

theorem declaredIn?_cons (h : c.schema.Has id) :
    declaredIn? (c :: moments) id = declaredIn? moments id := by
  obtain ⟨scope, hs⟩ := h.scope?
  unfold declaredIn?
  rw [List.find?_cons_of_neg (by simp [hs])]

theorem declaredIn?_new {c' : Compilation} (hid : c'.schema.Has id)
    (hnew : c.schema.scope? id = none) : declaredIn? (c' :: c :: past) id = some c := by
  rw [declaredIn?_cons hid]
  exact List.find?_cons_of_pos (by rw [hnew]; rfl)

theorem TakenOver.keeps {taken : Layout} (h : TakenOver moments s id taken)
    (hk : s.Keeps c.schema) (hr : s.Rooted) (hr' : c.schema.Rooted) :
    TakenOver (c :: moments) c.schema id taken := by
  cases h with
  | @nothing scope own hs hkind =>
    obtain ⟨scope', hs', heq⟩ := hk id scope hs
    have hshape : scope'.shape.kind = .struct {} := by
      rw [heq]
      unfold Scope.shape
      rw [hkind]
      rfl
    obtain ⟨own', hkind'⟩ : ∃ own', scope'.kind = .struct own' := by
      unfold Scope.shape at hshape
      cases hk' : scope'.kind <;> simp [hk', ScopeKind.mapLayout] at hshape ⊢
    exact .nothing hs' hkind'
  | snapshot hcopies hm hheld =>
    exact .snapshot (hcopies.keeps hk hr hr')
      ((declaredIn?_cons (hk.has hcopies.has)).trans hm) hheld

/-- A struct that is found around a scope holds something. -/
theorem layout?_of_find? (hr : s.Rooted) (hid : s.Has id) {links : List (ScopeId × Scope)}
    (hlinks : ∀ link ∈ links, link ∈ s.chain id) {source : ScopeId}
    (h : (links.find? fun link => link.2.isStruct).map Prod.fst = some source) :
    ∃ held, s.layout? source = some held := by
  obtain ⟨link, hfind, rfl⟩ := Option.map_eq_some_iff.1 h
  have hlink := hr.scope?_of_mem_chain hid (hlinks link (List.mem_of_find?_eq_some hfind))
  have hstruct := List.find?_some hfind
  obtain ⟨held, hheld⟩ := Scope.isStruct_iff.1 hstruct
  exact ⟨held, Option.bind_eq_some_iff.2 ⟨link.2, hlink, hheld⟩⟩

theorem enclosing?_layout? (hr : s.Rooted) (hid : s.Has id) {source : ScopeId}
    (h : s.enclosing? id Scope.isStruct = some source) :
    ∃ held, s.layout? source = some held :=
  layout?_of_find? hr hid (fun _ => List.mem_of_mem_tail) h

end

/-- A new scope holds nothing, or what the scope that it copies has held a moment ago. -/
theorem Opens.layout_cases {c : Compilation} {d : ScopeId} {task : Task} {scope : Scope}
    {l : Layout} (h : Opens c.schema d task scope) (hr : c.schema.Rooted) (hd : c.schema.Has d)
    (hl : scope.layout? = some l) :
    (scope.kind = .struct {} ∧ l = {}) ∨
      ∃ source held, Copies (c.schema.addScope scope) c.schema.nextId source ∧
        c.schema.layout? source = some held ∧ l = held.snapshot := by
  have hnew : (c.schema.addScope scope).scope? c.schema.nextId = some scope :=
    scope?_addScope_self _ _
  have hr' := hr.addScope hd h.parent
  have hk := keeps_addScope c.schema scope
  cases h with
  | space _ _ => cases hl
  | struct _ _ => exact .inl ⟨rfl, (Option.some.inj hl).symm⟩
  | inline _ => exact .inl ⟨rfl, (Option.some.inj hl).symm⟩
  | @arm name a p hclimb =>
    obtain ⟨held, hheld⟩ := layout?_of_find? hr hd (fun _ => id) (climb_source hclimb)
    rw [← climb_keeps hk hr hr' hd] at hclimb
    have hsource := (hr'.enclosing?_child hnew rfl Scope.isStruct).trans (climb_source hclimb)
    refine .inr ⟨a.source, held, ?_, hheld, ?_⟩
    · exact copies_iff.2 ⟨⟨_, a.base, hnew, a.kind_base? _⟩, hsource⟩
    · have hlayout := (a.kind_layout? _).symm.trans hl
      rw [hheld] at hlayout
      exact (Option.some.inj hlayout).symm

/-- Where what a scope holds comes from: from the moment before but for one entry, or the scope is
a new struct, or a new copy. -/
theorem Change.layout_cases {c c' : Compilation} (hc : Change c c') (hr : c.schema.Rooted)
    {id : ScopeId} {l' : Layout} (hl' : c'.schema.layout? id = some l') :
    (∃ l, c.schema.layout? id = some l ∧ Extends c l l') ∨
    (c.schema.scope? id = none ∧ l' = {} ∧
      ∃ scope, c'.schema.scope? id = some scope ∧ scope.kind = .struct {}) ∨
    (c.schema.scope? id = none ∧
      ∃ source held, Copies c'.schema id source ∧ c.schema.layout? source = some held ∧
        l' = held.snapshot) := by
  obtain hold | ⟨d, task, scope, rfl, hd, hopens, rfl, hscope⟩ := hc.layout?_cases hl'
  · exact .inl hold
  · obtain ⟨hk, hl⟩ | ⟨source, held, hcopies, hheld, hl⟩ := hopens.layout_cases hr hd hscope
    · exact .inr (.inl ⟨scope?_nextId _, hl, scope, scope?_addScope_self _ _, hk⟩)
    · exact .inr (.inr ⟨scope?_nextId _, source, held, hcopies, hheld, hl⟩)

theorem layout?_start (options : Options) (id : ScopeId) :
    (Compilation.start options).schema.layout? id = none := by
  cases hl : (Compilation.start options).schema.layout? id with
  | none => rfl
  | some l =>
    obtain ⟨scope, hs, hlayout⟩ := Option.bind_eq_some_iff.1 hl
    rw [List.mem_singleton.1 (List.mem_of_getElem? hs)] at hlayout
    cases hlayout

/-- What is true of the layouts of all scopes at all moments, if it is kept by new entries, true of
new structs and taken over by new copies. -/
theorem History.layout_induction
    {motive : Compilation → List Compilation → ScopeId → Layout → Prop}
    (grow : ∀ {c c' past id l l'}, History (c :: past) → Change c c' →
      c'.schema.layout? id = some l' → c.schema.layout? id = some l → Extends c l l' →
      motive c past id l → motive c' (c :: past) id l')
    (struct : ∀ {c c' past id scope}, History (c :: past) → Change c c' →
      c'.schema.layout? id = some {} → c.schema.scope? id = none →
      c'.schema.scope? id = some scope → scope.kind = .struct {} → motive c' (c :: past) id {})
    (copy : ∀ {c c' past id source held}, History (c :: past) → Change c c' →
      c'.schema.layout? id = some held.snapshot → c.schema.scope? id = none →
      Copies c'.schema id source → c.schema.layout? source = some held →
      motive c past source held → motive c' (c :: past) id held.snapshot)
    {c : Compilation} {past : List Compilation} (h : History (c :: past)) {id : ScopeId}
    {l : Layout} (hl : c.schema.layout? id = some l) : motive c past id l := by
  generalize hm : c :: past = moments at h
  induction h generalizing c past id l with
  | start options =>
    cases hm
    rw [layout?_start] at hl
    cases hl
  | @step c₀ c' past₀ h hc ih =>
    cases hm
    obtain ⟨l₀, hl₀, hext⟩ | ⟨hnew, rfl, scope, hs, hk⟩ |
      ⟨hnew, source, held, hcopies, hheld, rfl⟩ := hc.layout_cases h.rooted hl
    · exact grow h hc hl hl₀ hext (ih hl₀ rfl)
    · exact struct h hc hl hnew hs hk
    · exact copy h hc hl hnew hcopies hheld (ih hheld rfl)

/-- The next moment leaves alone what a scope has taken over. -/
theorem Inherits.change {c c' : Compilation} {moments : List Compilation} {id : ScopeId}
    {l l' taken : Layout} (h : Inherits moments c.schema id l taken) (hc : Change c c')
    (hr : c.schema.Rooted) (hid : c.schema.Has id) (hext : Extends c l l') :
    Inherits (c' :: moments) c'.schema id l' taken where
  takenOver := h.takenOver.keeps hc.keeps hr (hc.rooted hr)
  replays := hext.replays h.replays
  leads := by
    intro source hsource
    rw [enclosing?_isStruct_keeps hc.keeps hr (hc.rooted hr) hid] at hsource
    obtain ⟨now, hnow, hleads⟩ := h.leads source hsource
    obtain ⟨now', hnow', hext'⟩ := hc.layout? hnow
    exact ⟨now', hnow', hleads.trans hext'.leads⟩

theorem Inherits.struct {c : Compilation} {moments : List Compilation} {id : ScopeId}
    {scope : Scope} (hr : c.schema.Rooted) (hs : c.schema.scope? id = some scope)
    (hk : scope.kind = .struct {}) : Inherits moments c.schema id {} {} where
  takenOver := .nothing hs hk
  replays := .empty
  leads := by
    intro source hsource
    obtain ⟨now, hnow⟩ := enclosing?_layout? hr (has_of_scope? hs) hsource
    exact ⟨now, hnow, .empty now⟩

theorem Inherits.copy {c c' : Compilation} {past : List Compilation} (hc : Change c c')
    {id source : ScopeId} {held : Layout} (hnew : c.schema.scope? id = none)
    (hcopies : Copies c'.schema id source) (hheld : c.schema.layout? source = some held)
    (hnodup : (held.fields.entries.map Prod.fst).Nodup) :
    Inherits (c' :: c :: past) c'.schema id held.snapshot held.snapshot where
  takenOver := .snapshot hcopies (declaredIn?_new hcopies.has hnew) hheld
  replays := .snapshot hnodup
  leads := by
    intro found hfound
    obtain rfl := Option.some.inj ((copies_iff.1 hcopies).2.symm.trans hfound)
    obtain ⟨now, hnow, hext⟩ := hc.layout? hheld
    exact ⟨now, hnow, ⟨hext.leads.fields, hext.leads.constraints⟩⟩

/-- What holds of all moments: every scope has inherited what it holds. -/
theorem History.inherits {c : Compilation} {past : List Compilation} (h : History (c :: past))
    {id : ScopeId} {l : Layout} (hl : c.schema.layout? id = some l) :
    ∃ taken, Inherits (c :: past) c.schema id l taken := by
  refine h.layout_induction
    (motive := fun c past id l => ∃ taken, Inherits (c :: past) c.schema id l taken)
    ?grow ?struct ?copy hl
  case grow =>
    rintro c c' past id l l' h hc - hl hext ⟨taken, hinherits⟩
    exact ⟨taken, hinherits.change hc h.rooted (has_of_layout? hl) hext⟩
  case struct =>
    intro c c' past id scope h hc _ _ hs hk
    exact ⟨{}, .struct (hc.rooted h.rooted) hs hk⟩
  case copy =>
    rintro c c' past id source held - hc - hnew hcopies hheld ⟨taken, hinherits⟩
    exact ⟨held.snapshot, .copy hc hnew hcopies hheld hinherits.replays.fields_nodup⟩

/-- In a compiled schema every struct, variant and proxy holds what it took over when it was
declared, followed by its own entries in the order of the text. -/
theorem ofSources_inherits {options : Options} {sources : List (String × String)} {s : Schema}
    (h : ofSources options sources = .ok s) {id : ScopeId} {l : Layout}
    (hl : s.layout? id = some l) :
    ∃ taken, Inherits (history options sources) s id l taken := by
  obtain ⟨c, past, hhistory, rfl, -, hc⟩ := history_of_ok h
  rw [hhistory]
  exact hc.inherits hl

/-- An arm of a proxy has what the proxy held, and not what its struct got later. -/
theorem ofSources_inherits_arm : ∃ s l taken,
    ofSources {} [("t", "type s { a : int; variant { b : int; variant v { }; }; c : int; };")] =
      .ok s ∧
    s.layout? ⟨3⟩ = some l ∧ l.fields.entries.map Prod.fst = ["a", "b"] ∧
    Inherits (history {}
      [("t", "type s { a : int; variant { b : int; variant v { }; }; c : int; };")])
      s ⟨3⟩ l taken := by
  obtain ⟨s, hs, hp⟩ := exists_ok (show ((ofSources {}
    [("t", "type s { a : int; variant { b : int; variant v { }; }; c : int; };")]).toOption.any
      fun s => (s.layout? ⟨3⟩).map (·.fields.entries.map Prod.fst) = some ["a", "b"]) = true by
    decide +kernel)
  obtain ⟨l, hl, hfields⟩ := Option.map_eq_some_iff.1 (of_decide_eq_true hp)
  obtain ⟨taken, h⟩ := ofSources_inherits hs hl
  exact ⟨s, l, taken, hs, hl, hfields, h⟩

end Compilation

end PacketSchema
