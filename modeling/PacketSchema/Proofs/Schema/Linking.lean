import PacketSchema.Proofs.Schema.Updates
import PacketSchema.Proofs.Schema.Walking
import PacketSchema.Proofs.WireType.Interning

/-! The links between nodes, whatever they are called, and what each operation on a schema does to
them. Links stay, and new ones come from a scope that is changed or from a new applied type. -/

namespace PacketSchema

/-- A layout has the node as the type of a field or as a branch. -/
inductive Layout.Holds (l : Layout) : Node → Prop
  | field {name : String} {field : Field} (h : (name, field) ∈ l.fields.entries) :
      l.Holds (.type field.type)
  | branch {path : Path} {id : ScopeId} (h : (path, id) ∈ l.branches.entries) :
      l.Holds (.type (.struct id))

/-- An applied type has the node as its element or as the count in front of it. -/
inductive ParamType.Takes (t : ParamType) : Node → Prop
  | length {b : Builtin} (h : t.length? = some (.prefixed b)) : t.Takes (.type (.builtin b))
  | elem {u : TypeRef} (h : t.elem? = some u) : t.Takes (.type u)

theorem ParamType.Takes.type {t : ParamType} {m : Node} (h : t.Takes m) : ∃ u, m = .type u := by
  cases h <;> exact ⟨_, rfl⟩

namespace Layout

variable {l : Layout} {m : Node}

theorem holds_addField {name : String} (hnew : l.fields.find? name = none) (field : Field) :
    (l.addField name field).Holds m ↔ l.Holds m ∨ m = .type field.type := by
  have hentries : (l.addField name field).fields.entries = l.fields.entries ++ [(name, field)] :=
    Table.entries_insert_of_find?_eq_none hnew _
  constructor
  · intro h
    cases h with
    | field h =>
      obtain h | h := List.mem_append.1 (hentries ▸ h)
      · exact .inl (.field h)
      · cases List.mem_singleton.1 h
        exact .inr rfl
    | branch h => exact .inl (.branch h)
  · rintro (h | rfl)
    · cases h with
      | field h => exact .field (hentries ▸ List.mem_append_left _ h)
      | branch h => exact .branch h
    · exact .field (hentries ▸ List.mem_append_right _ List.mem_cons_self)

theorem holds_addBranch {path : Path} (hnew : l.branches.find? path = none) (id : ScopeId) :
    (l.addBranch path id).Holds m ↔ l.Holds m ∨ m = .type (.struct id) := by
  have hentries : (l.addBranch path id).branches.entries = l.branches.entries ++ [(path, id)] :=
    Table.entries_insert_of_find?_eq_none hnew _
  constructor
  · intro h
    cases h with
    | field h => exact .inl (.field h)
    | branch h =>
      obtain h | h := List.mem_append.1 (hentries ▸ h)
      · exact .inl (.branch h)
      · cases List.mem_singleton.1 h
        exact .inr rfl
  · rintro (h | rfl)
    · cases h with
      | field h => exact .field h
      | branch h => exact .branch (hentries ▸ List.mem_append_left _ h)
    · exact .branch (hentries ▸ List.mem_append_right _ List.mem_cons_self)

theorem holds_addConstraint (name : String) (value : Literal) :
    (l.addConstraint name value).Holds m ↔ l.Holds m := by
  constructor <;> intro h
  · cases h with
    | field h => exact .field h
    | branch h => exact .branch h
  · cases h with
    | field h => exact .field h
    | branch h => exact .branch h

end Layout

namespace Schema

variable {s : Schema}

/-! ## Following links -/

theorem mem_follow_names {n : Node} {name : String} {a : Node} :
    (name, a) ∈ s.follow n .names ↔ ∃ id scope item, n.scope? = some id ∧
      s.scope? id = some scope ∧ (name, item) ∈ scope.names.entries ∧ a = item.node := by
  have hscope : ∀ id, (name, a) ∈ ((s.scope? id).map (followScope · .names)).getD [] ↔
      ∃ scope item, s.scope? id = some scope ∧ (name, item) ∈ scope.names.entries ∧
        a = item.node := by
    intro id
    cases s.scope? id <;> simp [followScope, eq_comm]
  cases n with
  | space id => simp [follow, Node.scope?, hscope]
  | type t =>
    cases t with
    | builtin b => simp [follow, Node.scope?]
    | struct id => simp [follow, Node.scope?, hscope]
    | param id => cases ht : s.param? id <;> simp [follow, Node.scope?, followParam, ht]

theorem mem_follow_fields {id : ScopeId} {name : String} {a : Node} :
    (name, a) ∈ s.follow (.type (.struct id)) .fields ↔ ∃ layout field,
      s.layout? id = some layout ∧ (name, field) ∈ layout.fields.entries ∧
        a = .type field.type := by
  cases hs : s.scope? id with
  | none => simp [follow, layout?, hs]
  | some scope => cases hl : scope.layout? <;> simp [follow, layout?, hs, followScope, hl, eq_comm]

theorem mem_follow_branches {id : ScopeId} {name : String} {a : Node} :
    (name, a) ∈ s.follow (.type (.struct id)) .branches ↔ ∃ layout path x,
      s.layout? id = some layout ∧ (path, x) ∈ layout.branches.entries ∧ name = path.text ∧
        a = .type (.struct x) := by
  cases hs : s.scope? id with
  | none => simp [follow, layout?, hs]
  | some scope => cases hl : scope.layout? <;> simp [follow, layout?, hs, followScope, hl, eq_comm]

/-- A parameterized type leads to its length and its elements, by these names. -/
theorem child?_of_mem_children {id : ParamId} {name : String} {a : Node}
    (h : (name, a) ∈ s.children (.type (.param id))) :
    ((s.param? id).bind (child? · name)).map Node.type = some a := by
  cases ht : s.param? id with
  | none => simp [children, links, follow, ht] at h
  | some t =>
    simp only [children, links, follow, ht, followParam, List.flatMap_cons, List.flatMap_nil,
      List.append_nil, List.mem_append, Option.map_some, Option.getD_some, Option.mem_toList,
      Option.map_eq_some_iff, Prod.mk.injEq] at h
    obtain ⟨x, hx, rfl, rfl⟩ | ⟨x, hx, rfl, rfl⟩ := h <;> simp [hx]

/-! ## Links -/

inductive Links (s : Schema) : Node → Node → Prop
  | name {n : Node} {id : ScopeId} {scope : Scope} {name : String} {item : Item}
      (hn : n.scope? = some id) (hs : s.scope? id = some scope)
      (h : (name, item) ∈ scope.names.entries) : s.Links n item.node
  | member {id : ScopeId} {l : Layout} {m : Node} (hl : s.layout? id = some l) (h : l.Holds m) :
      s.Links (.type (.struct id)) m
  | part {id : ParamId} {t : ParamType} {m : Node} (ht : s.param? id = some t) (h : t.Takes m) :
      s.Links (.type (.param id)) m

/-- A chain of links, which may be empty. -/
abbrev LeadsTo (s : Schema) : Node → Node → Prop := Relation.ReflTransGen s.Links

theorem names_mem_links {n : Node} {id : ScopeId} (h : n.scope? = some id) :
    Link.names ∈ s.links n := by
  cases n with
  | space _ => exact List.mem_singleton.2 rfl
  | type t =>
    cases t with
    | builtin _ => cases h
    | param _ => cases h
    | struct x => cases hl : s.layout? x <;> simp [links, hl]

theorem mem_links {n : Node} {link : Link} (h : link ∈ s.links n) :
    link = .names ∨ (∃ id, n = .type (.struct id) ∧ (link = .fields ∨ link = .branches)) ∨
      ∃ id, n = .type (.param id) := by
  cases n with
  | space _ => exact .inl (List.mem_singleton.1 h)
  | type t =>
    cases t with
    | builtin _ => cases h
    | param id => exact .inr (.inr ⟨id, rfl⟩)
    | struct id =>
      cases hl : s.layout? id with
      | none =>
        simp only [links, hl, List.mem_singleton] at h
        exact .inl h
      | some l =>
        simp only [links, hl, List.mem_cons, List.not_mem_nil, or_false] at h
        obtain rfl | rfl | rfl := h
        · exact .inr (.inl ⟨id, rfl, .inl rfl⟩)
        · exact .inl rfl
        · exact .inr (.inl ⟨id, rfl, .inr rfl⟩)

theorem child?_name {t : ParamType} {name : String} {u : TypeRef} (h : child? t name = some u) :
    name = "length" ∨ name = "elem" := by
  unfold child? at h
  by_cases hlength : name = "length"
  · exact .inl hlength
  · by_cases helem : name = "elem"
    · exact .inr helem
    · rw [if_neg hlength, if_neg helem] at h
      cases h

theorem takes_iff {t : ParamType} {u : TypeRef} :
    t.Takes (.type u) ↔ ∃ name, child? t name = some u := by
  constructor
  · intro h
    cases h with
    | length h => exact ⟨"length", by simp [child?, h]⟩
    | elem h => exact ⟨"elem", by simp [child?, h]⟩
  · rintro ⟨name, h⟩
    obtain rfl | rfl := child?_name h
    · rw [child?, if_pos rfl] at h
      split at h
      · rename_i hlength
        cases h
        exact .length hlength
      · cases h
    · rw [child?, if_neg (by decide), if_pos rfl] at h
      exact .elem h

/-- A node has a link to another if that one is below it under some name. -/
theorem links_iff {n m : Node} : s.Links n m ↔ ∃ name, (name, m) ∈ s.children n := by
  constructor
  · intro h
    cases h with
    | @name _ id scope name item hn hs hitem =>
      have hfollow := mem_follow_names.2 ⟨id, scope, item, hn, hs, hitem, rfl⟩
      exact ⟨name, List.mem_flatMap.2 ⟨.names, names_mem_links hn, hfollow⟩⟩
    | @member id l _ hl h =>
      have hlinks : s.links (.type (.struct id)) = [.fields, .names, .branches] := by
        simp [links, hl]
      cases h with
      | @field name field h =>
        have hfollow := mem_follow_fields.2 ⟨l, field, hl, h, rfl⟩
        exact ⟨name, List.mem_flatMap.2 ⟨.fields, by simp [hlinks], hfollow⟩⟩
      | @branch path x h =>
        have hfollow := mem_follow_branches.2 ⟨l, path, x, hl, h, rfl, rfl⟩
        exact ⟨path.text, List.mem_flatMap.2 ⟨.branches, by simp [hlinks], hfollow⟩⟩
    | @part id t _ ht h =>
      obtain ⟨u, rfl⟩ := h.type
      obtain ⟨name, hchild⟩ := takes_iff.1 h
      refine ⟨name, List.mem_flatMap.2 ⟨.child name, ?_, ?_⟩⟩
      · obtain rfl | rfl := child?_name hchild <;> simp [links]
      · simp [follow, ht, followParam, hchild]
  · rintro ⟨name, h⟩
    obtain ⟨link, hlink, hmem⟩ := List.mem_flatMap.1 h
    obtain rfl | ⟨id, rfl, rfl | rfl⟩ | ⟨id, rfl⟩ := mem_links hlink
    · obtain ⟨id, scope, item, hn, hs, hitem, rfl⟩ := mem_follow_names.1 hmem
      exact .name hn hs hitem
    · obtain ⟨l, field, hl, hfield, rfl⟩ := mem_follow_fields.1 hmem
      exact .member hl (.field hfield)
    · obtain ⟨l, path, x, hl, hx, -, rfl⟩ := mem_follow_branches.1 hmem
      exact .member hl (.branch hx)
    · obtain ⟨u, hu, rfl⟩ := Option.map_eq_some_iff.1 (child?_of_mem_children h)
      obtain ⟨t, ht, hu⟩ := Option.bind_eq_some_iff.1 hu
      exact .part ht (takes_iff.2 ⟨name, hu⟩)

theorem Leads.leadsTo {start n : Node} {path : List String} (h : s.Leads start path n) :
    s.LeadsTo start n := by
  induction h with
  | here => exact .refl
  | next _ hlink hchild ih =>
    exact ih.tail (links_iff.2 ⟨_, List.mem_flatMap.2 ⟨_, hlink, hchild⟩⟩)

theorem LeadsTo.leads {start n : Node} (h : s.LeadsTo start n) : ∃ path, s.Leads start path n := by
  induction h with
  | refl => exact ⟨[], .here⟩
  | tail _ hlink ih =>
    obtain ⟨path, hpath⟩ := ih
    obtain ⟨name, hchild⟩ := links_iff.1 hlink
    exact ⟨path ++ [name], hpath.child hchild⟩

theorem LeadsTo.mono {s' : Schema} (hlinks : ∀ {n m}, s.Links n m → s'.Links n m) {n m : Node}
    (h : s.LeadsTo n m) : s'.LeadsTo n m := by
  induction h with
  | refl => exact .refl
  | tail _ hlink ih => exact ih.tail (hlinks hlink)

/-! ## Changes -/

theorem links_bind {s : Schema} (hr : s.Rooted) {d : ScopeId} (hd : s.Has d) {name : String}
    (hfree : s.getLocal? d name = none) {item : Item} {n m : Node} :
    (s.bind d name item).Links n m ↔
      s.Links n m ∨ n.scope? = some (s.namesOwner d) ∧ m = item.node := by
  have hk := (SameShapes.bind s d name item).keeps
  constructor
  · intro h
    cases h with
    | name hn hs hmem =>
      obtain ⟨scope, hs, hmem⟩ | ⟨rfl, heq⟩ := entry_of_bind hfree hs hmem
      · exact .inl (.name hn hs hmem)
      · cases heq
        exact .inr ⟨hn, rfl⟩
    | member hl h => exact .inl (.member (layout?_bind s d _ name item ▸ hl) h)
    | part ht h => exact .inl (.part ht h)
  · rintro (h | ⟨hn, rfl⟩)
    · cases h with
      | name hn hs hmem =>
        obtain ⟨scope', hs', -⟩ := hk _ _ hs
        obtain ⟨scope, hscope, hentries⟩ := entries_of_bind hfree hs'
        cases hs.symm.trans hscope
        exact .name hn hs' (hentries ▸ List.mem_append_left _ hmem)
      | member hl h => exact .member ((layout?_bind s d _ name item).trans hl) h
      | part ht h => exact .part ht h
    · obtain ⟨owner, ho, -, -⟩ := hr.namesOwner_spec hd
      obtain ⟨owner', ho', -⟩ := hk _ _ ho
      obtain ⟨_, -, hentries⟩ := entries_of_bind hfree ho'
      rw [if_pos rfl] at hentries
      exact .name hn ho' (hentries ▸ List.mem_append_right _ List.mem_cons_self)

theorem links_modifyLayout {s : Schema} {d : ScopeId} {l : Layout} {f : Layout → Layout}
    {N : Node → Prop} (hl : s.layout? d = some l) (hf : ∀ m, (f l).Holds m ↔ l.Holds m ∨ N m)
    {n m : Node} :
    (s.modifyLayout d f).Links n m ↔ s.Links n m ∨ n = .type (.struct d) ∧ N m := by
  have hlayout := layout?_modifyLayout_of_some hl f
  constructor
  · intro h
    cases h with
    | @name _ id scope name item hn hs hmem =>
      have hnames := names_modifyLayout s d id f
      rw [hs] at hnames
      obtain ⟨scope', hs', heq⟩ := Option.map_eq_some_iff.1 hnames.symm
      exact .inl (.name hn hs' (heq ▸ hmem))
    | @member id found _ hfound h =>
      rw [hlayout] at hfound
      split at hfound
      · rename_i hid
        subst hid
        cases hfound
        exact ((hf m).1 h).imp (.member hl) fun hnew => ⟨rfl, hnew⟩
      · exact .inl (.member hfound h)
    | part ht h => exact .inl (.part ht h)
  · rintro (h | ⟨rfl, hnew⟩)
    · cases h with
      | @name _ id scope name item hn hs hmem =>
        have hnames := names_modifyLayout s d id f
        rw [hs] at hnames
        obtain ⟨scope', hs', heq⟩ := Option.map_eq_some_iff.1 hnames
        exact .name hn hs' (heq ▸ hmem)
      | @member id found _ hfound h =>
        by_cases hid : id = d
        · subst hid
          rw [hl] at hfound
          cases hfound
          exact .member ((hlayout _).trans (if_pos rfl)) ((hf m).2 (.inl h))
        · exact .member ((hlayout _).trans ((if_neg hid).trans hfound)) h
      | part ht h => exact .part ht h
    · exact .member ((hlayout _).trans (if_pos rfl)) ((hf m).2 (.inr hnew))

theorem links_addField {s : Schema} {d : ScopeId} {l : Layout} {name : String}
    (hl : s.layout? d = some l) (hnew : l.fields.find? name = none) {t : TypeRef} {p : Position}
    {n m : Node} :
    (s.modifyLayout d (·.addField name ⟨t, p⟩)).Links n m ↔
      s.Links n m ∨ n = .type (.struct d) ∧ m = .type t :=
  links_modifyLayout (N := (· = .type t)) hl fun _ => Layout.holds_addField hnew ⟨t, p⟩

theorem links_addBranch {s : Schema} {d : ScopeId} {l : Layout} {path : Path}
    (hl : s.layout? d = some l) (hnew : l.branches.find? path = none) {id : ScopeId} {n m : Node} :
    (s.modifyLayout d (·.addBranch path id)).Links n m ↔
      s.Links n m ∨ n = .type (.struct d) ∧ m = .type (.struct id) :=
  links_modifyLayout (N := (· = .type (.struct id))) hl fun _ => Layout.holds_addBranch hnew id

theorem links_addConstraint {s : Schema} {d : ScopeId} {l : Layout} (hl : s.layout? d = some l)
    {name : String} {value : Literal} {n m : Node} :
    (s.modifyLayout d (·.addConstraint name value)).Links n m ↔ s.Links n m := by
  rw [links_modifyLayout hl (N := fun _ => False) fun m => by
    rw [Layout.holds_addConstraint, or_false], and_false, or_false]

/-- A new scope is not linked to yet, and has links of its own for what it has taken over. -/
theorem links_addScope {s : Schema} {scope : Scope} (hnames : scope.names = {}) {n m : Node} :
    (s.addScope scope).Links n m ↔
      s.Links n m ∨ n = .type (.struct s.nextId) ∧ ∃ l, scope.layout? = some l ∧ l.Holds m := by
  constructor
  · intro h
    cases h with
    | @name _ id found name item hn hs hmem =>
      rw [scope?_addScope] at hs
      split at hs
      · cases hs
        rw [hnames] at hmem
        cases hmem
      · exact .inl (.name hn hs hmem)
    | @member id l _ hl h =>
      obtain ⟨found, hs, hlayout⟩ := Option.bind_eq_some_iff.1 hl
      rw [scope?_addScope] at hs
      split at hs
      · rename_i hid
        cases hs
        exact .inr ⟨by rw [hid], l, hlayout, h⟩
      · exact .inl (.member (Option.bind_eq_some_iff.2 ⟨found, hs, hlayout⟩) h)
    | part ht h => exact .inl (.part ht h)
  · rintro (h | ⟨rfl, l, hlayout, h⟩)
    · cases h with
      | name hn hs hmem =>
        exact .name hn ((scope?_addScope_of_has (has_of_scope? hs) scope).trans hs) hmem
      | member hl h =>
        exact .member ((layout?_addScope_of_has (has_of_layout? hl) scope).trans hl) h
      | part ht h => exact .part ht h
    · refine .member (Option.bind_eq_some_iff.2 ⟨scope, ?_, hlayout⟩) h
      exact scope?_addScope_self _ _

def intern (s : Schema) (t : ParamType) : Schema := { s with types := (s.types.intern t).2 }

theorem param?_intern (s : Schema) (t : ParamType) (id : ParamId) :
    (s.intern t).param? id =
      if s.types.find? t = none ∧ id = ⟨s.types.size⟩ then some t else s.param? id := by
  unfold intern param?
  cases hfound : s.types.find? t with
  | some held => simp [TypeCache.intern_of_found hfound]
  | none => simp [TypeCache.intern_of_new hfound, TypeCache.get?_concat]

theorem links_intern {s : Schema} {t : ParamType} {n m : Node} :
    (s.intern t).Links n m ↔ s.Links n m ∨
      s.types.find? t = none ∧ n = .type (.param ⟨s.types.size⟩) ∧ t.Takes m := by
  constructor
  · intro h
    cases h with
    | name hn hs hmem => exact .inl (.name hn hs hmem)
    | member hl h => exact .inl (.member hl h)
    | part ht h =>
      rw [param?_intern] at ht
      split at ht
      · rename_i hnew
        obtain ⟨hnew, rfl⟩ := hnew
        cases ht
        exact .inr ⟨hnew, rfl, h⟩
      · exact .inl (.part ht h)
  · rintro (h | ⟨hnew, rfl, h⟩)
    · cases h with
      | name hn hs hmem => exact .name hn hs hmem
      | member hl h => exact .member hl h
      | @part id u _ ht h =>
        refine .part ?_ h
        rw [param?_intern, if_neg]
        · exact ht
        · rintro ⟨-, rfl⟩
          have hnone := s.types.get?_size
          rw [show s.types.get? _ = some u from ht] at hnone
          cases hnone
    · exact .part ((param?_intern _ _ _).trans (if_pos ⟨hnew, rfl⟩)) h

theorem links_addWarning {s : Schema} {f : Finding} {n m : Node} :
    (s.addWarning f).Links n m ↔ s.Links n m := by
  constructor <;> intro h
  · cases h with
    | name hn hs hmem => exact .name hn hs hmem
    | member hl h => exact .member hl h
    | part ht h => exact .part ht h
  · cases h with
    | name hn hs hmem => exact .name hn hs hmem
    | member hl h => exact .member hl h
    | part ht h => exact .part ht h

end Schema

end PacketSchema
