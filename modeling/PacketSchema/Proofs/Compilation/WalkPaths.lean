import PacketSchema.Proofs.Compilation.Keys
import PacketSchema.Proofs.Schema.Linking

/-! Paths as identifiers of types. The fields of a struct are kept apart from the names that it
binds, so the two may have a name in common and mean different types by it. Apart from that, the
path of a type that a walk yields belongs to no other. -/

namespace PacketSchema

namespace Schema

/-- A field of a node is named like another thing in it. -/
def Clashes (s : Schema) (n : Node) (name : String) : Prop :=
  ∃ field other, (name, field) ∈ s.follow n .fields ∧
    ((name, other) ∈ s.follow n .names ∨ (name, other) ∈ s.follow n .branches) ∧ field ≠ other

/-- On the way along a path there is a clash. -/
def Ambiguous (s : Schema) (start : Node) (path : List String) : Prop :=
  ∃ front name n, front ++ [name] <+: path ∧ s.Leads start front n ∧ s.Clashes n name

theorem Ambiguous.longer {s : Schema} {start : Node} {path longer : List String}
    (h : s.Ambiguous start path) (hpath : path <+: longer) : s.Ambiguous start longer := by
  obtain ⟨front, name, n, hfront, hclash⟩ := h
  exact ⟨front, name, n, hfront.trans hpath, hclash⟩

/-- Where the children of every node have names of their own, but for clashes, paths lead to one
node each, but for ambiguous ones. -/
theorem Leads.unique {s : Schema} {start : Node}
    (hchildren : ∀ n name a b, (name, a) ∈ s.children n → (name, b) ∈ s.children n →
      a = b ∨ s.Clashes n name)
    {path : List String} {a b : Node} (ha : s.Leads start path a) (hb : s.Leads start path b) :
    a = b ∨ s.Ambiguous start path := by
  induction ha generalizing b with
  | here =>
    obtain ⟨-, rfl⟩ | ⟨front, m, name, hpath, -⟩ := hb.cases_last
    · exact .inl rfl
    · simp at hpath
  | @next front n child link name h hlink hchild ih =>
    obtain ⟨hpath, -⟩ | ⟨front', m, name', hpath, hm, hmem⟩ := hb.cases_last
    · simp at hpath
    · obtain ⟨rfl, hname⟩ := List.append_inj' hpath rfl
      obtain rfl := List.singleton_inj.1 hname
      obtain rfl | hambiguous := ih hm
      · obtain heq | hclash :=
          hchildren n name child b (List.mem_flatMap.2 ⟨link, hlink, hchild⟩) hmem
        · exact .inl heq
        · exact .inr ⟨front, name, n, List.prefix_rfl, h, hclash⟩
      · exact .inr (hambiguous.longer (List.prefix_append _ _))

end Schema

namespace Compilation

open Schema

variable {s : Schema}

namespace Keyed

variable {n a b : Node} {name : String}

theorem names_unique (h : Keyed s) (ha : (name, a) ∈ s.follow n .names)
    (hb : (name, b) ∈ s.follow n .names) : a = b := by
  obtain ⟨id, scope, item, hn, hs, hitem, rfl⟩ := mem_follow_names.1 ha
  obtain ⟨id', scope', item', hn', hs', hitem', rfl⟩ := mem_follow_names.1 hb
  cases hn.symm.trans hn'
  cases hs.symm.trans hs'
  exact congrArg Item.node (Table.value_unique (h.names id scope hs).1 hitem hitem')

theorem fields_unique (h : Keyed s) {id : ScopeId}
    (ha : (name, a) ∈ s.follow (.type (.struct id)) .fields)
    (hb : (name, b) ∈ s.follow (.type (.struct id)) .fields) : a = b := by
  obtain ⟨layout, field, hl, hfield, rfl⟩ := mem_follow_fields.1 ha
  obtain ⟨layout', field', hl', hfield', rfl⟩ := mem_follow_fields.1 hb
  cases hl.symm.trans hl'
  rw [Table.value_unique (h.fields id layout hl) hfield hfield']

theorem branches_unique (h : Keyed s) {id : ScopeId}
    (ha : (name, a) ∈ s.follow (.type (.struct id)) .branches)
    (hb : (name, b) ∈ s.follow (.type (.struct id)) .branches) : a = b := by
  obtain ⟨layout, path, x, hl, hx, rfl, rfl⟩ := mem_follow_branches.1 ha
  obtain ⟨layout', path', y, hl', hy, htext, rfl⟩ := mem_follow_branches.1 hb
  obtain ⟨-, hlookup⟩ := h.branches.listed id layout path x hl hx
  obtain ⟨-, hlookup'⟩ := h.branches.listed id layout' path' y hl' hy
  rw [← htext, hlookup] at hlookup'
  exact congrArg Item.node (Option.some.inj hlookup')

theorem names_branches (h : Keyed s) {id : ScopeId}
    (ha : (name, a) ∈ s.follow (.type (.struct id)) .names)
    (hb : (name, b) ∈ s.follow (.type (.struct id)) .branches) : a = b := by
  obtain ⟨_, scope, item, ⟨⟩, hs, hitem, rfl⟩ := mem_follow_names.1 ha
  obtain ⟨layout, path, x, hl, hx, rfl, rfl⟩ := mem_follow_branches.1 hb
  rw [h.name_of_branch hs hl hx hitem]
  rfl

/-- Two children of one name are the same, or a field is one of them. -/
theorem children_unique (h : Keyed s) (ha : (name, a) ∈ s.children n)
    (hb : (name, b) ∈ s.children n) : a = b ∨ s.Clashes n name := by
  cases n with
  | space id =>
    simp only [children, links, List.flatMap_cons, List.flatMap_nil, List.append_nil] at ha hb
    exact .inl (h.names_unique ha hb)
  | type t =>
    cases t with
    | builtin _ => simp [children, links] at ha
    | param id =>
      have heq := (child?_of_mem_children ha).symm.trans (child?_of_mem_children hb)
      exact .inl (Option.some.inj heq)
    | struct id =>
      cases hl : s.layout? id with
      | none =>
        simp only [children, links, hl, List.flatMap_cons, List.flatMap_nil,
          List.append_nil] at ha hb
        exact .inl (h.names_unique ha hb)
      | some layout =>
        simp only [children, links, hl, List.flatMap_cons, List.flatMap_nil, List.append_nil,
          List.mem_append] at ha hb
        refine or_iff_not_imp_left.2 fun hne => ?_
        -- a field against anything else is a clash, and nothing else can differ
        obtain ha | ha := ha <;> obtain hb | hb := hb
        · exact absurd (h.fields_unique ha hb) hne
        · exact ⟨a, b, ha, hb, hne⟩
        · exact ⟨b, a, hb, ha, Ne.symm hne⟩
        · obtain ha | ha := ha <;> obtain hb | hb := hb
          · exact absurd (h.names_unique ha hb) hne
          · exact absurd (h.names_branches ha hb) hne
          · exact absurd (h.names_branches hb ha).symm hne
          · exact absurd (h.branches_unique ha hb) hne

/-- No two types that a walk yields have one path, unless it is ambiguous. -/
theorem pairwise_walkFrom (h : Keyed s) (start : Node) :
    (s.walkFrom start).Pairwise fun entry other =>
      entry.1 = other.1 → s.Ambiguous start entry.1 := by
  have hdistinct : (s.walkFrom start).Pairwise fun entry other => entry.2 ≠ other.2 :=
    List.pairwise_map.1 (run_nodup (Walker.start start)).1
  refine hdistinct.imp_of_mem fun {entry other} hentry hother hne hpath => ?_
  have hleads := leads_of_mem_walkFrom hentry
  have hleads' := leads_of_mem_walkFrom hother
  rw [← hpath] at hleads'
  obtain heq | hambiguous :=
    Leads.unique (fun _ _ _ _ ha hb => h.children_unique ha hb) hleads hleads'
  · exact absurd (Node.type.inj heq) hne
  · exact hambiguous

end Keyed

/-- In a compiled schema two types can only have one path in a walk where a struct on the way has a
field that is named like another thing in it. -/
theorem ofSources_walk_paths {options : Options} {sources : List (String × String)} {s : Schema}
    (h : ofSources options sources = .ok s) :
    s.walk.Pairwise fun entry other =>
      entry.1 = other.1 → s.Ambiguous (.space root) entry.1 :=
  (keyed_of_ok h).pairwise_walkFrom _

/-- A field may be named like the struct that it holds. -/
theorem ofSources_walk_paths_shared : ∃ s,
    ofSources {} [("t", "type p { type x; x : x; };")] = .ok s ∧
      s.walk.Pairwise fun entry other =>
        entry.1 = other.1 → s.Ambiguous (.space root) entry.1 := by
  obtain ⟨s, hs, -⟩ := exists_ok (show ((ofSources {}
    [("t", "type p { type x; x : x; };")]).toOption.any fun _ => true) = true by decide +kernel)
  exact ⟨s, hs, ofSources_walk_paths hs⟩

/-- A field and a name can make two types have one path. -/
theorem field_shares_path : ∃ s,
    ofSources {} [("t", "type p { x : array 3 byte; type x : array 4 byte; };")] = .ok s ∧
      ¬ (s.walk.map Prod.fst).Nodup := by
  obtain ⟨s, hs, hp⟩ := exists_ok (show ((ofSources {}
    [("t", "type p { x : array 3 byte; type x : array 4 byte; };")]).toOption.any fun s =>
      s.walk.map Prod.fst = [["p"], ["p", "x"], ["p", "x", "elem"], ["p", "x"]]) = true by
    decide +kernel)
  refine ⟨s, hs, ?_⟩
  rw [of_decide_eq_true hp]
  decide

end Compilation

end PacketSchema
