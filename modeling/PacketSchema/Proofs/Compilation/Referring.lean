import PacketSchema.Proofs.Compilation.Completing
import PacketSchema.Proofs.Schema.Renumbering

/-! What compiled schemas refer to is there. Maps of numbers that keep those of the scopes that
there are keep all that the schema refers to. -/

namespace PacketSchema.Compilation

open Schema

/-- What a schema refers to keeps its number under the map. -/
structure Steady (f : ScopeId → ScopeId) (s : Schema) : Prop where
  scope : ∀ {x scope}, s.scope? x = some scope → scope.renumber f = scope
  types : s.types.renumber f = s.types

theorem steady_empty (f : ScopeId → ScopeId) : Steady f .empty where
  scope := by
    intro x scope hs
    obtain ⟨hlt, heq⟩ := List.getElem?_eq_some_iff.1 hs
    have hx : x.index = 0 := by simpa [Schema.empty] using hlt
    simp [Schema.empty, hx] at heq
    subst heq
    rfl
  types := rfl

namespace Steady

variable {f : ScopeId → ScopeId} {s s' : Schema}

theorem of_scopes_eq (h : Steady f s) (hs : s'.scopes = s.scopes)
    (ht : s'.types.renumber f = s'.types) : Steady f s' where
  scope := by
    intro x scope hscope
    refine h.scope (x := x) ?_
    rw [← hscope]
    exact congrArg (·[x.index]?) hs.symm
  types := ht

theorem layout (h : Steady f s) {x : ScopeId} {layout : Layout} (hl : s.layout? x = some layout) :
    layout.renumber f = layout := by
  obtain ⟨scope, hs, hlayout⟩ := Option.bind_eq_some_iff.1 hl
  have hkind : scope.kind.renumber f = scope.kind := congrArg Scope.kind (h.scope hs)
  have hmoved := scope.kind.layout?_renumber (f := f)
  rw [hkind, show scope.kind.layout? = some layout from hlayout] at hmoved
  exact (Option.some.inj hmoved).symm

theorem snapshot (h : Steady f s) (x : ScopeId) :
    (((s.layout? x).map Layout.snapshot).getD {}).renumber f =
      ((s.layout? x).map Layout.snapshot).getD {} := by
  cases hl : s.layout? x with
  | none => rfl
  | some layout => exact congrArg Layout.snapshot (h.layout hl)

theorem item (h : Steady f s) {x : ScopeId} {path : Path} {item : Item}
    (hfound : s.lookup? x path = some item) : item.renumber f = item := by
  obtain ⟨y, scope, name, hs, hmem⟩ := mem_names_of_lookup? hfound
  have hnames : scope.names.map (Item.renumber f) = scope.names := congrArg Scope.names (h.scope hs)
  have hentries : scope.names.entries.map (Prod.map id (Item.renumber f)) =
      scope.names.entries.map id := by
    rw [List.map_id]
    exact congrArg Table.entries hnames
  have hentry := List.map_inj_left.1 hentries _ hmem
  exact congrArg Prod.snd hentry

theorem addScope (h : Steady f s) {scope : Scope} (hscope : scope.renumber f = scope) :
    Steady f (s.addScope scope) where
  scope := by
    intro x found hs
    rw [scope?_addScope] at hs
    split at hs
    · cases hs
      exact hscope
    · exact h.scope hs
  types := h.types

theorem modifyScope (h : Steady f s) (x : ScopeId) {g : Scope → Scope}
    (hg : ∀ scope, scope.renumber f = scope → (g scope).renumber f = g scope) :
    Steady f (s.modifyScope x g) where
  scope := by
    intro y found hs
    rw [scope?_modifyScope] at hs
    split at hs
    · obtain ⟨scope, hscope, rfl⟩ := Option.map_eq_some_iff.1 hs
      exact hg scope (h.scope hscope)
    · exact h.scope hs
  types := h.types

theorem modifyLayout (h : Steady f s) (x : ScopeId) {g : Layout → Layout}
    (hg : ∀ l, l.renumber f = l → (g l).renumber f = g l) : Steady f (s.modifyLayout x g) := by
  refine h.modifyScope x fun scope hscope => ?_
  obtain ⟨name, parent, position, kind, names⟩ := scope
  cases kind <;> simp_all [Scope.renumber, ScopeKind.mapLayout, ScopeKind.renumber]

theorem bind (h : Steady f s) (x : ScopeId) (name : String) {item : Item}
    (hitem : item.renumber f = item) : Steady f (s.bind x name item) := by
  refine h.modifyScope _ fun scope hscope => ?_
  have hnames : scope.names.map (Item.renumber f) = scope.names := congrArg Scope.names hscope
  have hkind : scope.kind.renumber f = scope.kind := congrArg Scope.kind hscope
  have hinsert := scope.names.insert_map (Item.renumber f) name item
  rw [hnames, hitem] at hinsert
  simp [Scope.renumber, hkind, ← hinsert]

theorem intern (h : Steady f s) (hf : Function.Injective f) {t : ParamType}
    (ht : t.renumber f = t) : Steady f (s.intern t) := by
  refine h.of_scopes_eq rfl ?_
  have hintern := s.types.intern_renumber hf t
  rw [h.types, ht] at hintern
  exact (congrArg Prod.snd hintern).symm

end Steady

/-- A new scope refers to what those around it refer to, or to one of them. -/
theorem Opens.renumber_eq {f : ScopeId → ScopeId} {s : Schema} {d : ScopeId} {task : Task}
    {scope : Scope} (h : Opens s d task scope) (hr : s.Rooted) (hd : s.Has d)
    (hfix : ∀ x, s.Has x → f x = x) (hs : Steady f s) : scope.renumber f = scope := by
  cases h with
  | space _ _ => rfl
  | struct _ _ => rfl
  | inline _ => rfl
  | @arm name a p hclimb =>
    have hbase : f a.base = a.base :=
      hfix _ (Nat.lt_of_le_of_lt (hr.around_le hd (around_base hclimb)) hd)
    have hlayout := hs.snapshot a.source
    unfold Anchor.kind
    cases a.path <;> simp [Scope.renumber, ScopeKind.renumber, hbase, hlayout, Table.map]

theorem AddsFields.steady {f : ScopeId → ScopeId} {d : ScopeId} {t : TypeRef} {names : List Ident}
    {s s' : Schema} (h : AddsFields d t names s s') (ht : t.renumber f = t) (hs : Steady f s) :
    Steady f s' := by
  induction h with
  | nil => exact hs
  | warn w h ih => exact ih (hs.of_scopes_eq rfl hs.types)
  | cons hl hnew h ih =>
    refine ih (hs.modifyLayout d fun l hfixed => ?_)
    rw [Layout.renumber_addField, hfixed, Field.renumber, ht]

/-- What comes of a job keeps its number under the map. -/
def Job.Steady (f : ScopeId → ScopeId) : Job → Prop
  | .scope _ _ id => f id = id
  | .type _ t => t.renumber f = t
  | .applied _ t => t.renumber f = t
  | .meaning _ item | .bound _ item => item.renumber f = item
  | .length _ | .statement _ | .statements _ => True

theorem Makes.steady {f : ScopeId → ScopeId} {ms : List Compilation} {d : ScopeId} {job : Job}
    {s s' : Schema} (h : Makes ms d job s s') (hf : Function.Injective f) (hr : s.Rooted)
    (hd : s.Has d) (hfix : ∀ x, s'.Has x → f x = x) (hs : Steady f s) :
    Steady f s' ∧ job.Steady f := by
  induction h with
  | @scope d task scope body s s' hopens h ih =>
    have hr' := hr.addScope hd hopens.parent
    have hnew := has_addScope s scope
    have hk := (h.framed hr' hnew).keeps
    have hscope := hopens.renumber_eq hr hd
      (fun x hx => hfix x (hk.has ((keeps_addScope s scope).has hx))) hs
    exact ⟨(ih hr' hnew hfix (hs.addScope hscope)).1, hfix _ (hk.has hnew)⟩
  | builtin _ _ => exact ⟨hs, rfl⟩
  | application _ h ih =>
    obtain ⟨hs', ht⟩ := ih hr hd hfix hs
    exact ⟨hs'.intern hf ht, rfl⟩
  | named _ hfound => exact ⟨hs, Item.type.inj (hs.item hfound)⟩
  | grouped _ ih => exact ih hr hd hfix hs
  | inline _ ih =>
    obtain ⟨hs', hid⟩ := ih hr hd hfix hs
    exact ⟨hs', congrArg TypeRef.struct hid⟩
  | word _ => exact ⟨hs, trivial⟩
  | counted _ _ ih => exact ⟨(ih hr hd hfix hs).1, trivial⟩
  | @plain d args t s _ ht =>
    refine ⟨hs, ?_⟩
    cases t <;> first | rfl | cases ht
  | @measured d a args t s s' _ ht _ ih =>
    refine ⟨(ih hr hd hfix hs).1, ?_⟩
    cases t <;> first | rfl | cases ht
  | array hl _ h ihl ih =>
    have hlength := hl.framed hr hd
    have hd' := hlength.keeps.has hd
    have hk := (h.framed hlength.rooted hd').keeps
    obtain ⟨hs₁, -⟩ := ihl hr hd (fun x hx => hfix x (hk.has hx)) hs
    obtain ⟨hs', ht⟩ := ih hlength.rooted hd' hfix hs₁
    exact ⟨hs', congrArg (ParamType.array _) ht⟩
  | boolOptional _ _ ih =>
    obtain ⟨hs', ht⟩ := ih hr hd hfix hs
    exact ⟨hs', congrArg ParamType.boolOptional ht⟩
  | @opened d st scope body id s s' _ _ ih =>
    obtain ⟨hs', hid⟩ := ih hr hd hfix hs
    refine ⟨hs', ?_⟩
    have hid : f id = id := hid
    unfold Job.Steady Scope.item
    cases scope.kind <;> simp [Item.renumber, TypeRef.renumber, hid]
  | assigned _ _ ih =>
    obtain ⟨hs', ht⟩ := ih hr hd hfix hs
    exact ⟨hs', congrArg Item.type ht⟩
  | bound _ _ h ih =>
    have hmeaning := ih hr hd (fun x hx => hfix x ((SameShapes.bind _ _ _ _).keeps.has hx)) hs
    exact ⟨hmeaning.1.bind _ _ hmeaning.2, hmeaning.2⟩
  | declared _ _ ih => exact ⟨(ih hr hd hfix hs).1, trivial⟩
  | @variant d p name body id a path layout s s' _ _ _ _ _ ih =>
    obtain ⟨hs', hid⟩ :=
      ih hr hd (fun x hx => hfix x ((SameShapes.modifyLayout _ _ _).keeps.has hx)) hs
    have hid : f id = id := TypeRef.struct.inj (Item.type.inj hid)
    refine ⟨hs'.modifyLayout _ fun l hl => ?_, trivial⟩
    rw [Layout.renumber_addBranch, hl, hid]
  | proxy _ _ ih => exact ⟨(ih hr hd hfix hs).1, trivial⟩
  | constraint _ _ _ =>
    refine ⟨hs.modifyLayout _ fun l hl => ?_, trivial⟩
    rw [Layout.renumber_addConstraint, hl]
  | fields _ h hadds ih =>
    have htype := h.framed hr hd
    have hk := (hadds.framed htype.rooted).keeps
    obtain ⟨hs₁, ht⟩ := ih hr hd (fun x hx => hfix x (hk.has hx)) hs
    exact ⟨hadds.steady ht hs₁, trivial⟩
  | nil => exact ⟨hs, trivial⟩
  | cons h hrest ih ihrest =>
    have hst := h.framed hr hd
    have hd' := hst.keeps.has hd
    have hk := (hrest.framed hst.rooted hd').keeps
    obtain ⟨hs₁, -⟩ := ih hr hd (fun x hx => hfix x (hk.has hx)) hs
    exact ⟨(ihrest hst.rooted hd' hfix hs₁).1, trivial⟩

end PacketSchema.Compilation
