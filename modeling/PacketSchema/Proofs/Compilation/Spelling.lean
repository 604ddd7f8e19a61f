import PacketSchema.Proofs.Compilation.Aliasing
import PacketSchema.Proofs.Compilation.Keys
import PacketSchema.Proofs.Compilation.Safety
import PacketSchema.Proofs.Schema.Outlining

/-! Outlines of compiled schemas. A name that is an alias is told from a declaration by the own name
of the type that it stands for, so an alias is shown as one, and nothing is spelled out twice, if
and only if no alias has the own name of its type. -/

namespace PacketSchema.Compilation

open Schema Outline

/-! ## What is spelled out -/

theorem branchSpells_eq (l : Layout) : branchSpells l = l.ownBranches.map Prod.snd := by
  unfold branchSpells Layout.ownBranches
  induction l.order with
  | nil => rfl
  | cons entry order ih =>
    rw [List.flatMap_cons, ih]
    cases entry <;> rfl

/-- A scope has a struct under the struct's own name. -/
def BindsOwn (s : Schema) (id : ScopeId) (name : String) (x : ScopeId) : Prop :=
  ∃ scope target, s.scope? id = some scope ∧ (name, .type (.struct x)) ∈ scope.names.entries ∧
    s.scope? x = some target ∧ target.name = some name ∧ target.kind.path? = none

/-- No scope is spelled out twice. -/
def SpellsOnce (s : Schema) : Prop := (headers s.outline).Nodup

/-- Why a scope is spelled out below another. -/
inductive Spells (s : Schema) (id x : ScopeId) : Prop
  | space {scope : Scope} {name : String} (hs : s.scope? id = some scope)
      (hmem : (name, .space x) ∈ scope.names.entries)
  | struct {name : String} (h : BindsOwn s id name x)
  | branch {l : Layout} {path : Path} (hl : s.layout? id = some l)
      (hmem : (path, x) ∈ l.branches.entries)

/-- What is needed of a schema to tell what its outline spells out. -/
structure Legible (s : Schema) : Prop where
  has_root : s.Has Schema.root
  keyed : Keyed s
  settled : LinksSettled s Schema.root none
  branches : ∀ id l, s.layout? id = some l →
    l.branches.entries = l.ownBranches ∧ (l.branches.entries.map Prod.fst).Nodup
  spaces : SpacesNamed s

theorem legible_of_ok {options : Options} {sources : List (String × String)} {s : Schema}
    (h : ofSources options sources = .ok s) : Legible s := by
  obtain ⟨-, hroot, hsettled⟩ := linksSettled_of_ok h
  obtain ⟨r, -, heq, hsteps⟩ := steps_of_ok h
  refine ⟨hroot, keyed_of_ok h, hsettled, fun id l hl => ?_, heq ▸ hsteps.spacesNamed⟩
  obtain ⟨taken, hinherits⟩ := hsteps.history.inherits (heq ▸ hl)
  exact ⟨hinherits.replays.branches, hinherits.replays.branches_nodup⟩

namespace Legible

variable {s : Schema} (h : Legible s)
include h

theorem rooted : s.Rooted := h.keyed.rooted

theorem mem_branchSpells {id x : ScopeId} {l : Layout} (hl : s.layout? id = some l) :
    x ∈ branchSpells l ↔ ∃ path, (path, x) ∈ l.branches.entries := by
  rw [branchSpells_eq, (h.branches id l hl).1]
  simp

theorem mem_spells {id x : ScopeId} : x ∈ s.spells id ↔ Spells s id x := by
  rw [s.mem_spells_iff]
  constructor
  · rintro ⟨scope, hs, hx⟩
    obtain ⟨⟨name, item⟩, hmem, hx⟩ | ⟨l, hl, hx⟩ := mem_scopeSpells.1 hx
    · obtain rfl | ⟨rfl, target, ht, hname, hpath⟩ := mem_itemSpells.1 hx
      · exact .space hs hmem
      · exact .struct ⟨scope, target, hs, hmem, ht, hname, hpath⟩
    · have hlayout : s.layout? id = some l := Option.bind_eq_some_iff.2 ⟨scope, hs, hl⟩
      obtain ⟨path, hmem⟩ := (h.mem_branchSpells hlayout).1 hx
      exact .branch hlayout hmem
  · intro hx
    cases hx with
    | @space scope name hs hmem =>
      have hitem : x ∈ itemSpells s name (.space x) := mem_itemSpells.2 (.inl rfl)
      exact ⟨scope, hs, mem_scopeSpells.2 (.inl ⟨_, hmem, hitem⟩)⟩
    | @struct name hown =>
      obtain ⟨scope, target, hs, hmem, ht⟩ := hown
      have hitem : x ∈ itemSpells s name (.type (.struct x)) :=
        mem_itemSpells.2 (.inr ⟨rfl, target, ht⟩)
      exact ⟨scope, hs, mem_scopeSpells.2 (.inl ⟨_, hmem, hitem⟩)⟩
    | @branch l path hl hmem =>
      obtain ⟨scope, hs, hlayout⟩ := Option.bind_eq_some_iff.1 hl
      have hbranch : x ∈ branchSpells l := (h.mem_branchSpells hl).2 ⟨path, hmem⟩
      exact ⟨scope, hs, mem_scopeSpells.2 (.inr ⟨l, hlayout, hbranch⟩)⟩

theorem encloses_of_mem_spells {id x : ScopeId} (hx : x ∈ s.spells id) : Encloses s id x := by
  cases h.mem_spells.1 hx with
  | space hs hmem => exact ⟨.space id, _, rfl, .name rfl hs hmem, rfl⟩
  | struct hown =>
    obtain ⟨_, _, hs, hmem, -⟩ := hown
    exact ⟨.space id, _, rfl, .name rfl hs hmem, rfl⟩
  | branch hl hmem => exact ⟨.type (.struct id), _, rfl, .member hl (.branch hmem), rfl⟩

theorem rank_lt {id x : ScopeId} (hx : x ∈ s.spells id) :
    s.Has x ∧ (scopesBelow s x).card < (scopesBelow s id).card := by
  have hid : s.Has id := by
    cases h.mem_spells.1 hx with
    | space hs _ => exact has_of_scope? hs
    | struct hown =>
      obtain ⟨_, _, hs, -⟩ := hown
      exact has_of_scope? hs
    | branch hl _ => exact has_of_layout? hl
  have hencloses := h.encloses_of_mem_spells hx
  refine ⟨?_, h.settled.card_scopesBelow_lt hid hencloses⟩
  obtain ⟨n, m, -, hlink, hm⟩ := hencloses
  exact (h.settled.complete hlink).1.has hm

/-- What is bound as a namespace is one. -/
theorem kind_of_space {id x : ScopeId} {scope target : Scope} {name : String}
    (hs : s.scope? id = some scope) (hmem : (name, .space x) ∈ scope.names.entries)
    (ht : s.scope? x = some target) : target.kind = .space := by
  have hlink : s.Links (.space id) (.space x) := .name rfl hs hmem
  obtain ⟨found, hfound, hkind⟩ := (h.settled.complete hlink).1
  rw [ht] at hfound
  cases hfound
  exact hkind

/-- What a scope's own data tell about where it is spelled out. -/
theorem place {id x : ScopeId} (hx : Spells s id x) :
    ∃ target, s.scope? x = some target ∧
      match target.kind with
      | .space => ∃ d, target.parent = some d ∧ s.namesOwner d = id
      | .variant _ base _ => base = id
      | .struct _ | .proxy _ _ => ∃ name, target.name = some name ∧ BindsOwn s id name x := by
  cases hx with
  | @space scope name hs hmem =>
    obtain ⟨target, d, ht, -, hp, howner⟩ := h.spaces id scope name x hs hmem
    refine ⟨target, ht, ?_⟩
    rw [h.kind_of_space hs hmem ht]
    exact ⟨d, hp, howner⟩
  | @struct name hown =>
    have ⟨scope, target, hs, hmem, ht, hname, hpath⟩ := hown
    have hlink : s.Links (.space _) (.type (.struct x)) := .name rfl hs hmem
    obtain ⟨found, hfound, hstruct, -⟩ := (h.settled.complete hlink).1
    rw [ht] at hfound
    cases hfound
    refine ⟨target, ht, ?_⟩
    cases hkind : target.kind with
    | space => simp [Scope.isStruct, Scope.layout?, hkind, ScopeKind.layout?] at hstruct
    | variant _ _ _ => simp [hkind, ScopeKind.path?] at hpath
    | struct _ => exact ⟨name, hname, hown⟩
    | proxy _ _ => exact ⟨name, hname, hown⟩
  | branch hl hmem =>
    obtain ⟨target, layout, ht, hkind⟩ := (h.keyed.branches.listed _ _ _ _ hl hmem).1
    refine ⟨target, ht, ?_⟩
    rw [hkind]

/-- Only a struct that is no variant may be spelled out below several scopes. -/
theorem eq_or_bindsOwn {a b x : ScopeId} (ha : Spells s a x) (hb : Spells s b x) :
    a = b ∨ ∃ name, BindsOwn s a name x ∧ BindsOwn s b name x := by
  have hnamed : ∀ {target : Scope},
      (∃ name, target.name = some name ∧ BindsOwn s a name x) →
      (∃ name, target.name = some name ∧ BindsOwn s b name x) →
      ∃ name, BindsOwn s a name x ∧ BindsOwn s b name x := by
    rintro target ⟨name, hname, hbinds⟩ ⟨other, hother, hbinds'⟩
    rw [hname] at hother
    cases hother
    exact ⟨name, hbinds, hbinds'⟩
  obtain ⟨target, ht, hplace⟩ := h.place ha
  obtain ⟨found, hfound, hplace'⟩ := h.place hb
  rw [ht] at hfound
  cases hfound
  -- a namespace is bound where it stands, and a variant is a branch of its base
  cases hkind : target.kind with
  | space =>
    rw [hkind] at hplace hplace'
    obtain ⟨d, hp, rfl⟩ := hplace
    obtain ⟨e, hp', rfl⟩ := hplace'
    rw [hp] at hp'
    cases hp'
    exact .inl rfl
  | variant _ base _ =>
    rw [hkind] at hplace hplace'
    exact .inl (hplace.symm.trans hplace')
  | struct _ =>
    rw [hkind] at hplace hplace'
    exact .inr (hnamed hplace hplace')
  | proxy _ _ =>
    rw [hkind] at hplace hplace'
    exact .inr (hnamed hplace hplace')

theorem root_not_mem_spells (id : ScopeId) : Schema.root ∉ s.spells id := by
  intro hx
  obtain ⟨n, m, -, hlink, hm⟩ := h.encloses_of_mem_spells hx
  exact (h.settled.complete hlink).2 _ hm (h.rooted.around_self h.has_root)

/-- What is spelled out for a name has the name for its own, and is no variant. -/
theorem name_of_mem_itemSpells {id x : ScopeId} {scope : Scope} {name : String} {item : Item}
    (hs : s.scope? id = some scope) (hmem : (name, item) ∈ scope.names.entries)
    (hx : x ∈ itemSpells s name item) :
    ∃ target, s.scope? x = some target ∧ target.name = some name ∧ target.kind.path? = none := by
  obtain rfl | ⟨-, target, ht, hname, hpath⟩ := mem_itemSpells.1 hx
  · obtain ⟨target, -, ht, hname, -⟩ := h.spaces id scope name x hs hmem
    exact ⟨target, ht, hname, by rw [h.kind_of_space hs hmem ht]; rfl⟩
  · exact ⟨target, ht, hname, hpath⟩

theorem branchSpells_nodup {id : ScopeId} {l : Layout} (hl : s.layout? id = some l) :
    (branchSpells l).Nodup := by
  obtain ⟨hentries, hkeys⟩ := h.branches id l hl
  rw [branchSpells_eq, ← hentries]
  refine hkeys.of_map.map_on ?_
  rintro ⟨path, x⟩ hentry ⟨other, x'⟩ hother heq
  obtain rfl : x = x' := heq
  obtain ⟨⟨target, layout, ht, hkind⟩, -⟩ := h.keyed.branches.listed _ _ _ _ hl hentry
  obtain ⟨⟨found, layout', hfound, hkind'⟩, -⟩ := h.keyed.branches.listed _ _ _ _ hl hother
  rw [ht] at hfound
  cases hfound
  rw [hkind] at hkind'
  cases hkind'
  rfl

/-- Below one scope nothing is spelled out twice. -/
theorem spells_nodup (id : ScopeId) : (s.spells id).Nodup := by
  cases hs : s.scope? id with
  | none => simp [spells, hs]
  | some scope =>
    rw [s.spells_eq hs]
    have hnames : (scope.names.entries.flatMap fun entry =>
        itemSpells s entry.1 entry.2).Nodup := by
      have hkeys : scope.names.entries.Pairwise fun a b => a.1 ≠ b.1 :=
        List.pairwise_map.1 (h.keyed.names id scope hs).1
      refine List.nodup_flatMap.2 ⟨fun entry _ => itemSpells_nodup s entry.1 entry.2, ?_⟩
      refine hkeys.imp_of_mem fun {a b} ha hb hne x hxa hxb => hne ?_
      obtain ⟨target, ht, hname, -⟩ := h.name_of_mem_itemSpells hs ha hxa
      obtain ⟨found, hfound, hname', -⟩ := h.name_of_mem_itemSpells hs hb hxb
      rw [ht] at hfound
      cases hfound
      exact Option.some.inj (hname.symm.trans hname')
    have hbranches : ((scope.layout?.map branchSpells).getD []).Nodup := by
      cases hl : scope.layout? with
      | none => exact List.nodup_nil
      | some l => exact h.branchSpells_nodup (Option.bind_eq_some_iff.2 ⟨scope, hs, hl⟩)
    -- what is spelled out for a name is no variant, and what is listed as a branch is one
    refine hnames.append hbranches fun x hname hbranch => ?_
    obtain ⟨entry, hentry, hx⟩ := List.mem_flatMap.1 hname
    obtain ⟨target, ht, -, hpath⟩ := h.name_of_mem_itemSpells hs hentry hx
    cases hl : scope.layout? with
    | none =>
      rw [hl] at hbranch
      cases hbranch
    | some l =>
      have hlayout : s.layout? id = some l := Option.bind_eq_some_iff.2 ⟨scope, hs, hl⟩
      rw [hl] at hbranch
      obtain ⟨path, hmem⟩ := (h.mem_branchSpells hlayout).1 hbranch
      obtain ⟨⟨found, layout, hfound, hkind⟩, -⟩ := h.keyed.branches.listed _ _ _ _ hlayout hmem
      rw [ht] at hfound
      cases hfound
      rw [hkind] at hpath
      cases hpath

/-! ## The outline -/

theorem visited_perm : s.visited.Perm (Schema.root :: s.visited.flatMap s.spells) := by
  obtain ⟨scope, hs⟩ := h.has_root.scope?
  have hkind := (h.rooted.root hs (h.rooted.parent_root hs)).2.2
  have hlayout : scope.layout? = none := by rw [Scope.layout?, hkind]; rfl
  rw [s.visited_eq hs hlayout]
  exact s.spelled_perm (fun _ _ => h.rank_lt) h.has_root
    (Nat.lt_succ_of_le (card_scopesBelow_le s Schema.root))

theorem spellsOnce_iff : SpellsOnce s ↔ ∀ a ∈ s.visited, ∀ b ∈ s.visited, ∀ name x,
    BindsOwn s a name x → BindsOwn s b name x → a = b := by
  have hperm := h.visited_perm
  have hroot : Schema.root ∉ headers s.outline := by
    rw [(List.perm_cons _).1 hperm |>.mem_iff]
    intro hmem
    obtain ⟨id, -, hx⟩ := List.mem_flatMap.1 hmem
    exact h.root_not_mem_spells id hx
  have hvisited : SpellsOnce s ↔ s.visited.Nodup := by
    unfold visited
    rw [List.nodup_cons, and_iff_right hroot]
    exact Iff.rfl
  rw [hvisited]
  constructor
  · intro hnodup a ha b hb name x hxa hxb
    exact unique_of_nodup_flatMap hperm hnodup ha hb (h.mem_spells.2 (.struct hxa))
      (h.mem_spells.2 (.struct hxb))
  · intro hunique
    refine nodup_of_perm_flatMap hperm (fun a _ => h.root_not_mem_spells a) ?_
      (fun a _ => h.spells_nodup a) (fun _ _ hx => (h.rank_lt hx).2)
      (fun a => card_scopesBelow_le s a)
    intro a ha b hb x hxa hxb
    obtain heq | ⟨name, hbinds, hbinds'⟩ :=
      h.eq_or_bindsOwn (h.mem_spells.1 hxa) (h.mem_spells.1 hxb)
    · exact heq
    · exact hunique a ha b hb name x hbinds hbinds'

theorem unfolds_scopeLines (k depth : Nat) {id : ScopeId} (hid : s.Has id)
    (hk : (scopesBelow s id).card ≤ k) (name : String) :
    Unfolds s (scopeLines s s.scopes.length depth id name) := by
  induction k generalizing depth id name with
  | zero =>
    have hmem : id.index ∈ scopesBelow s id := mem_scopesBelow.2 ⟨hid, .refl⟩
    rw [Finset.card_eq_zero.1 (Nat.le_zero.1 hk)] at hmem
    exact absurd hmem (Finset.notMem_empty _)
  | succ k ih =>
    obtain ⟨scope, hs⟩ := hid.scope?
    have hfull : scopeLines s s.scopes.length depth id =
        scopeLines s (s.scopes.length + 1) depth id :=
      h.settled.scopeLines_eq (fun id l hl => (h.branches id l hl).1) (Nat.le_succ _) depth
        (card_scopesBelow_le s id)
    refine Unfolds.scopeLines hs (fun name => congrFun hfull name) (fun x hx name => ?_) name
    obtain ⟨hhas, hlt⟩ := h.rank_lt (s.spells_eq hs ▸ hx)
    exact ih (depth + 1) hhas (by omega) name

theorem unfolds_outline : ∃ scope, s.scope? Schema.root = some scope ∧
    s.outline = scope.names.entries.flatMap (entryLines s 0) ∧ Unfolds s s.outline := by
  obtain ⟨scope, hs⟩ := h.has_root.scope?
  have houtline : s.outline = scope.names.entries.flatMap (entryLines s 0) := by
    unfold outline
    rw [hs]
    rfl
  refine ⟨scope, hs, houtline, ?_⟩
  rw [houtline]
  refine .flatMap fun entry hentry => .itemLines fun x hx => ?_
  have hmem : x ∈ s.spells Schema.root := by
    rw [s.spells_eq hs]
    exact List.mem_append_left _ (List.mem_flatMap.2 ⟨entry, hentry, hx⟩)
  exact h.unfolds_scopeLines _ 0 (h.rank_lt hmem).1 (Nat.le_refl _) entry.1

end Legible

/-! ## Aliases -/

/-- The type is a struct that has the name of the alias for its own. -/
def GoesBy (s : Schema) (name : String) (t : TypeRef) : Prop :=
  ∃ x scope, t = .struct x ∧ s.scope? x = some scope ∧ scope.name = some name

/-- The lines for a name are one line that says what it is an alias for. -/
def Shown (s : Schema) (name : String) (t : TypeRef) : Prop :=
  ∀ depth, entryLines s depth (name, .type t) = [.typeAlias depth name (s.typeName t)]

theorem scopeLines_ne_typeAlias (s : Schema) (levels depth : Nat) (id : ScopeId)
    (name name' t : String) : scopeLines s levels depth id name ≠ [.typeAlias depth name' t] := by
  cases levels with
  | zero => simp [scopeLines]
  | succ levels =>
    unfold scopeLines
    cases s.scope? id <;> simp

namespace Legible

variable {s : Schema} (h : Legible s)
include h

theorem shown_iff {id : ScopeId} {name : String} {t : TypeRef} (halias : IsAlias s id name t) :
    Shown s name t ↔ ¬ GoesBy s name t := by
  obtain ⟨⟨scope, hs, hmem⟩, -⟩ := halias
  have hlink : s.Links (.space id) (.type t) := .name rfl hs hmem
  unfold Shown entryLines itemLines GoesBy
  cases t with
  | builtin _ => simp
  | param _ => simp
  | struct x =>
    obtain ⟨target, ht, -⟩ := (h.settled.complete hlink).1
    by_cases hname : target.name = some name
    · have hgoes : ∃ y scope, TypeRef.struct x = .struct y ∧ s.scope? y = some scope ∧
          scope.name = some name := ⟨x, target, rfl, ht, hname⟩
      simp only [ht, hname, if_true, hgoes, not_true_eq_false, iff_false, not_forall]
      refine ⟨0, ?_⟩
      split
      · exact scopeLines_ne_typeAlias s _ _ _ _ _ _
      · simp
    · simp [ht, hname]

/-- If no alias goes by the name of its struct, no struct has its own name in two scopes. -/
theorem eq_of_bindsOwn
    (hshown : ∀ id ∈ s.visited, ∀ name t, IsAlias s id name t → Shown s name t) {a b x : ScopeId}
    (ha : a ∈ s.visited) (hb : b ∈ s.visited) {name : String} (hbinds : BindsOwn s a name x)
    (hbinds' : BindsOwn s b name x) : a = b := by
  have hnamed : ∀ id ∈ s.visited, BindsOwn s id name x → Named s id name x := by
    rintro id hid ⟨scope, target, hs, hmem, ht, hname, -⟩
    by_contra hnot
    have halias : IsAlias s id name (.struct x) := by
      refine ⟨⟨scope, hs, hmem⟩, fun y hy => ?_⟩
      cases hy
      exact hnot
    exact (h.shown_iff halias).1 (hshown id hid name _ halias) ⟨x, target, rfl, ht, hname⟩
  obtain ⟨target, d, ht, -, hp, rfl⟩ := hnamed a ha hbinds
  obtain ⟨found, e, hfound, -, hp', rfl⟩ := hnamed b hb hbinds'
  rw [ht] at hfound
  cases hfound
  rw [hp] at hp'
  cases hp'
  rfl

end Legible

/-- The outline of a compiled schema holds the lines for all names of the root, and behind the
header of any scope all that the scope holds and the lines for all of its names. What is declared as
an alias has one line that says what it stands for if and only if that has another name of its own.
No scope is spelled out twice if and only if no struct has its own name in several scopes, and so if
all aliases are shown. -/
theorem ofSources_outline_aliases {options : Options} {sources : List (String × String)}
    {s : Schema} (h : ofSources options sources = .ok s) :
    (∃ scope, s.scope? root = some scope ∧
      s.outline = scope.names.entries.flatMap (entryLines s 0) ∧ Unfolds s s.outline) ∧
    ThroughAll (DeclaresAlias (history options sources) s) s (statementsOf sources) root ∧
    (∀ id ∈ s.visited, ∀ name t, IsAlias s id name t → (Shown s name t ↔ ¬ GoesBy s name t)) ∧
    (SpellsOnce s ↔ ∀ a ∈ s.visited, ∀ b ∈ s.visited, ∀ name x,
      BindsOwn s a name x → BindsOwn s b name x → a = b) ∧
    ((∀ id ∈ s.visited, ∀ name t, IsAlias s id name t → Shown s name t) → SpellsOnce s) := by
  have hlegible := legible_of_ok h
  refine ⟨hlegible.unfolds_outline, throughAll_declaresAlias h,
    fun _ _ _ _ => hlegible.shown_iff, hlegible.spellsOnce_iff, fun hshown => ?_⟩
  refine hlegible.spellsOnce_iff.2 fun a ha b hb name x hbinds hbinds' => ?_
  exact hlegible.eq_of_bindsOwn hshown ha hb hbinds hbinds'

/-- A struct that stands elsewhere, or has another name, is bound as an alias. -/
theorem isAlias_of_place {s : Schema} {id d x : ScopeId} {name : String} {own : Option String}
    {entries : List (String × Item)}
    (hentries : (s.scope? id).map (·.names.entries) = some entries)
    (hmem : (name, .type (.struct x)) ∈ entries)
    (hx : (s.scope? x).map (fun scope => (scope.name, scope.parent)) = some (own, some d))
    (hplace : own = some name → s.namesOwner d ≠ id) : IsAlias s id name (.struct x) := by
  obtain ⟨scope, hs, rfl⟩ := Option.map_eq_some_iff.1 hentries
  obtain ⟨target, ht, hdata⟩ := Option.map_eq_some_iff.1 hx
  obtain ⟨rfl, hparent⟩ := Prod.mk.inj hdata
  refine ⟨⟨scope, hs, hmem⟩, ?_⟩
  rintro y ⟨⟩ ⟨found, e, hfound, hname, hp, howner⟩
  rw [ht] at hfound
  cases hfound
  rw [hparent] at hp
  cases hp
  exact hplace hname howner

/-- A struct is bound outside of the namespace that it is declared in, under its own name and under
another. Under its own name it is spelled out again. -/
theorem ofSources_outline_aliases_twice : ∃ s,
    ofSources {} [("t", "namespace h { type x { k : byte; }; }; type x : h.x; type y : h.x;")] =
        .ok s ∧
      Shown s "y" (.struct ⟨2⟩) ∧ ¬ Shown s "x" (.struct ⟨2⟩) ∧ ¬ SpellsOnce s := by
  obtain ⟨s, hs, hp⟩ := exists_ok (show ((ofSources {}
    [("t", "namespace h { type x { k : byte; }; }; type x : h.x; type y : h.x;")]).toOption.any
      fun s => (s.scope? root).map (·.names.entries) = some [("h", .space ⟨1⟩),
          ("x", .type (.struct ⟨2⟩)), ("y", .type (.struct ⟨2⟩))] ∧
        (s.scope? ⟨1⟩).map (·.names.entries) = some [("x", .type (.struct ⟨2⟩))] ∧
        (s.scope? ⟨2⟩).map (fun scope => (scope.name, scope.parent)) =
          some (some "x", some ⟨1⟩) ∧
        ((s.scope? ⟨2⟩).bind (·.kind.path?)) = none ∧
        s.namesOwner ⟨1⟩ = ⟨1⟩ ∧ ⟨1⟩ ∈ s.visited) = true by decide +kernel)
  obtain ⟨hroot, hspace, hstruct, hpath, howner, hvisited⟩ := of_decide_eq_true hp
  obtain ⟨-, -, hshown, honce, -⟩ := ofSources_outline_aliases hs
  have halias : IsAlias s root "y" (.struct ⟨2⟩) :=
    isAlias_of_place hroot (by simp) hstruct (by simp)
  have halias' : IsAlias s root "x" (.struct ⟨2⟩) :=
    isAlias_of_place hroot (by simp) hstruct (by simp [howner, root])
  obtain ⟨target, ht, hdata⟩ := Option.map_eq_some_iff.1 hstruct
  obtain ⟨hname, -⟩ := Prod.mk.inj hdata
  have hbinds : ∀ id entries, (s.scope? id).map (·.names.entries) = some entries →
      ("x", .type (.struct ⟨2⟩)) ∈ entries → BindsOwn s id "x" ⟨2⟩ := by
    rintro id entries hentries hmem
    obtain ⟨scope, hs, rfl⟩ := Option.map_eq_some_iff.1 hentries
    rw [ht] at hpath
    exact ⟨scope, target, hs, hmem, ht, hname, hpath⟩
  refine ⟨s, hs, (hshown root (.head _) "y" _ halias).2 ?_, ?_, ?_⟩
  · rintro ⟨x, found, ⟨⟩, hfound, hown⟩
    rw [ht] at hfound
    cases hfound
    exact absurd (hname.symm.trans hown) (by decide)
  · exact fun hx => (hshown root (.head _) "x" _ halias').1 hx ⟨⟨2⟩, target, rfl, ht, hname⟩
  · intro hx
    have heq := honce.1 hx root (.head _) ⟨1⟩ hvisited "x" ⟨2⟩
      (hbinds _ _ hroot (by simp)) (hbinds _ _ hspace (by simp))
    cases heq

/-- A variant has an alias with its own name at the root, and no line says so. -/
theorem outline_loses_alias : ∃ s,
    ofSources {} [("t", "type p { k : byte; variant a { k = 1; }; }; type a : p.a;")] = .ok s ∧
      root ∈ s.visited ∧ IsAlias s root "a" (.struct ⟨2⟩) ∧
      ∀ line ∈ s.outline, ∀ depth t, line ≠ .typeAlias depth "a" t := by
  obtain ⟨s, hs, hp⟩ := exists_ok (show ((ofSources {}
    [("t", "type p { k : byte; variant a { k = 1; }; }; type a : p.a;")]).toOption.any
      fun s => (s.scope? root).map (·.names.entries) = some [("p", .type (.struct ⟨1⟩)),
          ("a", .type (.struct ⟨2⟩))] ∧
        (s.scope? ⟨2⟩).map (fun scope => (scope.name, scope.parent)) =
          some (some "a", some ⟨1⟩) ∧
        s.namesOwner ⟨1⟩ = ⟨1⟩ ∧
        s.outline = [.scope 0 ⟨1⟩ "struct" "p", .field 1 "k" "byte", .scope 1 ⟨2⟩ "variant" "a",
          .field 2 "k" "byte", .constraint 2 "k" (.number 1)]) = true by decide +kernel)
  obtain ⟨hroot, hstruct, howner, houtline⟩ := of_decide_eq_true hp
  have halias : IsAlias s root "a" (.struct ⟨2⟩) :=
    isAlias_of_place hroot (by simp) hstruct (by simp [howner, root])
  refine ⟨s, hs, .head _, halias, fun line hline depth t heq => ?_⟩
  rw [houtline] at hline
  subst heq
  simp at hline

end PacketSchema.Compilation
