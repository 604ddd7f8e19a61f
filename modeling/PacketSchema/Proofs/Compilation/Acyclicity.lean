import PacketSchema.Proofs.Compilation.Completing
import PacketSchema.Proofs.Compilation.Inheritance
import PacketSchema.Schema.Outline

/-! No type of a compiled schema contains itself, as a scope is linked to only when it is complete.
So names of types and outlines, which recurse along the links, come to an end by themselves: what
bounds their recursions never cuts them off. -/

namespace PacketSchema

/-- No links lead back to where they start, and nothing is cut off that recurses along them. -/
structure Schema.Acyclic (s : Schema) : Prop where
  no_cycle : ∀ n path, s.Leads n path n → path = []
  wellFounded : WellFounded fun m n => ∃ name, (name, m) ∈ s.children n
  typeName_array : ∀ id length elem, s.param? id = some (.array length elem) →
    s.typeName (.param id) = s!"array {length.name} ({s.typeName elem})"
  typeName_boolOptional : ∀ id elem, s.param? id = some (.boolOptional elem) →
    s.typeName (.param id) = s!"bool_optional ({s.typeName elem})"
  scopeLines : ∀ levels, s.scopes.length ≤ levels →
    Outline.scopeLines s levels = Outline.scopeLines s s.scopes.length

namespace Compilation

open Schema Outline

variable {s : Schema} {d : ScopeId} {held : Option Node}

/-! ## Chains of links -/

theorem LinksSettled.not_transGen (h : LinksSettled s d held) (n : Node) :
    ¬ Relation.TransGen s.Links n n := by
  intro hcycle
  have hswap := Relation.transGen_swap.2 hcycle
  exact h.wellFounded.transGen.asymmetric _ _ hswap hswap

theorem LinksSettled.no_cycle (h : LinksSettled s d held) {n : Node} {path : List String}
    (hpath : s.Leads n path n) : path = [] := by
  obtain ⟨rfl, -⟩ | ⟨front, m, name, -, hfront, hchild⟩ := hpath.cases_last
  · rfl
  · exact absurd (Relation.TransGen.tail' hfront.leadsTo (links_iff.2 ⟨name, hchild⟩))
      (h.not_transGen n)

/-- What is older than an applied type, or not applied at all, is of a lower rank. -/
theorem rank_lt_of_older {t : TypeRef} {id : ParamId}
    (h : ∀ e, t = .param e → e.index < id.index) : rank t < rank (.param id) := by
  cases t with
  | builtin _ => exact Nat.succ_pos _
  | struct _ => exact Nat.succ_pos _
  | param e => exact Nat.succ_lt_succ (h e rfl)

/-- The element of an applied type is of a lower rank. -/
theorem LinksSettled.rank_elem (h : LinksSettled s d held) {id : ParamId} {t : ParamType}
    {elem : TypeRef} (ht : s.param? id = some t) (he : t.elem? = some elem) :
    rank elem < rank (.param id) :=
  rank_lt_of_older fun _ hparam => h.older ht (hparam ▸ he)

/-! ## Scopes -/

/-- The node by which a scope is linked to, if it is not a proxy. -/
def scopeNode (s : Schema) (id : ScopeId) : Node :=
  match s.scope? id with
  | some scope => (scope.item id).node
  | none => .space id

/-- A scope has a link to another. -/
def Encloses (s : Schema) (id x : ScopeId) : Prop :=
  ∃ n m, n.scope? = some id ∧ s.Links n m ∧ m.scope? = some x

theorem links_scopeNode {id : ScopeId} {n m : Node} (hn : n.scope? = some id)
    (h : s.Links n m) : s.Links (scopeNode s id) m := by
  unfold scopeNode
  cases h with
  | @name _ found scope name item hfound hs hmem =>
    obtain rfl := Option.some.inj (hfound.symm.trans hn)
    rw [hs]
    exact .name (scope.item_node_scope? _) hs hmem
  | @member found l _ hl h =>
    cases hn
    obtain ⟨scope, hs, hlayout⟩ := Option.bind_eq_some_iff.1 hl
    rw [hs]
    dsimp only
    rw [Scope.item_of_isStruct (Scope.isStruct_iff.2 ⟨l, hlayout⟩)]
    exact .member hl h
  | part _ _ => cases hn

theorem LinksSettled.links_of_encloses (h : LinksSettled s d held) {id x : ScopeId}
    (hx : Encloses s id x) : s.Links (scopeNode s id) (scopeNode s x) := by
  obtain ⟨n, m, hn, hlink, hm⟩ := hx
  obtain ⟨scope, hs, -, rfl⟩ := (h.complete hlink).1.item hm
  have hnode : scopeNode s x = (scope.item x).node := by
    unfold scopeNode
    rw [hs]
  rw [hnode]
  exact links_scopeNode hn hlink

open Classical in
/-- The numbers of all scopes that are found in a scope. -/
noncomputable def scopesBelow (s : Schema) (id : ScopeId) : Finset Nat :=
  (Finset.range s.scopes.length).filter fun i => Relation.ReflTransGen (Encloses s) id ⟨i⟩

theorem mem_scopesBelow {id : ScopeId} {i : Nat} :
    i ∈ scopesBelow s id ↔
      i < s.scopes.length ∧ Relation.ReflTransGen (Encloses s) id ⟨i⟩ := by
  classical
  unfold scopesBelow
  rw [Finset.mem_filter, Finset.mem_range]

theorem card_scopesBelow_le (s : Schema) (id : ScopeId) :
    (scopesBelow s id).card ≤ s.scopes.length := by
  have hsubset : scopesBelow s id ⊆ Finset.range s.scopes.length :=
    fun i hi => Finset.mem_range.2 (mem_scopesBelow.1 hi).1
  exact (Finset.card_le_card hsubset).trans_eq (Finset.card_range _)

theorem LinksSettled.card_scopesBelow_lt (h : LinksSettled s d held) {id x : ScopeId}
    (hid : s.Has id) (hx : Encloses s id x) :
    (scopesBelow s x).card < (scopesBelow s id).card := by
  have hsubset : scopesBelow s x ⊆ scopesBelow s id := by
    intro i hi
    obtain ⟨hlt, hbelow⟩ := mem_scopesBelow.1 hi
    exact mem_scopesBelow.2 ⟨hlt, .head hx hbelow⟩
  have hself : id.index ∈ scopesBelow s id := mem_scopesBelow.2 ⟨hid, .refl⟩
  have hnot : id.index ∉ scopesBelow s x := by
    intro hmem
    obtain ⟨-, hback⟩ := mem_scopesBelow.1 hmem
    have hcycle : Relation.TransGen (Encloses s) id id := .head' hx hback
    exact h.not_transGen _ (hcycle.lift (scopeNode s) fun _ _ => h.links_of_encloses)
  exact Finset.card_lt_card ((Finset.ssubset_iff_of_subset hsubset).2 ⟨_, hself, hnot⟩)

/-! ## Outlines -/

section

variable {id : ScopeId} {scope : Scope} {spell spell' : ScopeId → String → List Line}

theorem nameLines_congr (hs : s.scope? id = some scope)
    (hspell : ∀ x, Encloses s id x → spell x = spell' x) (depth : Nat) :
    nameLines s spell depth scope = nameLines s spell' depth scope := by
  have hitem : ∀ entry ∈ scope.names.entries,
      itemLines s spell depth entry.1 entry.2 = itemLines s spell' depth entry.1 entry.2 := by
    rintro ⟨name, item⟩ hmem
    have hlink : s.Links (.space id) item.node := .name rfl hs hmem
    cases item with
    | space x => exact congrFun (hspell x ⟨_, _, rfl, hlink, rfl⟩) name
    | type t =>
      cases t with
      | builtin _ => rfl
      | param _ => rfl
      | struct x => simp only [itemLines, hspell x ⟨_, _, rfl, hlink, rfl⟩]
  exact List.flatMap_congr hitem

theorem branchLines_congr {l : Layout} (hl : s.layout? id = some l)
    (hbranches : l.branches.entries = l.ownBranches)
    (hspell : ∀ x, Encloses s id x → spell x = spell' x) :
    branchLines spell l = branchLines spell' l := by
  refine List.flatMap_congr fun entry hmem => ?_
  cases entry with
  | field _ => rfl
  | constraint _ _ => rfl
  | branch path x =>
    have hentry : (path, x) ∈ l.branches.entries := by
      rw [hbranches]
      exact List.mem_filterMap.2 ⟨_, hmem, rfl⟩
    have hlink : s.Links (.type (.struct id)) (.type (.struct x)) := .member hl (.branch hentry)
    exact congrFun (hspell x ⟨_, _, rfl, hlink, rfl⟩) path.text

end

/-- As many levels as there are scopes below are enough for the lines of a scope. -/
theorem LinksSettled.scopeLines_eq (h : LinksSettled s d held)
    (hbranches : ∀ id l, s.layout? id = some l → l.branches.entries = l.ownBranches)
    {levels more : Nat} (hmore : levels ≤ more) (depth : Nat) {id : ScopeId}
    (hlevels : (scopesBelow s id).card ≤ levels) :
    scopeLines s levels depth id = scopeLines s more depth id := by
  induction levels generalizing more depth id with
  | zero =>
    have hnone : s.scope? id = none := by
      by_contra hsome
      obtain ⟨scope, hs⟩ := Option.ne_none_iff_exists'.1 hsome
      have hmem : id.index ∈ scopesBelow s id := mem_scopesBelow.2 ⟨has_of_scope? hs, .refl⟩
      rw [Finset.card_eq_zero.1 (Nat.le_zero.1 hlevels)] at hmem
      exact absurd hmem (Finset.notMem_empty _)
    funext name
    cases more with
    | zero => rfl
    | succ more => simp [scopeLines, hnone]
  | succ levels ih =>
    obtain ⟨more, rfl⟩ : ∃ k, more = k + 1 := ⟨more - 1, by omega⟩
    funext name
    cases hs : s.scope? id with
    | none => simp [scopeLines, hs]
    | some scope =>
      have hspell : ∀ x, Encloses s id x →
          scopeLines s levels (depth + 1) x = scopeLines s more (depth + 1) x := by
        intro x hx
        have hlt := h.card_scopesBelow_lt (has_of_scope? hs) hx
        exact ih (by omega) (depth + 1) (by omega)
      simp only [scopeLines, hs, nameLines_congr hs hspell]
      cases hl : scope.layout? with
      | none => rfl
      | some l =>
        have hlayout : s.layout? id = some l := Option.bind_eq_some_iff.2 ⟨scope, hs, hl⟩
        have hbranch := branchLines_congr hlayout (hbranches id l hlayout) hspell
        simp only [Option.map_some, Option.getD_some, hbranch]

/-- Compiled schemas have no recursive types: no chain of links leads from a node back to itself,
and the recursions of type names and outlines end without being cut off. -/
theorem ofSources_acyclic {options : Options} {sources : List (String × String)} {s : Schema}
    (h : ofSources options sources = .ok s) : s.Acyclic := by
  obtain ⟨-, -, hsettled⟩ := linksSettled_of_ok h
  obtain ⟨c, past, -, rfl, -, hhistory⟩ := history_of_ok h
  have hbranches : ∀ id l, c.schema.layout? id = some l → l.branches.entries = l.ownBranches := by
    intro id l hl
    obtain ⟨taken, hinherits⟩ := hhistory.inherits hl
    exact hinherits.replays.branches
  constructor
  case no_cycle => exact fun n path => hsettled.no_cycle
  case wellFounded =>
    exact Subrelation.wf (fun hchild => links_iff.2 hchild) hsettled.wellFounded
  case typeName_array =>
    intro id length elem ht
    rw [typeName, ht]
    simp only [if_pos (hsettled.rank_elem ht rfl)]
  case typeName_boolOptional =>
    intro id elem ht
    rw [typeName, ht]
    simp only [if_pos (hsettled.rank_elem ht rfl)]
  case scopeLines =>
    intro levels hlevels
    funext depth id
    exact (hsettled.scopeLines_eq hbranches hlevels depth (card_scopesBelow_le _ id)).symm

/-- A variant is spelled out below its struct, and refers to an older struct. -/
theorem ofSources_acyclic_arm : ∃ s,
    ofSources {} [("t", "type a; type s { variant v { x : array 3 a; }; };")] = .ok s ∧
      s.Acyclic := by
  obtain ⟨s, hs, -⟩ := exists_ok (show ((ofSources {}
    [("t", "type a; type s { variant v { x : array 3 a; }; };")]).toOption.any fun _ => true) =
      true by decide +kernel)
  exact ⟨s, hs, ofSources_acyclic hs⟩

end Compilation

end PacketSchema
