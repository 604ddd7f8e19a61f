import PacketSchema.Proofs.Schema.Ancestors
import PacketSchema.Schema.Outline

/-! Which scopes an outline spells out, and where. A scope is spelled out by the scopes that have it
under its own name or among their branches. So it is spelled out as often as these are, each time
with all that it holds. -/

namespace PacketSchema

namespace Outline

/-! ## Headers -/

/-- The scope that is spelled out from a line on. -/
def Line.scope? : Line → Option ScopeId
  | scope _ id _ _ => some id
  | field _ _ _ | constraint _ _ _ | typeAlias _ _ _ => none

def headers (ls : List Line) : List ScopeId := ls.filterMap Line.scope?

theorem headers_append (ls more : List Line) : headers (ls ++ more) = headers ls ++ headers more :=
  List.filterMap_append

theorem headers_flatMap {α : Type} (f : α → List Line) (as : List α) :
    headers (as.flatMap f) = as.flatMap fun a => headers (f a) := by
  induction as with
  | nil => rfl
  | cons a as ih => rw [List.flatMap_cons, List.flatMap_cons, headers_append, ih]

theorem headers_layoutLines (s : Schema) (depth : Nat) (l : Layout) :
    headers (layoutLines s depth l) = [] := by
  simp [headers, layoutLines, List.filterMap_append, List.filterMap_map, Function.comp_def,
    Line.scope?]

/-- The scope that is spelled out for a bound name, if there is one. -/
def itemSpells (s : Schema) (name : String) : Item → List ScopeId
  | .space id => [id]
  | .type (.struct id) =>
    match s.scope? id with
    | none => []
    | some scope => if scope.name = some name ∧ scope.kind.path? = none then [id] else []
  | .type _ => []

def branchSpells (l : Layout) : List ScopeId :=
  l.order.flatMap fun
    | .branch _ id => [id]
    | .field _ | .constraint _ _ => []

/-- The scopes that are spelled out directly below a scope. -/
def scopeSpells (s : Schema) (scope : Scope) : List ScopeId :=
  (scope.names.entries.flatMap fun (name, item) => itemSpells s name item) ++
    (scope.layout?.map branchSpells).getD []

theorem mem_itemSpells {s : Schema} {name : String} {item : Item} {x : ScopeId} :
    x ∈ itemSpells s name item ↔ item = .space x ∨ item = .type (.struct x) ∧
      ∃ scope, s.scope? x = some scope ∧ scope.name = some name ∧ scope.kind.path? = none := by
  unfold itemSpells
  cases item with
  | space id => simp [eq_comm]
  | type t =>
    cases t with
    | builtin _ => simp
    | param _ => simp
    | struct id =>
      cases hs : s.scope? id with
      | none =>
        simp only [hs, List.not_mem_nil, reduceCtorEq, false_or, false_iff, not_and]
        rintro ⟨⟩ ⟨scope, hscope, -⟩
        rw [hs] at hscope
        cases hscope
      | some scope =>
        constructor
        · intro hx
          by_cases h : scope.name = some name ∧ scope.kind.path? = none
          · obtain rfl : x = id := by simpa [hs, h] using hx
            exact .inr ⟨rfl, scope, hs, h⟩
          · simp [hs, h] at hx
        · rintro (heq | ⟨heq, found, hfound, h⟩)
          · cases heq
          · cases heq
            rw [hs] at hfound
            cases hfound
            simp [hs, h]

theorem mem_scopeSpells {s : Schema} {scope : Scope} {x : ScopeId} :
    x ∈ scopeSpells s scope ↔
      (∃ entry ∈ scope.names.entries, x ∈ itemSpells s entry.1 entry.2) ∨
        ∃ l, scope.layout? = some l ∧ x ∈ branchSpells l := by
  unfold scopeSpells
  rw [List.mem_append, List.mem_flatMap]
  cases scope.layout? <;> simp

theorem itemSpells_nodup (s : Schema) (name : String) (item : Item) :
    (itemSpells s name item).Nodup := by
  unfold itemSpells
  split
  · exact List.nodup_singleton _
  · split
    · exact List.nodup_nil
    · split
      · exact List.nodup_singleton _
      · exact List.nodup_nil
  · exact List.nodup_nil

end Outline

namespace Schema

open Outline

def spells (s : Schema) (id : ScopeId) : List ScopeId :=
  ((s.scope? id).map (scopeSpells s)).getD []

/-- A scope and all that is spelled out below it, down to a number of levels. -/
def spelled (s : Schema) : Nat → ScopeId → List ScopeId
  | 0, _ => []
  | levels + 1, id =>
    match s.scope? id with
    | none => []
    | some scope => id :: (scopeSpells s scope).flatMap (s.spelled levels)

/-- The scopes whose names are listed in the outline, each as often as they are. -/
def visited (s : Schema) : List ScopeId := root :: headers s.outline

variable (s : Schema)

theorem spells_eq {id : ScopeId} {scope : Scope} (hs : s.scope? id = some scope) :
    s.spells id = scopeSpells s scope := by
  unfold spells
  rw [hs]
  rfl

theorem mem_spells_iff {id x : ScopeId} :
    x ∈ s.spells id ↔ ∃ scope, s.scope? id = some scope ∧ x ∈ scopeSpells s scope := by
  unfold spells
  cases s.scope? id <;> simp

theorem headers_itemLines {spell : ScopeId → String → List Line} {below : ScopeId → List ScopeId}
    (h : ∀ id name, headers (spell id name) = below id) (depth : Nat) (name : String)
    (item : Item) :
    headers (itemLines s spell depth name item) = (itemSpells s name item).flatMap below := by
  unfold itemLines itemSpells
  cases item with
  | space id => simp [h]
  | type t =>
    cases t with
    | builtin _ => rfl
    | param _ => rfl
    | struct id =>
      cases hs : s.scope? id with
      | none => simp [hs, headers]
      | some scope =>
        by_cases hname : scope.name = some name
        · by_cases hpath : scope.kind.path? = none
          · simp [hs, hname, hpath, h]
          · simp [hs, hname, hpath, headers]
        · simp [hs, hname, headers, Line.scope?]

theorem headers_nameLines {spell : ScopeId → String → List Line} {below : ScopeId → List ScopeId}
    (h : ∀ id name, headers (spell id name) = below id) (depth : Nat) (scope : Scope) :
    headers (nameLines s spell depth scope) =
      (scope.names.entries.flatMap fun (name, item) => itemSpells s name item).flatMap below := by
  unfold nameLines
  rw [headers_flatMap, List.flatMap_assoc]
  exact List.flatMap_congr fun entry _ => s.headers_itemLines h depth entry.1 entry.2

theorem headers_branchLines {spell : ScopeId → String → List Line} {below : ScopeId → List ScopeId}
    (h : ∀ id name, headers (spell id name) = below id) (l : Layout) :
    headers (branchLines spell l) = (branchSpells l).flatMap below := by
  unfold branchLines branchSpells
  rw [headers_flatMap, List.flatMap_assoc]
  refine List.flatMap_congr fun entry _ => ?_
  cases entry with
  | branch path id => simp [h]
  | field _ => rfl
  | constraint _ _ => rfl

/-- What is spelled out does not depend on depth and name. -/
theorem headers_scopeLines (levels depth : Nat) (id : ScopeId) (name : String) :
    headers (scopeLines s levels depth id name) = s.spelled levels id := by
  induction levels generalizing depth id name with
  | zero => rfl
  | succ levels ih =>
    unfold scopeLines spelled
    cases s.scope? id with
    | none => rfl
    | some scope =>
      have hnames := s.headers_nameLines (ih (depth + 1)) (depth + 1) scope
      show id :: headers _ = id :: (scopeSpells s scope).flatMap (s.spelled levels)
      unfold scopeSpells
      rw [headers_append, headers_append, hnames, List.flatMap_append]
      cases scope.layout? with
      | none => rfl
      | some l =>
        have hbranches := headers_branchLines (ih (depth + 1)) l
        simp only [Option.map_some, Option.getD_some, headers_layoutLines, hbranches,
          List.nil_append]

theorem visited_eq {scope : Scope} (hs : s.scope? root = some scope)
    (hlayout : scope.layout? = none) : s.visited = s.spelled (s.scopes.length + 1) root := by
  have hnames := s.headers_nameLines (s.headers_scopeLines s.scopes.length 0) 0 scope
  unfold visited outline spelled
  rw [hs]
  dsimp only [Option.map_some, Option.getD_some]
  rw [hnames]
  unfold scopeSpells
  rw [hlayout, Option.map_none, Option.getD_none, List.append_nil]

/-- All that is spelled out, apart from where it starts, is spelled out by what is. -/
theorem spelled_perm {rank : ScopeId → Nat}
    (hrank : ∀ id x, x ∈ s.spells id → s.Has x ∧ rank x < rank id) {levels : Nat} {id : ScopeId}
    (hid : s.Has id) (hlevels : rank id < levels) :
    (s.spelled levels id).Perm (id :: (s.spelled levels id).flatMap s.spells) := by
  induction levels generalizing id with
  | zero => exact absurd hlevels (Nat.not_lt_zero _)
  | succ levels ih =>
    obtain ⟨scope, hs⟩ := hid.scope?
    have hspelled : s.spelled (levels + 1) id =
        id :: (s.spells id).flatMap (s.spelled levels) := by
      rw [s.spells_eq hs, spelled, hs]
    have hbelow : ∀ x ∈ s.spells id,
        (s.spelled levels x).Perm (x :: (s.spelled levels x).flatMap s.spells) := by
      intro x hx
      obtain ⟨hhas, hlt⟩ := hrank id x hx
      exact ih hhas (by omega)
    have hsplit : ((s.spells id).flatMap (s.spelled levels)).Perm
        (s.spells id ++ ((s.spells id).flatMap (s.spelled levels)).flatMap s.spells) := by
      rw [List.flatMap_assoc]
      refine (List.Perm.flatMap_left _ hbelow).trans ?_
      have hcons := List.flatMap_append_perm (s.spells id) (fun x => [x])
        fun x => (s.spelled levels x).flatMap s.spells
      rw [List.flatMap_singleton'] at hcons
      exact hcons.symm
    rw [hspelled, List.flatMap_cons]
    exact hsplit.cons id

end Schema

/-! ## Places -/

namespace Outline

/-- The lines for the fields and the constraints of a scope. -/
def memberLines (s : Schema) (depth : Nat) (scope : Scope) : List Line :=
  (scope.layout?.map (layoutLines s depth)).getD []

/-- The lines for a name that a scope binds. -/
def entryLines (s : Schema) (depth : Nat) (entry : String × Item) : List Line :=
  itemLines s (scopeLines s s.scopes.length depth) depth entry.1 entry.2

/-- Behind each header all that the scope holds is listed, and then its names. -/
def Unfolds (s : Schema) (ls : List Line) : Prop :=
  ∀ before depth id word name after, ls = before ++ .scope depth id word name :: after →
    ∃ scope rest, s.scope? id = some scope ∧ after = memberLines s (depth + 1) scope ++
      scope.names.entries.flatMap (entryLines s (depth + 1)) ++ rest

namespace Unfolds

variable {s : Schema} {ls more : List Line}

theorem of_headers (h : headers ls = []) : Unfolds s ls := by
  rintro before depth id word name after rfl
  rw [headers_append] at h
  cases (List.append_eq_nil_iff.1 h).2

theorem append (h : Unfolds s ls) (hmore : Unfolds s more) : Unfolds s (ls ++ more) := by
  intro before depth id word name after heq
  obtain ⟨as, rfl, hright⟩ | ⟨bs, rfl, hright⟩ := List.append_eq_append_iff.1 heq
  · exact hmore as depth id word name after hright
  · cases bs with
    | nil => exact hmore [] depth id word name after hright.symm
    | cons b bs =>
      obtain ⟨rfl, rfl⟩ := List.cons.inj hright
      obtain ⟨scope, rest, hs, rfl⟩ := h before depth id word name bs rfl
      exact ⟨scope, rest ++ more, hs, List.append_assoc _ _ _⟩

theorem flatMap {α : Type} {f : α → List Line} {as : List α} (h : ∀ a ∈ as, Unfolds s (f a)) :
    Unfolds s (as.flatMap f) := by
  induction as with
  | nil => exact .of_headers rfl
  | cons a as ih => exact (h a (.head _)).append (ih fun b hb => h b (.tail _ hb))

theorem cons {depth : Nat} {id : ScopeId} {word name : String} {scope : Scope}
    (hs : s.scope? id = some scope)
    (h : Unfolds s (memberLines s (depth + 1) scope ++
      scope.names.entries.flatMap (entryLines s (depth + 1)) ++ more)) :
    Unfolds s (.scope depth id word name :: (memberLines s (depth + 1) scope ++
      scope.names.entries.flatMap (entryLines s (depth + 1)) ++ more)) := by
  intro before depth' id' word' name' after heq
  cases before with
  | nil =>
    cases heq
    exact ⟨scope, more, hs, rfl⟩
  | cons line before =>
    obtain ⟨-, htail⟩ := List.cons.inj heq
    exact h before depth' id' word' name' after htail

theorem itemLines {spell : ScopeId → String → List Line} {depth : Nat} {name : String}
    {item : Item} (h : ∀ id ∈ itemSpells s name item, Unfolds s (spell id name)) :
    Unfolds s (itemLines s spell depth name item) := by
  unfold Outline.itemLines
  unfold itemSpells at h
  cases item with
  | space id => exact h id (.head _)
  | type t =>
    cases t with
    | builtin _ => exact .of_headers rfl
    | param _ => exact .of_headers rfl
    | struct id =>
      cases hs : s.scope? id with
      | none =>
        simp only [hs]
        exact .of_headers rfl
      | some scope =>
        by_cases hname : scope.name = some name
        · by_cases hpath : scope.kind.path? = none
          · simp only [hs, hname, hpath, Option.isNone_none, if_true]
            exact h id (by simp [hs, hname, hpath])
          · simp only [hs, hname, hpath, Option.isNone_iff_eq_none, if_true, if_false]
            exact .of_headers rfl
        · simp only [hs, hname, if_false]
          exact .of_headers rfl

theorem branchLines {spell : ScopeId → String → List Line} {l : Layout}
    (h : ∀ id ∈ branchSpells l, ∀ name, Unfolds s (spell id name)) :
    Unfolds s (branchLines spell l) := by
  refine flatMap fun entry hentry => ?_
  cases entry with
  | field _ => exact .of_headers rfl
  | constraint _ _ => exact .of_headers rfl
  | branch path id =>
    exact h id (List.mem_flatMap.2 ⟨_, hentry, List.mem_singleton_self _⟩) path.text

/-- Where what is spelled out below a scope unfolds, so does the scope itself. -/
theorem scopeLines {depth : Nat} {id : ScopeId} {scope : Scope} (hs : s.scope? id = some scope)
    (hfull : ∀ name, scopeLines s s.scopes.length depth id name =
      scopeLines s (s.scopes.length + 1) depth id name)
    (h : ∀ x ∈ scopeSpells s scope, ∀ name,
      Unfolds s (scopeLines s s.scopes.length (depth + 1) x name)) (name : String) :
    Unfolds s (scopeLines s s.scopes.length depth id name) := by
  have hlines : Outline.scopeLines s s.scopes.length depth id name =
      .scope depth id scope.kind.word name :: (memberLines s (depth + 1) scope ++
        scope.names.entries.flatMap (entryLines s (depth + 1)) ++
        (scope.layout?.map
          (Outline.branchLines (Outline.scopeLines s s.scopes.length (depth + 1)))).getD []) := by
    rw [hfull, Outline.scopeLines, hs]
    rfl
  have hmembers : Unfolds s (memberLines s (depth + 1) scope) := by
    unfold memberLines
    cases scope.layout? with
    | none => exact .of_headers rfl
    | some l => exact .of_headers (headers_layoutLines s _ l)
  have hnames : Unfolds s (scope.names.entries.flatMap (entryLines s (depth + 1))) := by
    refine flatMap fun entry hentry => itemLines fun x hx => h x ?_ entry.1
    exact List.mem_append_left _ (List.mem_flatMap.2 ⟨entry, hentry, hx⟩)
  rw [hlines]
  refine cons hs ((hmembers.append hnames).append ?_)
  cases hl : scope.layout? with
  | none => exact .of_headers rfl
  | some l =>
    refine branchLines fun x hx name => h x (List.mem_append_right _ ?_) name
    rw [hl]
    exact hx

end Unfolds

end Outline

/-! ## Trees -/

section

variable {α : Type} [DecidableEq α] {l : List α} {f : α → List α} {root : α}

theorem count_flatMap_le {x p : α} (hp : ∀ a ∈ l, x ∈ f a → a = p)
    (hcount : (f p).count x ≤ 1) : (l.flatMap f).count x ≤ l.count p := by
  induction l with
  | nil => exact Nat.le_refl _
  | cons a l ih =>
    have hrest := ih fun b hb => hp b (.tail _ hb)
    rw [List.flatMap_cons, List.count_append, List.count_cons]
    by_cases hx : x ∈ f a
    · have heq := hp a (.head _) hx
      subst heq
      simp only [beq_self_eq_true, if_true]
      omega
    · rw [List.count_eq_zero_of_not_mem hx]
      omega

/-- What comes from a root, each from one at most that ranks above it, comes once. -/
theorem nodup_of_perm_flatMap {rank : α → Nat} {most : Nat} (h : l.Perm (root :: l.flatMap f))
    (hroot : ∀ a ∈ l, root ∉ f a)
    (hunique : ∀ a ∈ l, ∀ b ∈ l, ∀ x, x ∈ f a → x ∈ f b → a = b)
    (hnodup : ∀ a ∈ l, (f a).Nodup) (hrank : ∀ a x, x ∈ f a → rank x < rank a)
    (hmost : ∀ a, rank a ≤ most) : l.Nodup := by
  -- The induction goes from a node to where it comes from, so from the greatest rank downwards.
  have hcount : ∀ k x, most ≤ rank x + k → l.count x ≤ 1 := by
    intro k
    induction k with
    | zero =>
      intro x hx
      have hnone : x ∉ l.flatMap f := by
        intro hmem
        obtain ⟨a, -, ha⟩ := List.mem_flatMap.1 hmem
        have hlt := hrank a x ha
        have hle := hmost a
        omega
      rw [h.count_eq, List.count_cons, List.count_eq_zero_of_not_mem hnone]
      split <;> omega
    | succ k ih =>
      intro x hx
      rw [h.count_eq, List.count_cons]
      by_cases hmem : x ∈ l.flatMap f
      · obtain ⟨p, hp, hxp⟩ := List.mem_flatMap.1 hmem
        have hne : root ≠ x := fun heq => hroot p hp (heq ▸ hxp)
        have hlt := hrank p x hxp
        have hle := count_flatMap_le (fun a ha hxa => hunique a ha p hp x hxa hxp)
          (List.nodup_iff_count_le_one.1 (hnodup p hp) x)
        have hparent := ih p (by omega)
        simp only [beq_iff_eq, if_neg hne]
        omega
      · rw [List.count_eq_zero_of_not_mem hmem]
        split <;> omega
  exact List.nodup_iff_count_le_one.2 fun x => hcount most x (Nat.le_add_left _ _)

theorem unique_of_nodup_flatMap (h : l.Perm (root :: l.flatMap f)) (hl : l.Nodup) {a b x : α}
    (ha : a ∈ l) (hb : b ∈ l) (hxa : x ∈ f a) (hxb : x ∈ f b) : a = b := by
  have hflat : (l.flatMap f).Nodup := (List.nodup_cons.1 (h.nodup_iff.1 hl)).2
  obtain ⟨-, hdisjoint⟩ := List.nodup_flatMap.1 hflat
  by_contra hne
  have hsymm : Std.Symm (Function.onFun List.Disjoint f) := ⟨fun _ _ h => h.symm⟩
  exact hdisjoint.forall ha hb hne hxa hxb

end

end PacketSchema
