import PacketSchema.Proofs.Compilation.Acyclicity
import PacketSchema.Proofs.Compilation.Securing
import PacketSchema.Proofs.Schema.Unguarded

/-! Reading a well-formed schema needs no guards: no number is out of range, and what recurses along
parents, elements and links comes to an end by itself. -/

namespace PacketSchema.Compilation

open Schema Outline

/-- A node whose number is that of a scope or an applied type. -/
def InRange (s : Schema) : Node → Prop
  | .space id | .type (.struct id) => s.Has id
  | .type (.param id) => ∃ t, s.param? id = some t
  | .type (.builtin _) => True

variable {s : Schema}

theorem Refers.inRange {m : Node} (h : Refers s m) : InRange s m := by
  cases m with
  | space id => exact h.isNode.has rfl
  | type t =>
    cases t with
    | builtin _ => exact trivial
    | struct id => exact h.isNode.has rfl
    | param id => exact h.isNode

/-- A chain of elements with a chain of parents at its end is not longer. -/
def longest (s : Schema) : Nat := s.types.size + s.scopes.length

/-! ## Scopes -/

section

variable (hr : s.Rooted) {rounds : Nat} {id : ScopeId} (hid : s.Has id)

include hr hid

theorem unguarded_namesOwner (hrounds : id.index < rounds) :
    Unguarded.namesOwner s rounds id = some (s.namesOwner id) := by
  induction rounds generalizing id with
  | zero => exact absurd hrounds (Nat.not_lt_zero _)
  | succ rounds ih =>
    obtain ⟨scope, hs⟩ := hid.scope?
    unfold Unguarded.namesOwner
    cases hproxy : scope.isProxy with
    | false => simp [hs, hproxy, hr.namesOwner_of_not_proxy hs hproxy]
    | true =>
      cases hp : scope.parent with
      | none =>
        rw [hr.isProxy_root hs hp] at hproxy
        cases hproxy
      | some parent =>
        have hlt := hr.parent_lt hs hp
        have howner := ih (hr.has_parent hs hp) (by omega)
        simp [hs, hproxy, hp, howner, hr.namesOwner_of_proxy hs hproxy hp]

theorem unguarded_getLocal? (hrounds : id.index < rounds) (name : String) :
    Unguarded.getLocal? s rounds id name = some (s.getLocal? id name) := by
  obtain ⟨owner, ho, -, -⟩ := hr.namesOwner_spec hid
  unfold Unguarded.getLocal? Schema.getLocal? names
  simp [unguarded_namesOwner hr hid hrounds, ho]

theorem unguarded_namesAround (hrounds : id.index < rounds) (inner : Path) :
    Unguarded.namesAround s rounds id inner = some (s.qualifiedName id ++ inner) := by
  induction rounds generalizing id inner with
  | zero => exact absurd hrounds (Nat.not_lt_zero _)
  | succ rounds ih =>
    obtain ⟨scope, hs⟩ := hid.scope?
    unfold Unguarded.namesAround
    cases hp : scope.parent with
    | none =>
      rw [qualifiedName, chain_root hs hp]
      cases hname : scope.name <;> simp [hs, hp, hname]
    | some parent =>
      have hlt := hr.parent_lt hs hp
      have houter := ih (hr.has_parent hs hp) (by omega)
      rw [qualifiedName, hr.chain_child hs hp]
      unfold qualifiedName at houter
      cases hname : scope.name <;> simp [hs, hp, hname, houter]

theorem unguarded_qualifiedName (hrounds : id.index < rounds) :
    Unguarded.qualifiedName s rounds id = some (s.qualifiedName id) := by
  unfold Unguarded.qualifiedName
  rw [unguarded_namesAround hr hid hrounds, List.append_nil]

theorem unguarded_structName (hrounds : id.index < rounds) :
    Unguarded.structName s rounds id = some (s.structName id) := by
  unfold Unguarded.structName Schema.structName
  rw [unguarded_qualifiedName hr hid hrounds]
  cases s.qualifiedName id <;> rfl

end

namespace WellFormed

variable (h : WellFormed s)

include h

/-- A path goes on in a scope that is there. -/
theorem has_of_getLocal? {id inner : ScopeId} {name : String} {item : Item}
    (hitem : s.getLocal? id name = some item) (hinner : item.scope? = some inner) :
    s.Has inner := by
  have hfound : s.lookupLocal? id [name] = some item := hitem
  obtain ⟨x, scope, bound, hs, hmem⟩ := mem_names_of_lookupLocal? hfound
  refine ((h.scope hs).names hmem).isNode.has ?_
  cases item with
  | space _ => exact hinner
  | type t => cases t <;> exact hinner

theorem unguarded_lookupLocal? (path : Path) {rounds : Nat} (hrounds : s.scopes.length ≤ rounds)
    {id : ScopeId} (hid : s.Has id) :
    Unguarded.lookupLocal? s rounds id path = some (s.lookupLocal? id path) := by
  induction path generalizing id with
  | nil => rfl
  | cons name rest ih =>
    have hlocal := unguarded_getLocal? h.rooted hid (Nat.lt_of_lt_of_le hid hrounds) name
    cases rest with
    | nil => exact hlocal
    | cons next rest =>
      unfold Unguarded.lookupLocal? Schema.lookupLocal?
      rw [hlocal]
      cases hitem : s.getLocal? id name with
      | none => rfl
      | some item =>
        cases hinner : item.scope? with
        | none => simp [hinner]
        | some inner => simp [hinner, ih (h.has_of_getLocal? hitem hinner)]

theorem unguarded_lookup? (path : Path) {rounds : Nat} {id : ScopeId} (hid : s.Has id)
    (hrounds : id.index + s.scopes.length < rounds) :
    Unguarded.lookup? s rounds id path = some (s.lookup? id path) := by
  induction rounds generalizing id with
  | zero => exact absurd hrounds (Nat.not_lt_zero _)
  | succ rounds ih =>
    obtain ⟨scope, hs⟩ := hid.scope?
    have henough : s.scopes.length ≤ rounds := by omega
    have hlocal := h.unguarded_lookupLocal? path henough hid
    unfold Unguarded.lookup? lookup?
    rw [hlocal]
    cases hp : scope.parent with
    | none =>
      rw [chain_root hs hp]
      cases hitem : s.lookupLocal? id path <;> simp [hs, hp, hitem]
    | some parent =>
      have hlt := h.rooted.parent_lt hs hp
      have houter := ih (h.rooted.has_parent hs hp) (by omega)
      rw [h.rooted.chain_child hs hp]
      unfold lookup? at houter
      cases hitem : s.lookupLocal? id path <;> simp [hs, hp, hitem, houter]

/-! ## Types -/

theorem rank_elem {id : ParamId} {t : ParamType} {elem : TypeRef} (ht : s.param? id = some t)
    (he : t.elem? = some elem) : rank elem < rank (.param id) :=
  rank_lt_of_older fun _ hparam => h.older ht (hparam ▸ he)

theorem unguarded_typeName_of_rank {rounds : Nat} {t : TypeRef} (ht : InRange s (.type t))
    (hrounds : rank t + s.scopes.length < rounds) :
    Unguarded.typeName s rounds t = some (s.typeName t) := by
  induction rounds generalizing t with
  | zero => exact absurd hrounds (Nat.not_lt_zero _)
  | succ rounds ih =>
    cases t with
    | builtin b =>
      rw [Unguarded.typeName, typeName]
      rfl
    | struct id =>
      rw [Unguarded.typeName, typeName]
      have hlt : id.index < s.scopes.length := ht
      exact unguarded_structName h.rooted ht (by omega)
    | param id =>
      obtain ⟨p, hp⟩ := ht
      have helem : ∀ {u}, p.elem? = some u →
          rank u < rank (.param id) ∧ Unguarded.typeName s rounds u = some (s.typeName u) := by
        intro u hu
        have hlt := h.rank_elem hp hu
        exact ⟨hlt, ih ((h.param hp).elem hu).inRange (by omega)⟩
      rw [Unguarded.typeName, typeName, hp]
      cases p with
      | string _ _ => rfl
      | bytes _ => rfl
      | uuid _ => rfl
      | array _ u => simp [(helem (u := u) rfl).1, (helem (u := u) rfl).2]
      | boolOptional u => simp [(helem (u := u) rfl).1, (helem (u := u) rfl).2]

omit h in
theorem rank_le {t : TypeRef} (ht : InRange s (.type t)) : rank t ≤ s.types.size := by
  cases t with
  | builtin _ => exact Nat.zero_le _
  | struct _ => exact Nat.zero_le _
  | param id =>
    obtain ⟨p, hp⟩ := ht
    exact (List.getElem?_eq_some_iff.1 hp).1

theorem unguarded_typeName {rounds : Nat} {t : TypeRef} (ht : InRange s (.type t))
    (hrounds : longest s < rounds) : Unguarded.typeName s rounds t = some (s.typeName t) := by
  have hrank := rank_le ht
  unfold longest at hrounds
  exact h.unguarded_typeName_of_rank ht (by omega)

/-! ## Walks -/

theorem inRange_child {n m : Node} {name : String} (hm : (name, m) ∈ s.children n) :
    InRange s m := by
  have hlink : s.Links n m := links_iff.2 ⟨name, hm⟩
  cases hlink with
  | name hn hs hmem => exact ((h.scope hs).names hmem).inRange
  | member hl hholds =>
    cases hholds with
    | field hmem => exact ((h.layout hl).fields hmem).inRange
    | branch hmem => exact ((h.layout hl).branches hmem).inRange
  | part ht htakes =>
    cases htakes with
    | length _ => exact trivial
    | elem hu => exact ((h.param ht).elem hu).inRange

omit h in
theorem unguarded_children {n : Node} (hn : InRange s n) :
    Unguarded.children s n = some (s.children n) := by
  unfold Unguarded.children Schema.children
  cases n with
  | space id =>
    obtain ⟨scope, hs⟩ := Has.scope? hn
    simp [Unguarded.links, Unguarded.follow, links, follow, hs]
  | type t =>
    cases t with
    | builtin _ => rfl
    | struct id =>
      obtain ⟨scope, hs⟩ := Has.scope? hn
      cases hl : scope.layout? <;>
        simp [Unguarded.links, Unguarded.follow, links, follow, layout?, hs, hl]
    | param id =>
      obtain ⟨t, ht⟩ := hn
      simp [Unguarded.links, Unguarded.follow, links, follow, ht]

/-- The nodes that wait on the stack are always in range. -/
theorem unguarded_run {rounds : Nat} {w : Walker} (hw : ∀ entry ∈ w.stack, InRange s entry.2)
    (hrounds : w.work s < rounds) : Unguarded.run s rounds w = some (w.run s) := by
  induction rounds generalizing w with
  | zero => exact absurd hrounds (Nat.not_lt_zero _)
  | succ rounds ih =>
    obtain ⟨stack, visited⟩ := w
    rw [Unguarded.run, Walker.run]
    cases stack with
    | nil => rfl
    | cons top rest =>
      obtain ⟨path, m⟩ := top
      have hm : InRange s m := hw (path, m) List.mem_cons_self
      have hrest : ∀ entry ∈ rest, InRange s entry.2 := fun entry hmem => hw entry (.tail _ hmem)
      by_cases hnew : Walker.isNew visited m
      · have hexpand : ∀ entry ∈ (Walker.expand s ⟨(path, m) :: rest, visited⟩ path m rest).stack,
            InRange s entry.2 := by
          intro entry hmem
          obtain hmem | hmem := List.mem_append.1 hmem
          · obtain ⟨child, hchild, rfl⟩ := List.mem_map.1 hmem
            exact h.inRange_child (List.mem_filter.1 hchild).1
          · exact hrest entry hmem
        have hless := Walker.work_expand s ⟨(path, m) :: rest, visited⟩ rfl hnew
        have hlater := ih hexpand (by omega)
        unfold Walker.expand at hlater
        simp [hnew, unguarded_children hm, hlater, Walker.expand]
      · have hless := Walker.work_pop s ⟨(path, m) :: rest, visited⟩ rfl
        dsimp only at hless
        have hlater := ih (w := ⟨rest, visited⟩) hrest (by omega)
        simp [hnew, hlater]

theorem unguarded_walkFrom {n : Node} (hn : InRange s n) :
    Unguarded.Ends (Unguarded.walkFrom s · n) (s.walkFrom n) := by
  refine ⟨(Walker.start n).work s + 1, fun rounds hrounds => h.unguarded_run ?_ hrounds⟩
  intro entry hmem
  rwa [List.mem_singleton.1 hmem]

end WellFormed

/-! ## Outlines -/

/-- Lines that are put together from parts are there when all parts are. -/
theorem mapM_eq_some {α β : Type} {f : α → Option β} {g : α → β} {as : List α}
    (h : ∀ a ∈ as, f a = some (g a)) : as.mapM f = some (as.map g) := by
  induction as with
  | nil => rfl
  | cons a as ih =>
    obtain ⟨ha, has⟩ := List.forall_mem_cons.1 h
    simp [List.mapM_cons, ha, ih has]

section

variable {id : ScopeId} {scope : Scope} {rounds : Nat}

theorem WellFormed.unguarded_memberLines (h : WellFormed s) {l : Layout}
    (hl : LayoutWellFormed s l) (hrounds : longest s < rounds) (depth : Nat) :
    Unguarded.memberLines s rounds depth l = some (layoutLines s depth l) := by
  have hfields : (l.fields.entries.mapM fun entry => (do
      return Line.field depth entry.1 (← Unguarded.typeName s rounds entry.2.type) :
        Option Line)) =
      some (l.fields.entries.map fun entry =>
        .field depth entry.1 (s.typeName entry.2.type)) := by
    refine mapM_eq_some fun entry hmem => ?_
    rw [h.unguarded_typeName (hl.fields hmem).inRange hrounds]
    rfl
  unfold Unguarded.memberLines layoutLines
  rw [hfields]
  rfl

/-- The lines for names are there when those of what is spelled out are. -/
theorem WellFormed.unguarded_nameLines (h : WellFormed s) (hs : s.scope? id = some scope)
    (hrounds : longest s < rounds) {depth : Nat} {spell : ScopeId → String → List Line}
    (hspell : ∀ x, Encloses s id x → ∀ name,
      Unguarded.scopeLines s rounds depth x name = some (spell x name)) :
    Unguarded.nameLines s (rounds + 1) depth id = some (nameLines s spell depth scope) := by
  rw [Unguarded.nameLines, hs]
  dsimp only [Option.bind_eq_bind, Option.bind_some]
  rw [mapM_eq_some (g := fun entry => itemLines s spell depth entry.1 entry.2)]
  · rw [nameLines, List.flatMap_def]
    rfl
  · rintro ⟨name, item⟩ hmem
    have hlink : s.Links (.space id) item.node := .name rfl hs hmem
    have hrefers := (h.scope hs).names hmem
    cases item with
    | space child => exact hspell child ⟨_, _, rfl, hlink, rfl⟩ name
    | type t =>
      have htype := h.unguarded_typeName hrefers.inRange hrounds
      cases t with
      | builtin b => simp [itemLines, htype]
      | param p => simp [itemLines, htype]
      | struct child =>
        obtain ⟨found, hfound⟩ := (hrefers.isNode.has rfl).scope?
        have hchild := hspell child ⟨_, _, rfl, hlink, rfl⟩ name
        by_cases hname : found.name = some name
        · cases hpath : found.kind.path? <;> simp [itemLines, hfound, hname, hpath, hchild]
        · simp [itemLines, hfound, hname, htype]

/-- What a scope has declared as a branch it encloses. -/
theorem encloses_of_branch {l : Layout} (hl : s.layout? id = some l)
    (hbranches : l.branches.entries = l.ownBranches) {path : Path} {child : ScopeId}
    (hmem : .branch path child ∈ l.order) : Encloses s id child := by
  have hentry : (path, child) ∈ l.branches.entries := by
    rw [hbranches]
    exact List.mem_filterMap.2 ⟨_, hmem, rfl⟩
  exact ⟨.type (.struct id), .type (.struct child), rfl, .member hl (.branch hentry), rfl⟩

/-- The lines of a scope are there when those of what it encloses are. -/
theorem WellFormed.unguarded_scopeLines (h : WellFormed s) (hs : s.scope? id = some scope)
    (hbranches : ∀ l, s.layout? id = some l → l.branches.entries = l.ownBranches)
    (hrounds : longest s < rounds) {depth levels : Nat}
    (hspell : ∀ x, Encloses s id x → ∀ name, ∀ more, rounds ≤ more →
      Unguarded.scopeLines s more (depth + 1) x name =
        some (scopeLines s levels (depth + 1) x name))
    (name : String) :
    Unguarded.scopeLines s (rounds + 2) depth id name =
      some (scopeLines s (levels + 1) depth id name) := by
  have hnames := h.unguarded_nameLines hs hrounds fun x hx name => hspell x hx name _ le_rfl
  have hmembers : ∀ {l}, LayoutWellFormed s l →
      Unguarded.memberLines s (rounds + 1) (depth + 1) l = some (layoutLines s (depth + 1) l) :=
    fun hl => h.unguarded_memberLines hl (by omega) (depth + 1)
  rw [Unguarded.scopeLines, scopeLines, hs]
  cases hl : scope.layout? with
  | none =>
    have hempty := hmembers (layoutWellFormed_empty s)
    simp [hl, hnames, hempty, layoutLines]
  | some l =>
    have hlayout : s.layout? id = some l := Option.bind_eq_some_iff.2 ⟨scope, hs, hl⟩
    simp only [Option.bind_eq_bind, Option.bind_some, hl, Option.getD_some, hnames,
      hmembers (h.layout hlayout), Option.map_some, branchLines, List.flatMap_def]
    rw [mapM_eq_some]
    · rfl
    · intro entry hmem
      cases entry with
      | field _ => rfl
      | constraint _ _ => rfl
      | branch path child =>
        have hchild := encloses_of_branch hlayout (hbranches l hlayout) hmem
        exact hspell child hchild path.text _ (Nat.le_succ _)

end

section

variable {d : ScopeId} {held : Option Node} (h : LinksSettled s d held) (hwell : WellFormed s)
  (hbranches : ∀ id l, s.layout? id = some l → l.branches.entries = l.ownBranches)

include h hwell hbranches

/-- As many levels as there are scopes below are enough for the lines of a scope, with two rounds
for each level. -/
theorem LinksSettled.unguarded_scopeLines {levels rounds : Nat} (depth : Nat) {id : ScopeId}
    (hid : s.Has id) (hlevels : (scopesBelow s id).card ≤ levels)
    (hrounds : 2 * levels + longest s < rounds) (name : String) :
    Unguarded.scopeLines s rounds depth id name = some (scopeLines s levels depth id name) := by
  induction levels generalizing rounds depth id name with
  | zero =>
    have hmem : id.index ∈ scopesBelow s id := mem_scopesBelow.2 ⟨hid, .refl⟩
    rw [Finset.card_eq_zero.1 (Nat.le_zero.1 hlevels)] at hmem
    exact absurd hmem (Finset.notMem_empty _)
  | succ levels ih =>
    obtain ⟨scope, hs⟩ := hid.scope?
    obtain ⟨rest, rfl⟩ : ∃ rest, rounds = rest + 2 := ⟨rounds - 2, by omega⟩
    refine hwell.unguarded_scopeLines hs (hbranches id) (by omega)
      (fun x hx name more hmore => ?_) name
    have hlt := h.card_scopesBelow_lt hid hx
    obtain ⟨n, m, hn, hlink, hm⟩ := hx
    exact ih (depth + 1) ((h.complete hlink).1.has hm) (by omega) (by omega) name

theorem LinksSettled.unguarded_outlineOf {id : ScopeId} (hid : s.Has id) :
    Unguarded.Ends (Unguarded.outlineOf s · id) (s.outlineOf id) := by
  refine ⟨2 * s.scopes.length + longest s + 1, fun rounds hrounds => ?_⟩
  obtain ⟨scope, hscope⟩ := hid.scope?
  unfold Unguarded.outlineOf outlineOf
  rw [hscope]
  exact h.unguarded_scopeLines hwell hbranches 0 hid (card_scopesBelow_le _ _) hrounds _

theorem LinksSettled.unguarded_outline : Unguarded.Ends (Unguarded.outline s) s.outline := by
  refine ⟨2 * s.scopes.length + longest s + 2, fun rounds hrounds => ?_⟩
  obtain ⟨scope, hs⟩ := hwell.root.scope?
  obtain ⟨rest, rfl⟩ : ∃ rest, rounds = rest + 1 := ⟨rounds - 1, by omega⟩
  unfold Unguarded.outline outline
  rw [hs]
  refine hwell.unguarded_nameLines hs (by omega) fun x hx name => ?_
  obtain ⟨n, m, -, hlink, hm⟩ := hx
  exact h.unguarded_scopeLines hwell hbranches 0 ((h.complete hlink).1.has hm)
    (card_scopesBelow_le _ _) (by omega) name

end

/-- What a scope has as branches it has declared as such. -/
theorem branches_of_ok {options : Options} {sources : List (String × String)}
    (h : ofSources options sources = .ok s) {id : ScopeId} {l : Layout}
    (hl : s.layout? id = some l) : l.branches.entries = l.ownBranches := by
  obtain ⟨c, past, -, rfl, -, hhistory⟩ := history_of_ok h
  obtain ⟨taken, hinherits⟩ := hhistory.inherits hl
  exact hinherits.replays.branches

/-- Schemas are well formed at every moment of every compilation, failing ones included: parents are
older than what stands in them, all numbers that are stored are those of scopes and applied types
that are there, elements are older than their types, and bases, branches and types that are structs
are no proxies. So a compiled schema is read to the end without a guard: no number is out of range,
and no loop goes on for ever. -/
theorem history_wellFormed (options : Options) (sources : List (String × String)) :
    (∀ c ∈ history options sources, WellFormed c.schema) ∧
    ∀ s, ofSources options sources = .ok s →
      (∀ id, s.Has id →
        Unguarded.Ends (Unguarded.namesOwner s · id) (s.namesOwner id) ∧
        (∀ path, Unguarded.Ends (Unguarded.lookup? s · id path) (s.lookup? id path)) ∧
        Unguarded.Ends (Unguarded.qualifiedName s · id) (s.qualifiedName id) ∧
        Unguarded.Ends (Unguarded.outlineOf s · id) (s.outlineOf id)) ∧
      (∀ t, InRange s (.type t) →
        Unguarded.Ends (Unguarded.typeName s · t) (s.typeName t)) ∧
      (∀ n, InRange s n → Unguarded.Ends (Unguarded.walkFrom s · n) (s.walkFrom n)) ∧
      Unguarded.Ends (Unguarded.walkFrom s · (.space root)) s.walk ∧
      Unguarded.Ends (Unguarded.outline s) s.outline := by
  refine ⟨fun c hc => wellFormed_of_mem_history hc, fun s hs => ?_⟩
  have hwell := wellFormed_of_ok hs
  have hbranches : ∀ id l, s.layout? id = some l → l.branches.entries = l.ownBranches :=
    fun _ _ hl => branches_of_ok hs hl
  obtain ⟨-, -, hsettled⟩ := linksSettled_of_ok hs
  refine ⟨fun id hid => ⟨?_, fun path => ?_, ?_, ?_⟩, fun t ht => ?_, fun n => ?_, ?_, ?_⟩
  · exact ⟨id.index + 1, fun _ => unguarded_namesOwner hwell.rooted hid⟩
  · exact ⟨id.index + s.scopes.length + 1, fun _ => hwell.unguarded_lookup? path hid⟩
  · exact ⟨id.index + 1, fun _ => unguarded_qualifiedName hwell.rooted hid⟩
  · exact hsettled.unguarded_outlineOf hwell hbranches hid
  · exact ⟨longest s + 1, fun _ => hwell.unguarded_typeName ht⟩
  · exact hwell.unguarded_walkFrom
  · exact hwell.unguarded_walkFrom hwell.root
  · exact hsettled.unguarded_outline hwell hbranches

end PacketSchema.Compilation
