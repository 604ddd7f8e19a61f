import PacketSchema.Proofs.Schema.Grouping

/-! Changes to two schemas that differ by a proxy. A step of compiling that is taken on both sides,
in scopes that stand for each other, leaves no other difference. -/

namespace PacketSchema

open Schema Compilation

namespace Schema

theorem Keeps.mem_chain {s s' : Schema} (hk : s.Keeps s') {x : ScopeId}
    {link : ScopeId × Scope} (h : link ∈ s.chain x) :
    ∃ link' ∈ s'.chain x, link'.2.shape = link.2.shape := by
  fun_induction Schema.chain s x with
  | case1 x hs => cases h
  | case2 x scope hs ih =>
    obtain ⟨scope', hs', heq⟩ := hk x scope hs
    rw [Schema.chain, hs']
    obtain rfl | h := List.mem_cons.1 h
    · exact ⟨(x, scope'), List.mem_cons_self, heq⟩
    · cases hp : scope.parent with
      | none => simp [hp] at h
      | some p =>
        by_cases hlt : p.index < x.index
        · simp only [hp, hlt, if_true] at h
          obtain ⟨link', hlink', heq'⟩ := ih p hlt h
          simp only [Scope.parent_eq heq, hp, hlt, if_true]
          exact ⟨link', .tail _ hlink', heq'⟩
        · simp [hp, hlt] at h

theorem Keeps.layout? {s s' : Schema} (hk : s.Keeps s') {x : ScopeId}
    (h : ∃ layout, s.layout? x = some layout) : ∃ layout, s'.layout? x = some layout := by
  obtain ⟨layout, hl⟩ := h
  obtain ⟨scope, hs, hlayout⟩ := Option.bind_eq_some_iff.1 hl
  obtain ⟨scope', hs', heq⟩ := hk x scope hs
  have hstruct := Scope.isStruct_iff.2 ⟨layout, hlayout⟩
  rw [← Scope.isStruct_eq heq] at hstruct
  obtain ⟨layout', hlayout'⟩ := Scope.isStruct_iff.1 hstruct
  exact ⟨layout', Option.bind_eq_some_iff.2 ⟨scope', hs', hlayout'⟩⟩

end Schema

namespace Grouping

variable {g : Grouping} {phase phase' : Phase} {s s' t t' : Schema}

theorem scope_eq_of_inside {x : ScopeId} (h : g.inside phase x = g.inside phase' x) :
    g.scope phase x = g.scope phase' x := by
  have hparent : g.parent phase x = g.parent phase' x := by
    funext p
    simp only [parent, h]
  funext scope
  simp only [Grouping.scope, hparent]

theorem Present.of_keeps (h : g.Present s s') (hk : s.Keeps t)
    (hcount : t'.scopes.length + s.scopes.length = s'.scopes.length + t.scopes.length)
    (hle : s.scopes.length ≤ t.scopes.length)
    (hadded : t'.scope? g.proxy = s'.scope? g.proxy) : g.Present t t' where
  count := by
    have hcount' := h.count
    omega
  le := Nat.le_trans h.le hle
  added := hadded.trans h.added
  dest := hk.layout? h.dest

theorem exists_link (hk : s.Keeps t) (h : ∃ link ∈ s.chain g.dest, link.2.isProxy = false) :
    ∃ link ∈ t.chain g.dest, link.2.isProxy = false := by
  obtain ⟨link, hlink, hproxy⟩ := h
  obtain ⟨link', hlink', heq⟩ := hk.mem_chain hlink
  exact ⟨link', hlink', by rw [Scope.isProxy_eq heq, hproxy]⟩

theorem Holds.update (h : g.Holds s phase) (hsame : s.SameShapes t)
    (hcount : t.scopes.length = s.scopes.length)
    (hsnapshot : phase = .within →
      (t.layout? g.dest).map Layout.snapshot = (s.layout? g.dest).map Layout.snapshot) :
    g.Holds t phase := by
  cases phase with
  | within =>
    obtain ⟨hlayout, hlink⟩ := h
    refine ⟨fun layout hl => ?_, exists_link hsame.keeps hlink⟩
    have hmap := hsnapshot rfl
    rw [hl, Option.map_some] at hmap
    obtain ⟨old, hold, heq⟩ := Option.map_eq_some_iff.1 hmap.symm
    rw [← heq, hlayout old hold]
  | behind next =>
    obtain ⟨hnext, hinside⟩ := h
    refine ⟨by rw [hcount]; exact hnext, fun {x scope' p} hs' hparent hlt hin => ?_⟩
    obtain ⟨scope, hs, heq⟩ := hsame.symm.keeps x scope' hs'
    exact hinside hs (by rw [Scope.parent_eq heq, hparent]) hlt hin

end Grouping

namespace Grouped

open Grouping

variable {g : Grouping} {phase : Phase} {s s' t t' : Schema}

theorem of_scopes_eq (h : Grouped g phase s s') (hs : t.scopes = s.scopes)
    (hs' : t'.scopes = s'.scopes) (htypes : t'.types = t.types.renumber g.shift)
    (hwarnings : t'.otherWarnings = t.otherWarnings) : Grouped g phase t t' where
  scope? := by
    unfold Schema.scope?
    rw [hs, hs']
    exact h.scope?
  types := htypes
  warnings := hwarnings
  present := h.present.of_keeps (SameShapes.of_scopes_eq hs).keeps (by rw [hs, hs'])
    (Nat.le_of_eq (congrArg List.length hs.symm)) (congrArg (·[_]?) hs')
  holds := h.holds.update (.of_scopes_eq hs) (congrArg List.length hs) fun _ => by
    rw [layout?_of_scopes_eq hs]

theorem modifyScope (h : Grouped g phase s s') (x : ScopeId) {f f' : Scope → Scope}
    (hshape : ∀ scope, (f scope).shape = scope.shape)
    (hf : ∀ scope, f' (g.scope phase x scope) = g.scope phase x (f scope))
    (hsnapshot : phase = .within → x = g.dest → ∀ scope : Scope,
      (f scope).layout?.map Layout.snapshot = scope.layout?.map Layout.snapshot) :
    Grouped g phase (s.modifyScope x f) (s'.modifyScope (g.shift x) f') where
  scope? := by
    intro y
    rw [scope?_modifyScope, scope?_modifyScope, h.scope?]
    by_cases hy : y = x
    · subst hy
      cases s.scope? y <;> simp [hf]
    · simp [hy, shift_injective.eq_iff]
  types := h.types
  warnings := h.warnings
  present := by
    refine h.present.of_keeps (SameShapes.modifyScope hshape).keeps ?_ ?_ ?_
    · simp [Schema.modifyScope]
    · simp [Schema.modifyScope]
    · rw [scope?_modifyScope, if_neg shift_ne_proxy.symm]
  holds := by
    refine h.holds.update (.modifyScope hshape) (List.length_modify _ _ _) fun hwithin => ?_
    unfold Schema.layout?
    rw [scope?_modifyScope]
    split
    · rename_i hx
      cases s.scope? g.dest with
      | none => rfl
      | some scope => exact hsnapshot hwithin hx.symm scope
    · rfl

theorem bind (h : Grouped g phase s s') {x x' : ScopeId} (hx : g.Pairs phase x x')
    (name : String) (item : Item) :
    Grouped g phase (s.bind x name item) (s'.bind x' name (item.renumber g.shift)) := by
  unfold Schema.bind
  rw [h.namesOwner hx]
  refine h.modifyScope _ (fun _ => rfl) (fun scope => ?_) fun _ _ _ => rfl
  have hinsert := scope.names.insert_map (Item.renumber g.shift) name item
  simp [Grouping.scope, Scope.renumber, hinsert]

theorem modifyLayout (h : Grouped g phase s s') (x : ScopeId) {f f' : Layout → Layout}
    (hf : ∀ l, f' (l.renumber g.shift) = (f l).renumber g.shift)
    (hsnapshot : phase = .within → x = g.dest → ∀ l, (f l).snapshot = l.snapshot) :
    Grouped g phase (s.modifyLayout x f) (s'.modifyLayout (g.shift x) f') := by
  refine h.modifyScope x (fun scope => ?_) (fun scope => ?_) fun hwithin hx scope => ?_
  · unfold Scope.shape
    cases scope.kind <;> rfl
  · have hkind := scope.kind.renumber_mapLayout (g := f) (h := f') fun l => (hf l).symm
    simp [Grouping.scope, Scope.renumber, hkind]
  · unfold Scope.layout?
    cases scope.kind <;> simp [ScopeKind.mapLayout, ScopeKind.layout?, hsnapshot hwithin hx]

/-! ### New scopes -/

theorem nextId (h : Grouped g phase s s') : s'.nextId = g.shift s.nextId := by
  have hle : g.proxy.index ≤ s.nextId.index := h.present.le
  rw [shift_of_le hle]
  exact congrArg ScopeId.mk h.present.count

/-- Declarations may be compiled in new scopes. -/
theorem admits_nextId (h : Grouped g phase s s') : g.Admits phase s.nextId := by
  have hle : g.proxy.index ≤ s.nextId.index := h.present.le
  have hholds := h.holds
  unfold Admits
  cases phase with
  | within => simp [inside, hle]
  | behind next =>
    have hnext : next ≤ s.nextId.index := hholds.1
    simp [inside, hnext]

theorem parent_nextId (h : Grouped g phase s s') {x x' : ScopeId} (hx : g.Pairs phase x x') :
    g.parent phase s.nextId x = x' := by
  have hnext := h.admits_nextId
  obtain ⟨hadmits, rfl⟩ | ⟨rfl, rfl, rfl⟩ := hx
  · refine parent_of_ne ?_
    rintro ⟨hin, rfl⟩
    exact not_inside_dest (hadmits.2 (hnext.1 hin))
  · exact parent_dest (hnext.2 rfl)

theorem addScope (h : Grouped g phase s s') {x x' : ScopeId} (hx : g.Pairs phase x x')
    (name : Option String) (position : Option Position) (kind : ScopeKind) :
    Grouped g phase (s.addScope ⟨name, some x, position, kind, {}⟩)
      (s'.addScope ⟨name, some x', position, kind.renumber g.shift, {}⟩) where
  scope? := by
    intro y
    rw [scope?_addScope, scope?_addScope, h.nextId, h.scope?]
    by_cases hy : y = s.nextId
    · subst hy
      simp [Grouping.scope, Scope.renumber, h.parent_nextId hx, Table.map]
    · simp [hy, shift_injective.eq_iff]
  types := h.types
  warnings := h.warnings
  present := by
    refine h.present.of_keeps (keeps_addScope _ _) ?_ ?_ ?_
    · simp [Schema.addScope]
      omega
    · simp [Schema.addScope]
    · exact scope?_addScope_of_has (has_of_scope? h.present.added) _
  holds := by
    have hk := keeps_addScope s ⟨name, some x, position, kind, {}⟩
    have hholds := h.holds
    cases phase with
    | within =>
      obtain ⟨hlayout, hlink⟩ := hholds
      refine ⟨fun layout hl => ?_, exists_link hk hlink⟩
      obtain ⟨old, hold⟩ := h.present.dest
      rw [layout?_addScope_of_has (has_of_layout? hold)] at hl
      exact hlayout layout hl
    | behind next =>
      obtain ⟨hnext, hinside⟩ := hholds
      refine ⟨?_, fun {y scope p} hs hparent hlt hin => ?_⟩
      · simp [Schema.addScope]
        omega
      · rw [scope?_addScope] at hs
        split at hs
        · cases hs
          cases hparent
          obtain ⟨hadmits, -⟩ | ⟨hphase, -⟩ := hx
          · cases hadmits.1 hin
          · cases hphase
        · exact hinside hs hparent hlt hin

/-! ### From phase to phase -/

/-- A proxy is put in where nothing refers to scopes that are still to come. -/
theorem enter (hr : s.Rooted) (hproxy : g.proxy = s.nextId)
    (hscopes : ∀ x scope, s.scope? x = some scope → scope.renumber g.shift = scope)
    (htypes : s.types.renumber g.shift = s.types) {layout : Layout}
    (hl : s.layout? g.dest = some layout) (hlayout : g.layout = layout.snapshot)
    (hlink : ∃ link ∈ s.chain g.dest, link.2.isProxy = false) :
    Grouped g .within s (s.addScope g.added) where
  scope? := by
    intro x
    have hne : g.shift x ≠ s.nextId := by
      rw [← hproxy]
      exact shift_ne_proxy
    rw [scope?_addScope, if_neg hne]
    cases hs : s.scope? x with
    | none =>
      have hle : s.scopes.length ≤ x.index := List.getElem?_eq_none_iff.1 hs
      have hproxy' : g.proxy.index = s.scopes.length := congrArg ScopeId.index hproxy
      rw [shift_of_le (by omega)]
      exact List.getElem?_eq_none (by simp; omega)
    | some scope =>
      have hx : x.index < s.scopes.length := has_of_scope? hs
      have hlt : x.index < g.proxy.index := by
        rw [hproxy]
        exact hx
      have hparent : scope.parent.map (g.parent .within x) = scope.parent := by
        cases hp : scope.parent with
        | none => rfl
        | some p =>
          have hup := hr.parent_lt hs hp
          rw [Option.map_some, parent_of_ne fun h => not_inside_of_lt hlt h.1,
            shift_of_lt (by omega)]
      rw [shift_of_lt hlt, hs, Option.map_some]
      simp [Grouping.scope, hparent, hscopes x scope hs]
  types := htypes.symm
  warnings := rfl
  present := by
    refine ⟨by simp [Schema.addScope], ?_, ?_, layout, hl⟩
    · rw [hproxy]
      exact Nat.le_refl _
    · rw [hproxy]
      exact scope?_addScope_self s _
  holds := by
    refine ⟨fun old hold => ?_, hlink⟩
    obtain ⟨scope, hs, hscope⟩ := Option.bind_eq_some_iff.1 hold
    have hkind : scope.kind.renumber g.shift = scope.kind :=
      congrArg Scope.kind (hscopes _ scope hs)
    have hfixed := scope.kind.layout?_renumber (f := g.shift)
    rw [hkind, show scope.kind.layout? = some old from hscope] at hfixed
    rw [hl] at hold
    cases hold
    rw [hlayout, Layout.renumber_snapshot, ← Option.some.inj hfixed]

theorem leave (h : Grouped g .within s s') : Grouped g (.behind s.scopes.length) s s' where
  scope? := by
    intro x
    rw [h.scope?]
    cases hs : s.scope? x with
    | none => rfl
    | some scope =>
      have hlt : x.index < s.scopes.length := has_of_scope? hs
      have hinside : g.inside .within x = g.inside (.behind s.scopes.length) x := by
        simp [inside, hlt]
      rw [scope_eq_of_inside hinside]
  types := h.types
  warnings := h.warnings
  present := h.present
  holds := by
    refine ⟨Nat.le_refl _, fun {x scope p} hs hp hlt hin => ?_⟩
    have hx : x.index < s.scopes.length := has_of_scope? hs
    have hle := le_of_inside hin
    simp [inside, hx]
    omega

end Grouped

end PacketSchema
