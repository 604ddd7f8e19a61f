import PacketSchema.Proofs.Compilation.Framing
import PacketSchema.Proofs.Compilation.Performing

/-! Nothing is linked to before it is complete, and everything that is complete is linked to. While
some scopes are open, nothing leads to them, so a new link from one of them cannot close a circle.
A type that has just been made is held until a name, a field or another type refers to it. -/

namespace PacketSchema

theorem Scope.item_node_scope? (scope : Scope) (id : ScopeId) :
    (scope.item id).node.scope? = some id := by
  unfold item
  cases scope.kind <;> rfl

theorem Scope.item_of_isStruct {scope : Scope} (h : scope.isStruct = true) (id : ScopeId) :
    scope.item id = .type (.struct id) := by
  unfold item
  cases hk : scope.kind <;> simp [isStruct, layout?, hk, ScopeKind.layout?] at h ⊢

namespace Compilation

open Schema

/-- A node for everything in a schema but its proxies. -/
def IsNode (s : Schema) : Node → Prop
  | .space id => ∃ scope, s.scope? id = some scope ∧ scope.kind = .space
  | .type (.struct id) =>
    ∃ scope, s.scope? id = some scope ∧ scope.isStruct = true ∧ scope.isProxy = false
  | .type (.param id) => ∃ t, s.param? id = some t
  | .type (.builtin _) => True

/-- A node that may be linked to while a scope and those around it are open. -/
def Complete (s : Schema) (d : ScopeId) (m : Node) : Prop :=
  IsNode s m ∧ ∀ x, m.scope? = some x → ¬ s.Around d x

/-- Where the ways to all other nodes start. -/
inductive Source (s : Schema) (d : ScopeId) (held : Option Node) : Node → Prop
  | around {x : ScopeId} {scope : Scope} (hs : s.scope? x = some scope) (hx : s.Around d x) :
      Source s d held (scope.item x).node
  | proxy {x : ScopeId} {scope : Scope} (hs : s.scope? x = some scope)
      (hp : scope.isProxy = true) : Source s d held (scope.item x).node
  | held {m : Node} (h : held = some m) : Source s d held m

/-- What holds while a scope and those around it are open and a node is held. -/
structure LinksSettled (s : Schema) (d : ScopeId) (held : Option Node) : Prop where
  complete : ∀ {n m}, s.Links n m → Complete s d m
  complete_held : ∀ {m}, held = some m → Complete s d m
  wellFounded : WellFounded fun m n => s.Links n m
  reached : ∀ m, IsNode s m → (∀ b, m ≠ .type (.builtin b)) →
    ∃ a, Source s d held a ∧ s.LeadsTo a m
  older : ∀ {id t e}, s.param? id = some t → t.elem? = some (.param e) → e.index < id.index
  inverse : s.types.Inverse

/-! ## Nodes -/

section

variable {s s' : Schema} {d : ScopeId}

theorem isNode_item {id : ScopeId} {scope : Scope} (hs : s.scope? id = some scope)
    (hp : scope.isProxy = false) : IsNode s (scope.item id).node := by
  unfold Scope.item
  have hstruct : ∀ l, scope.layout? = some l → scope.isStruct = true := fun l hl =>
    Scope.isStruct_iff.2 ⟨l, hl⟩
  unfold Scope.layout? at hstruct
  cases hk : scope.kind with
  | space => exact ⟨scope, hs, hk⟩
  | struct l => exact ⟨scope, hs, hstruct l (by rw [hk]; rfl), hp⟩
  | variant l _ _ => exact ⟨scope, hs, hstruct l (by rw [hk]; rfl), hp⟩
  | proxy _ _ => simp [Scope.isProxy, hk, ScopeKind.isProxy] at hp

theorem IsNode.item {m : Node} (h : IsNode s m) {id : ScopeId} (hm : m.scope? = some id) :
    ∃ scope, s.scope? id = some scope ∧ scope.isProxy = false ∧ m = (scope.item id).node := by
  cases m with
  | space x =>
    cases hm
    obtain ⟨scope, hs, hk⟩ := h
    have hproxy : scope.isProxy = false := by simp [Scope.isProxy, hk, ScopeKind.isProxy]
    exact ⟨scope, hs, hproxy, by simp [Scope.item, hk, Item.node]⟩
  | type t =>
    cases t with
    | builtin _ => cases hm
    | param _ => cases hm
    | struct x =>
      cases hm
      obtain ⟨scope, hs, hstruct, hp⟩ := h
      exact ⟨scope, hs, hp, by rw [Scope.item_of_isStruct hstruct]; rfl⟩

theorem IsNode.has {m : Node} (h : IsNode s m) {id : ScopeId} (hm : m.scope? = some id) :
    s.Has id := by
  obtain ⟨scope, hs, -, -⟩ := h.item hm
  exact has_of_scope? hs

theorem IsNode.keeps {m : Node} (h : IsNode s m) (hk : s.Keeps s')
    (ht : s.types.types <+: s'.types.types) : IsNode s' m := by
  cases hm : m.scope? with
  | some id =>
    obtain ⟨scope, hs, hp, rfl⟩ := h.item hm
    obtain ⟨scope', hs', heq⟩ := hk id scope hs
    rw [← Scope.item_shape heq]
    exact isNode_item hs' (by rw [Scope.isProxy_eq heq, hp])
  | none =>
    cases m with
    | space _ => cases hm
    | type t =>
      cases t with
      | builtin _ => exact trivial
      | struct _ => cases hm
      | param id =>
        obtain ⟨t, hfound⟩ := h
        exact ⟨t, TypeCache.get?_of_prefix ht hfound⟩

theorem around_keeps (hk : s.Keeps s') (hr : s.Rooted) (hr' : s'.Rooted) (hd : s.Has d)
    {x : ScopeId} : s'.Around d x ↔ s.Around d x := by
  have hchain := congrArg (List.map Prod.fst) (hk.chain hr hr' hd)
  have hmap : Prod.fst ∘ mapLink Scope.shape = Prod.fst := rfl
  rw [List.map_map, List.map_map, hmap] at hchain
  unfold Around
  rw [hchain]

theorem Complete.keeps {m : Node} (h : Complete s d m) (hk : s.Keeps s') (hr : s.Rooted)
    (hr' : s'.Rooted) (hd : s.Has d) (ht : s.types.types <+: s'.types.types) : Complete s' d m :=
  ⟨h.1.keeps hk ht, fun x hx hopen => h.2 x hx ((around_keeps hk hr hr' hd).1 hopen)⟩

theorem Source.keeps {held : Option Node} {d' : ScopeId} {a : Node} (h : Source s d held a)
    (hk : s.Keeps s') (haround : ∀ {x}, s.Around d x → s'.Around d' x) :
    Source s' d' held a := by
  cases h with
  | around hs hx =>
    obtain ⟨scope', hs', heq⟩ := hk _ _ hs
    rw [← Scope.item_shape heq]
    exact .around hs' (haround hx)
  | proxy hs hp =>
    obtain ⟨scope', hs', heq⟩ := hk _ _ hs
    rw [← Scope.item_shape heq]
    exact .proxy hs' (by rw [Scope.isProxy_eq heq, hp])
  | held h => exact .held h

/-- A source that is not held is one whatever else is held. -/
theorem Source.cases_held {held : Option Node} {a : Node} (h : Source s d held a) :
    (∀ other, Source s d other a) ∨ held = some a := by
  cases h with
  | around hs hx => exact .inl fun _ => .around hs hx
  | proxy hs hp => exact .inl fun _ => .proxy hs hp
  | held h => exact .inr h

theorem around_namesOwner (hr : s.Rooted) (hd : s.Has d) : s.Around d (s.namesOwner d) := by
  obtain ⟨scope, hs⟩ := hd.scope?
  have hself := hr.around_self hd
  unfold namesOwner Around
  cases hfind : (s.chain d).find? fun link => !link.2.isProxy with
  | none => exact hself
  | some link => exact List.mem_map_of_mem (List.mem_of_find?_eq_some hfind)

theorem around_base {source : Option ScopeId} {path : Option Path} {a : Anchor}
    (h : climb source path (s.chain d) = some a) : s.Around d a.base := by
  obtain ⟨link, hlink, heq⟩ := Option.map_eq_some_iff.1 (climb_base h)
  exact List.mem_map.2 ⟨link, List.mem_of_find?_eq_some hlink, heq⟩

theorem not_links_builtin {b : Builtin} {m : Node} : ¬ s.Links (.type (.builtin b)) m := by
  intro h
  cases h with
  | name hn _ _ => cases hn

/-- What is looked up has been bound to a name. -/
theorem mem_names_of_lookupLocal? {path : Path} {id : ScopeId} {item : Item}
    (h : s.lookupLocal? id path = some item) :
    ∃ x scope name, s.scope? x = some scope ∧ (name, item) ∈ scope.names.entries := by
  induction path generalizing id with
  | nil => cases h
  | cons name rest ih =>
    cases rest with
    | cons next rest =>
      obtain ⟨inner, -, hinner⟩ := Option.bind_eq_some_iff.1 h
      exact ih hinner
    | nil =>
      have hfound : (s.names id).find? name = some item := h
      unfold names at hfound
      cases hs : s.scope? (s.namesOwner id) with
      | none =>
        rw [hs] at hfound
        cases hfound
      | some scope =>
        rw [hs] at hfound
        exact ⟨s.namesOwner id, scope, name, hs, Table.mem_of_find? hfound⟩

theorem mem_names_of_lookup? {path : Path} {item : Item} (h : s.lookup? d path = some item) :
    ∃ x scope name, s.scope? x = some scope ∧ (name, item) ∈ scope.names.entries := by
  obtain ⟨link, -, hlink⟩ := List.exists_of_findSome?_eq_some h
  exact mem_names_of_lookupLocal? hlink

theorem links_of_lookup? {path : Path} {item : Item} (h : s.lookup? d path = some item) :
    ∃ n, s.Links n item.node := by
  obtain ⟨x, scope, name, hs, hmem⟩ := mem_names_of_lookup? h
  exact ⟨.space x, .name rfl hs hmem⟩

/-- What a scope takes over has been linked to before. -/
theorem Opens.links_of_holds {task : Task} {scope : Scope} (h : Opens s d task scope) {l : Layout}
    (hl : scope.layout? = some l) {m : Node} (hm : l.Holds m) : ∃ n, s.Links n m := by
  obtain rfl | ⟨source, taken, htaken, rfl⟩ := h.layout_eq hl
  · cases hm <;> contradiction
  · cases hm with
    | field hmem => exact ⟨_, .member htaken (.field hmem)⟩
    | branch hmem => cases hmem

theorem IsNode.of_addScope {scope : Scope} {m : Node} (h : IsNode (s.addScope scope) m) :
    IsNode s m ∨ m = (scope.item s.nextId).node := by
  cases hm : m.scope? with
  | some id =>
    obtain ⟨found, hs, hp, rfl⟩ := h.item hm
    rw [scope?_addScope] at hs
    split at hs
    · rename_i hid
      cases hs
      exact .inr (by rw [hid])
    · exact .inl (isNode_item hs hp)
  | none =>
    cases m with
    | space _ => cases hm
    | type t =>
      cases t with
      | builtin _ => exact .inl trivial
      | struct _ => cases hm
      | param _ => exact .inl h

theorem IsNode.of_intern {t : ParamType} {m : Node} (h : IsNode (s.intern t) m)
    (hm : m ≠ .type (.param ⟨s.types.size⟩)) : IsNode s m := by
  cases m with
  | space _ => exact h
  | type u =>
    cases u with
    | builtin _ => exact trivial
    | struct _ => exact h
    | param id =>
      obtain ⟨u, hu⟩ := h
      rw [param?_intern, if_neg] at hu
      · exact ⟨u, hu⟩
      · rintro ⟨-, rfl⟩
        exact hm rfl

end

/-- A relation stays well-founded when what is new starts where nothing leads to. -/
theorem wellFounded_of_new {α : Type} {r r' : α → α → Prop} (h : WellFounded r)
    (hnew : ∀ m n, r' m n → r m n ∨ ∀ k, ¬ r' n k) : WellFounded r' := by
  have hbelow : ∀ n k, r' n k → Acc r' n := by
    intro n
    induction n using h.induction with
    | _ n ih =>
      intro k hk
      refine ⟨n, fun m hm => ?_⟩
      obtain hold | hunlinked := hnew m n hm
      · exact ih m hold n hm
      · exact absurd hk (hunlinked k)
  exact ⟨fun n => ⟨n, fun m hm => hbelow m n hm⟩⟩

/-! ## What happens to the invariant -/

namespace LinksSettled

variable {s s' : Schema} {d : ScopeId} {held : Option Node}

theorem empty : LinksSettled .empty root none := by
  have hlinks : ∀ {n m}, ¬ Schema.empty.Links n m := by
    intro n m h
    cases h with
    | @name _ id scope name item hn hs hmem =>
      cases List.mem_singleton.1 (List.mem_of_getElem? hs)
      cases hmem
    | @member id l _ hl h =>
      obtain ⟨scope, hs, hlayout⟩ := Option.bind_eq_some_iff.1 hl
      cases List.mem_singleton.1 (List.mem_of_getElem? hs)
      cases hlayout
    | part ht h => cases ht
  constructor
  case complete => exact fun h => absurd h hlinks
  case complete_held => exact fun h => nomatch h
  case wellFounded => exact ⟨fun n => ⟨n, fun m h => absurd h hlinks⟩⟩
  case reached =>
    intro m hm hb
    cases hscope : m.scope? with
    | some id =>
      obtain ⟨scope, hs, -, rfl⟩ := hm.item hscope
      have hroot : id = root := by
        have hlt := has_of_scope? hs
        exact congrArg ScopeId.mk (Nat.lt_one_iff.1 hlt)
      subst hroot
      exact ⟨_, .around hs (rooted_empty.around_self (has_of_scope? hs)), .refl⟩
    | none =>
      cases m with
      | space _ => cases hscope
      | type t =>
        cases t with
        | builtin b => exact absurd rfl (hb b)
        | struct _ => cases hscope
        | param id =>
          obtain ⟨t, ht⟩ := hm
          cases ht
  case older => exact fun ht => nomatch ht
  case inverse => exact TypeCache.inverse_empty

/-- New links from open scopes to what is complete. -/
theorem link {N : Node → Node → Prop} (h : LinksSettled s d held) (hr : s.Rooted) (hd : s.Has d)
    (hsame : s.SameShapes s') (htypes : s'.types = s.types)
    (hlinks : ∀ n m, s'.Links n m ↔ s.Links n m ∨ N n m)
    (hnew : ∀ n m, N n m → (∃ x, n.scope? = some x ∧ s.Around d x) ∧ Complete s d m) :
    LinksSettled s' d held := by
  have hk := hsame.keeps
  have hr' := hsame.rooted hr
  have haround : ∀ {x}, s'.Around d x ↔ s.Around d x := around_keeps hk hr hr' hd
  have hcomplete : ∀ {m}, Complete s d m → Complete s' d m :=
    fun hm => hm.keeps hk hr hr' hd (htypes ▸ List.prefix_rfl)
  have hlinked : ∀ {n m}, s'.Links n m → Complete s' d m := by
    intro n m hlink
    obtain hold | hnew' := (hlinks n m).1 hlink
    · exact hcomplete (h.complete hold)
    · exact hcomplete (hnew n m hnew').2
  constructor
  case complete => exact hlinked
  case complete_held => exact fun hm => hcomplete (h.complete_held hm)
  case wellFounded =>
    refine wellFounded_of_new h.wellFounded fun m n hlink => ?_
    refine ((hlinks n m).1 hlink).imp_right fun hnew' k hk' => ?_
    obtain ⟨⟨x, hx, hopen⟩, -⟩ := hnew n m hnew'
    exact (hlinked hk').2 x hx (haround.2 hopen)
  case reached =>
    intro m hm hb
    have hold : IsNode s m := hm.keeps hsame.symm.keeps (htypes ▸ List.prefix_rfl)
    obtain ⟨a, ha, hlead⟩ := h.reached m hold hb
    exact ⟨a, ha.keeps hk haround.2, LeadsTo.mono (fun hlink => (hlinks _ _).2 (.inl hlink)) hlead⟩
  case older =>
    intro id t e ht
    unfold param? at ht
    rw [htypes] at ht
    exact h.older ht
  case inverse => exact htypes ▸ h.inverse

/-- Nothing changes while the links stay the same. -/
theorem relink (h : LinksSettled s d held) (hr : s.Rooted) (hd : s.Has d)
    (hsame : s.SameShapes s') (htypes : s'.types = s.types)
    (hlinks : ∀ n m, s'.Links n m ↔ s.Links n m) : LinksSettled s' d held := by
  have hnone : ∀ n m, s'.Links n m ↔ s.Links n m ∨ False := by simpa using hlinks
  exact h.link hr hd hsame htypes hnone fun _ _ hnew => hnew.elim

/-- Another node may be held, or none, if there is still a source for what is below the old one. -/
theorem hold {held' : Option Node} (h : LinksSettled s d held)
    (hcomplete : ∀ m, held' = some m → Complete s d m)
    (hbelow : ∀ m k, held = some m → s.LeadsTo m k → (∀ b, k ≠ .type (.builtin b)) →
      ∃ a, Source s d held' a ∧ s.LeadsTo a k) : LinksSettled s d held' where
  complete := h.complete
  complete_held := hcomplete _
  wellFounded := h.wellFounded
  reached := by
    intro k hk hb
    obtain ⟨a, ha, hlead⟩ := h.reached k hk hb
    obtain ha | heq := ha.cases_held
    · exact ⟨a, ha _, hlead⟩
    · exact hbelow a k heq hlead hb
  older := h.older
  inverse := h.inverse

/-- What leads to the node in hand may be held in its place. -/
theorem take {m : Node} (h : LinksSettled s d held) (hm : Complete s d m)
    (hbelow : ∀ k, held = some k → s.Links m k) : LinksSettled s d (some m) := by
  refine h.hold ?_ fun a k heq hlead _ => ⟨m, .held rfl, .head (hbelow a heq) hlead⟩
  rintro _ ⟨⟩
  exact hm

/-- What is held may be let go when something else leads to it. -/
theorem drop {m : Node} (h : LinksSettled s d (some m))
    (hm : (∃ b, m = .type (.builtin b)) ∨ ∃ a, Source s d none a ∧ s.LeadsTo a m) :
    LinksSettled s d none := by
  refine h.hold (fun _ hnone => nomatch hnone) ?_
  rintro _ k ⟨⟩ hlead hb
  obtain ⟨b, rfl⟩ | ⟨a, ha, hlead'⟩ := hm
  · obtain rfl | ⟨n, hlink, -⟩ := Relation.ReflTransGen.cases_head hlead
    · exact absurd rfl (hb b)
    · exact absurd hlink not_links_builtin
  · exact ⟨a, ha, hlead'.trans hlead⟩

/-- A scope that is opened leads to nothing but what it takes over, and nothing leads to it. -/
theorem enter (h : LinksSettled s d none) (hr : s.Rooted) (hd : s.Has d) {task : Task}
    {scope : Scope} (hopens : Opens s d task scope) :
    LinksSettled (s.addScope scope) s.nextId none := by
  have hk := keeps_addScope s scope
  have hr' := hr.addScope hd hopens.parent
  have hnew := scope?_addScope_self s scope
  have haround : ∀ {x}, (s.addScope scope).Around s.nextId x ↔ x = s.nextId ∨ s.Around d x := by
    intro x
    rw [hr'.around_child hnew hopens.parent, around_keeps hk hr hr' hd]
  have hcomplete : ∀ {m}, Complete s d m → Complete (s.addScope scope) s.nextId m := by
    intro m hm
    refine ⟨hm.1.keeps hk List.prefix_rfl, fun x hx hopen => ?_⟩
    obtain rfl | hopen := haround.1 hopen
    · exact Nat.lt_irrefl _ (hm.1.has hx)
    · exact hm.2 x hx hopen
  have hlinked : ∀ {n m}, (s.addScope scope).Links n m →
      Complete (s.addScope scope) s.nextId m := by
    intro n m hlink
    obtain hold | ⟨-, l, hl, hm⟩ := (links_addScope hopens.names).1 hlink
    · exact hcomplete (h.complete hold)
    · obtain ⟨k, hold⟩ := hopens.links_of_holds hl hm
      exact hcomplete (h.complete hold)
  constructor
  case complete => exact hlinked
  case complete_held => exact fun h => nomatch h
  case wellFounded =>
    refine wellFounded_of_new h.wellFounded fun m n hlink => ?_
    refine ((links_addScope hopens.names).1 hlink).imp_right ?_
    rintro ⟨rfl, -⟩ k hk'
    exact (hlinked hk').2 _ rfl (haround.2 (.inl rfl))
  case reached =>
    intro m hm hb
    obtain hold | rfl := hm.of_addScope
    · obtain ⟨a, ha, hlead⟩ := h.reached m hold hb
      have hmono := LeadsTo.mono (fun hlink => (links_addScope hopens.names).2 (.inl hlink)) hlead
      exact ⟨a, ha.keeps hk fun hx => haround.2 (.inr hx), hmono⟩
    · exact ⟨_, .around hnew (haround.2 (.inl rfl)), .refl⟩
  case older => exact h.older
  case inverse => exact h.inverse

/-- A scope that is closed is held, if it is no proxy. -/
theorem leave {id : ScopeId} {scope : Scope} (h : LinksSettled s id none) (hr : s.Rooted)
    (hs : s.scope? id = some scope) (hp : scope.parent = some d) :
    LinksSettled s d (if scope.isProxy then none else some (scope.item id).node) := by
  have haround : ∀ {x}, s.Around id x ↔ x = id ∨ s.Around d x := hr.around_child hs hp
  have hcomplete : ∀ {m}, Complete s id m → Complete s d m := fun hm =>
    ⟨hm.1, fun x hx hopen => hm.2 x hx (haround.2 (.inr hopen))⟩
  constructor
  case complete => exact fun hlink => hcomplete (h.complete hlink)
  case complete_held =>
    intro m hm
    split at hm
    · cases hm
    · rename_i hproxy
      cases hm
      refine ⟨isNode_item hs (by simpa using hproxy), fun x hx hopen => ?_⟩
      rw [scope.item_node_scope?] at hx
      cases hx
      have hle := hr.around_le (hr.has_parent hs hp) hopen
      have hlt := hr.parent_lt hs hp
      omega
  case wellFounded => exact h.wellFounded
  case reached =>
    intro m hm hb
    obtain ⟨a, ha, hlead⟩ := h.reached m hm hb
    refine ⟨a, ?_, hlead⟩
    cases ha with
    | @around x found hfound hx =>
      obtain rfl | hx := haround.1 hx
      · rw [hs] at hfound
        cases hfound
        cases hproxy : scope.isProxy with
        | true => exact .proxy hs hproxy
        | false => exact .held rfl
      · exact .around hfound hx
    | proxy hs hp => exact .proxy hs hp
    | held h => cases h
  case older => exact h.older
  case inverse => exact h.inverse

/-- An applied type that is found takes the place of its element. -/
theorem intern_found {t : ParamType} {id : ParamId}
    (h : LinksSettled s d (t.elem?.map Node.type)) (hfound : s.types.find? t = some id) :
    LinksSettled s d (some (.type (.param id))) := by
  have ht : s.param? id = some t := (h.inverse t id).1 hfound
  refine h.take ⟨⟨t, ht⟩, fun x hx => nomatch hx⟩ fun k hk => ?_
  obtain ⟨u, hu, rfl⟩ := Option.map_eq_some_iff.1 hk
  exact .part ht (.elem hu)

/-- What a new applied type refers to is complete already. -/
theorem complete_of_intern {t : ParamType} (h : LinksSettled s d (t.elem?.map Node.type))
    {n m : Node} (hlink : (s.intern t).Links n m) : Complete s d m := by
  obtain hlink | ⟨-, -, htakes⟩ := links_intern.1 hlink
  · exact h.complete hlink
  · cases htakes with
    | length _ => exact ⟨trivial, fun x hx => nomatch hx⟩
    | elem hu => exact h.complete_held (by rw [hu]; rfl)

/-- An applied type that is new takes the place of its element. -/
theorem intern_new {t : ParamType} (h : LinksSettled s d (t.elem?.map Node.type)) (hr : s.Rooted)
    (hd : s.Has d) (hnone : s.types.find? t = none) :
    LinksSettled (s.intern t) d (some (.type (.param ⟨s.types.size⟩))) := by
  have hsame : s.SameShapes (s.intern t) := .of_scopes_eq rfl
  have hk := hsame.keeps
  have hr' := hsame.rooted hr
  have hcomplete : ∀ {m}, Complete s d m → Complete (s.intern t) d m :=
    fun hm => hm.keeps hk hr hr' hd (s.types.types_prefix_intern t)
  have hfresh : ¬ IsNode s (.type (.param ⟨s.types.size⟩)) := by
    rintro ⟨u, hu⟩
    rw [show s.param? _ = none from s.types.get?_size] at hu
    cases hu
  constructor
  case complete => exact fun hlink => hcomplete (h.complete_of_intern hlink)
  case complete_held =>
    rintro _ ⟨⟩
    exact ⟨⟨t, (param?_intern _ _ _).trans (if_pos ⟨hnone, rfl⟩)⟩, fun x hx => nomatch hx⟩
  case wellFounded =>
    refine wellFounded_of_new h.wellFounded fun m n hlink => ?_
    refine (links_intern.1 hlink).imp_right ?_
    rintro ⟨-, rfl, -⟩ k hk'
    exact hfresh (h.complete_of_intern hk').1
  case reached =>
    intro m hm hb
    by_cases hnew : m = .type (.param ⟨s.types.size⟩)
    · exact ⟨m, .held (by rw [hnew]), .refl⟩
    · obtain ⟨a, ha, hlead⟩ := h.reached m (hm.of_intern hnew) hb
      have hlead := LeadsTo.mono (fun hlink => links_intern (t := t).2 (.inl hlink)) hlead
      obtain ha | heq := ha.cases_held
      · exact ⟨a, (ha _).keeps hk (around_keeps hk hr hr' hd).2, hlead⟩
      · obtain ⟨u, hu, rfl⟩ := Option.map_eq_some_iff.1 heq
        exact ⟨_, .held rfl, .head (links_intern.2 (.inr ⟨hnone, rfl, .elem hu⟩)) hlead⟩
  case older =>
    intro id u e hu he
    rw [param?_intern] at hu
    split at hu
    · rename_i hnew
      obtain ⟨-, rfl⟩ := hnew
      cases hu
      obtain ⟨⟨v, hv⟩, -⟩ := h.complete_held (m := .type (.param e)) (by rw [he]; rfl)
      exact (List.getElem?_eq_some_iff.1 hv).1
    · exact h.older hu he
  case inverse => exact h.inverse.intern t

theorem intern {t : ParamType} (h : LinksSettled s d (t.elem?.map Node.type)) (hr : s.Rooted)
    (hd : s.Has d) : LinksSettled (s.intern t) d (some (.type (.param (s.types.intern t).1))) := by
  cases hfound : s.types.find? t with
  | some id =>
    have hsame : s.intern t = s := by
      unfold Schema.intern
      rw [TypeCache.intern_of_found hfound]
    rw [hsame, TypeCache.intern_of_found hfound]
    exact h.intern_found hfound
  | none =>
    rw [TypeCache.intern_of_new hfound]
    exact h.intern_new hr hd hfound

end LinksSettled

/-! ## Fields -/

section

variable {d : ScopeId} {t : TypeRef} {names : List Ident} {s s' : Schema}

theorem AddsFields.linksSettled (h : AddsFields d t names s s') (hr : s.Rooted) (hd : s.Has d)
    (hs : LinksSettled s d (some (.type t))) : LinksSettled s' d (some (.type t)) := by
  induction h with
  | nil => exact hs
  | @warn names s s' f h ih =>
    have hsame : s.SameShapes (s.addWarning f) := .of_scopes_eq rfl
    exact ih (hsame.rooted hr) (hsame.keeps.has hd)
      (hs.relink hr hd hsame rfl fun _ _ => links_addWarning)
  | @cons name names s s' layout hl hnew h ih =>
    have hsame := SameShapes.modifyLayout s d (·.addField name.text ⟨t, name.position⟩)
    refine ih (hsame.rooted hr) (hsame.keeps.has hd) (hs.link hr hd hsame rfl
      (fun n m => links_addField hl hnew) ?_)
    rintro n m ⟨rfl, rfl⟩
    exact ⟨⟨d, rfl, hr.around_self hd⟩, hs.complete_held rfl⟩

theorem AddsFields.links_mono (h : AddsFields d t names s s') {n m : Node} (hlink : s.Links n m) :
    s'.Links n m := by
  induction h with
  | nil => exact hlink
  | warn f _ ih => exact ih (links_addWarning.2 hlink)
  | cons hl hnew _ ih =>
    exact ih ((links_addField hl hnew).2 (.inl hlink))

/-- If there is a field at all, its struct leads to its type. -/
theorem AddsFields.links (h : AddsFields d t names s s') (hnames : names ≠ []) :
    (∃ layout, s.layout? d = some layout) ∧ s'.Links (.type (.struct d)) (.type t) := by
  induction h with
  | nil => exact absurd rfl hnames
  | @warn names s s' f h ih => exact ih hnames
  | @cons name names s s' layout hl hnew h ih =>
    exact ⟨⟨layout, hl⟩, h.links_mono ((links_addField hl hnew).2 (.inr ⟨rfl, rfl⟩))⟩

/-- The type that fields have been given is not held any longer. -/
theorem AddsFields.drop (h : AddsFields d t names s s') (hnames : names ≠ []) (hr : s.Rooted)
    (hd : s.Has d) (hs : LinksSettled s d (some (.type t))) : LinksSettled s' d none := by
  have hadded := h.framed hr
  obtain ⟨⟨layout, hl⟩, hlink⟩ := h.links hnames
  obtain ⟨scope, hscope, hlayout⟩ := Option.bind_eq_some_iff.1 hl
  obtain ⟨scope', hscope', heq⟩ := hadded.keeps _ _ hscope
  have hstruct : scope'.isStruct = true := by
    rw [Scope.isStruct_eq heq, Scope.isStruct_iff]
    exact ⟨layout, hlayout⟩
  have hself := hadded.rooted.around_self (has_of_scope? hscope')
  refine (h.linksSettled hr hd hs).drop (.inr ⟨_, .around hscope' hself, .single ?_⟩)
  rw [Scope.item_of_isStruct hstruct]
  exact hlink

end

/-! ## Declarations -/

/-- The node that is to be held when a job is done. -/
def Job.held : Job → Option Node
  | .scope new _ id => if new.isProxy then none else some (new.item id).node
  | .type _ t => some (.type t)
  | .applied _ t => t.elem?.map Node.type
  | .meaning _ item => some item.node
  | .length _ | .bound _ _ | .statement _ | .statements _ => none

section

variable {ms : List Compilation} {d : ScopeId} {s s' : Schema}

/-- A name that was free before is free when what it stands for has been made. -/
theorem Makes.free {st : Statement} {item : Item} (h : Makes ms d (.meaning st item) s s')
    (hr : s.Rooted) (hd : s.Has d) {name : String} (hfree : s.getLocal? d name = none) :
    s'.getLocal? d name = none := by
  have hframed : Framed none s s' := h.framed hr hd
  rw [hframed.local_eq hd (by simp), hfree]

theorem LinksSettled.bind {item : Item} (h : LinksSettled s d (some item.node)) (hr : s.Rooted)
    (hd : s.Has d) {name : String} (hfree : s.getLocal? d name = none) :
    LinksSettled (s.bind d name item) d none ∧ ∃ n, (s.bind d name item).Links n item.node := by
  have hsame := SameShapes.bind s d name item
  have hr' := hsame.rooted hr
  have howner := around_namesOwner hr hd
  obtain ⟨owner, ho, -, -⟩ := hr.namesOwner_spec hd
  obtain ⟨owner', ho', -⟩ := hsame.keeps _ _ ho
  have hlink : (s.bind d name item).Links (owner'.item (s.namesOwner d)).node item.node :=
    (links_bind hr hd hfree).2 (.inr ⟨owner'.item_node_scope? _, rfl⟩)
  have hlinked : LinksSettled (s.bind d name item) d (some item.node) := by
    refine h.link hr hd hsame rfl (fun n m => links_bind hr hd hfree) ?_
    rintro n m ⟨hn, rfl⟩
    exact ⟨⟨_, hn, howner⟩, h.complete_held rfl⟩
  have howner' := (around_keeps hsame.keeps hr hr' hd).2 howner
  exact ⟨hlinked.drop (.inr ⟨_, .around ho' howner', .single hlink⟩), _, hlink⟩

theorem Makes.links_of_bound {st : Statement} {item : Item}
    (h : Makes ms d (.bound st item) s s') (hr : s.Rooted) (hd : s.Has d) :
    ∃ n, s'.Links n item.node := by
  cases h with
  | bound _ hfree h =>
    have hframed := h.framed hr hd
    have hfree' := h.free hr hd hfree
    obtain ⟨owner, ho, -, -⟩ := hframed.rooted.namesOwner_spec (hframed.keeps.has hd)
    exact ⟨.space _, (links_bind hframed.rooted (hframed.keeps.has hd) hfree').2 (.inr ⟨rfl, rfl⟩)⟩

theorem Makes.linksSettled {job : Job} (h : Makes ms d job s s') (hr : s.Rooted) (hd : s.Has d)
    (hs : LinksSettled s d none) : LinksSettled s' d job.held := by
  induction h with
  | @scope d task scope body s s' hopens h ih =>
    have hk := keeps_addScope s scope
    have hr' := hr.addScope hd hopens.parent
    have hnew := scope?_addScope_self s scope
    have hframed := h.framed hr' (has_of_scope? hnew)
    obtain ⟨scope', hscope', heq⟩ := hframed.keeps _ _ hnew
    have hinside := ih hr' (has_of_scope? hnew) (hs.enter hr hd hopens)
    have hleft := hinside.leave hframed.rooted hscope'
      (by rw [Scope.parent_eq heq, hopens.parent])
    rwa [Scope.isProxy_eq heq, Scope.item_shape heq] at hleft
  | builtin _ _ =>
    exact hs.take ⟨trivial, fun x hx => nomatch hx⟩ fun _ hk => nomatch hk
  | application _ h ih =>
    have hframed := h.framed hr hd
    exact (ih hr hd hs).intern hframed.rooted (hframed.keeps.has hd)
  | named _ hfound =>
    obtain ⟨n, hlink⟩ := links_of_lookup? hfound
    exact hs.take (hs.complete hlink) fun _ hk => nomatch hk
  | grouped _ ih => exact ih hr hd hs
  | inline _ ih => exact ih hr hd hs
  | word _ => exact hs
  | counted _ _ ih => exact (ih hr hd hs).drop (.inl ⟨_, rfl⟩)
  | @plain d args t s _ ht =>
    rw [show (Job.applied args t).held = none by simp [Job.held, ht]]
    exact hs
  | @measured d a args t s s' _ ht _ ih =>
    rw [show (Job.applied (a :: args) t).held = none by simp [Job.held, ht]]
    exact ih hr hd hs
  | array hl _ _ ihl ih =>
    have hframed := hl.framed hr hd
    exact ih hframed.rooted (hframed.keeps.has hd) (ihl hr hd hs)
  | boolOptional _ _ ih => exact ih hr hd hs
  | @opened d st scope body id s s' hst _ ih =>
    have hheld : LinksSettled s' d (if scope.isProxy then none else some (scope.item id).node) :=
      ih hr hd hs
    rwa [hst.isProxy] at hheld
  | assigned _ _ ih => exact ih hr hd hs
  | bound _ hfree h ih =>
    have hframed := h.framed hr hd
    have hfree' := h.free hr hd hfree
    exact ((ih hr hd hs).bind hframed.rooted (hframed.keeps.has hd) hfree').1
  | declared _ _ ih => exact ih hr hd hs
  | @variant d p name body id a path layout s s' hclimb hpath h hl hnew ih =>
    have hframed := h.framed hr hd
    have hbound := ih hr hd hs
    obtain ⟨n, hlink⟩ := h.links_of_bound hr hd
    have hbase := (around_keeps hframed.keeps hr hframed.rooted hd).2 (around_base hclimb)
    refine hbound.link hframed.rooted (hframed.keeps.has hd) (.modifyLayout _ _ _) rfl
      (fun n m => links_addBranch hl hnew) ?_
    rintro n m ⟨rfl, rfl⟩
    exact ⟨⟨a.base, rfl, hbase⟩, hbound.complete hlink⟩
  | @proxy d p kind body id s s' hk _ ih =>
    have hheld : LinksSettled s' d (if kind.isProxy then none else _) := ih hr hd hs
    rwa [hk] at hheld
  | constraint name value hl =>
    exact hs.relink hr hd (.modifyLayout _ _ _) rfl fun _ _ => links_addConstraint hl
  | fields hnames h hadds ih =>
    have hframed := h.framed hr hd
    exact hadds.drop hnames hframed.rooted (hframed.keeps.has hd) (ih hr hd hs)
  | nil => exact hs
  | cons h _ ih ihrest =>
    have hframed := h.framed hr hd
    exact ihrest hframed.rooted (hframed.keeps.has hd) (ih hr hd hs)

end

theorem linksSettled_of_ok {options : Options} {sources : List (String × String)} {s : Schema}
    (h : ofSources options sources = .ok s) : s.Rooted ∧ s.Has root ∧ LinksSettled s root none := by
  have hmakes := makes_of_ok h
  have hhas : Schema.empty.Has root := Nat.zero_lt_one
  have hframed := hmakes.framed rooted_empty hhas
  exact ⟨hframed.rooted, hframed.keeps.has hhas, hmakes.linksSettled rooted_empty hhas .empty⟩

end Compilation

end PacketSchema
