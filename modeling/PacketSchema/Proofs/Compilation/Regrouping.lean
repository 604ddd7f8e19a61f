import PacketSchema.Proofs.Compilation.Grouping
import PacketSchema.Proofs.Compilation.Joining
import PacketSchema.Proofs.Compilation.Referring

/-! Declarations that are put into a proxy of their own, compiled beside the same declarations
without it. What comes in front of them is compiled in the same schema, and what comes behind them
in schemas that differ by the proxy. -/

namespace PacketSchema

namespace Compilation

open Schema Grouping

/-- A schema with all that it refers to, and a scope of it. -/
structure Ready (s : Schema) (d : ScopeId) : Prop where
  rooted : s.Rooted
  has : s.Has d
  steady : ∀ {f : ScopeId → ScopeId}, Function.Injective f → (∀ x, s.Has x → f x = x) →
    Steady f s

/-- In the scope there may be a proxy. -/
structure TakesProxies (s : Schema) (d : ScopeId) : Prop where
  layout : ∃ layout, s.layout? d = some layout
  climbs : (climb none none (s.chain d)).isSome = true

section
variable {s s' : Schema} {d : ScopeId}

theorem Ready.makes (h : Ready s d) {ms : List Compilation} {job : Job}
    (hm : Makes ms d job s s') : s.Keeps s' ∧ Ready s' d := by
  have hframed := hm.framed h.rooted h.has
  refine ⟨hframed.keeps, hframed.rooted, hframed.keeps.has h.has, fun hf hfix => ?_⟩
  have hbefore := h.steady hf fun x hx => hfix x (hframed.keeps.has hx)
  exact (hm.steady hf h.rooted h.has hfix hbefore).1

theorem Ready.addScope (h : Ready s d) {task : Task} {scope : Scope}
    (hopens : Opens s d task scope) : Ready (s.addScope scope) s.nextId := by
  refine ⟨h.rooted.addScope h.has hopens.parent, has_addScope s scope, fun hf hfix => ?_⟩
  have hfix' := fun x (hx : s.Has x) => hfix x ((keeps_addScope s scope).has hx)
  have hsteady := h.steady hf hfix'
  exact hsteady.addScope (hopens.renumber_eq h.rooted h.has hfix' hsteady)

theorem TakesProxies.keeps (h : TakesProxies s d) (hk : s.Keeps s') (hr : s.Rooted)
    (hr' : s'.Rooted) (hd : s.Has d) : TakesProxies s' d :=
  ⟨hk.layout? h.layout, by rw [climb_keeps hk hr hr' hd]; exact h.climbs⟩

theorem climb_cons_isSome {id : ScopeId} {scope : Scope} {links : List (ScopeId × Scope)}
    (hstruct : scope.isStruct = true)
    (hproxy : scope.isProxy = true → (climb none none links).isSome = true) :
    (climb none none ((id, scope) :: links)).isSome = true := by
  obtain ⟨name, parent, position, kind, names⟩ := scope
  cases kind with
  | space => cases hstruct
  | struct _ => rfl
  | variant _ _ _ => rfl
  | proxy _ _ =>
    have hsome := congrArg Option.isSome (climb_base_path (some id) none links)
    rw [Option.isSome_map, Option.isSome_map, hproxy rfl] at hsome
    exact hsome

/-- Proxies may stand in a new struct or variant, and in a new proxy too. -/
theorem TakesProxies.addScope (h : Ready s d) {task : Task} {scope : Scope}
    (hopens : Opens s d task scope) (hstruct : scope.isStruct = true) :
    TakesProxies (s.addScope scope) s.nextId := by
  have hnew := scope?_addScope_self s scope
  have hr' := h.rooted.addScope h.has hopens.parent
  obtain ⟨layout, hlayout⟩ := Scope.isStruct_iff.1 hstruct
  refine ⟨⟨layout, Option.bind_eq_some_iff.2 ⟨scope, hnew, hlayout⟩⟩, ?_⟩
  rw [hr'.chain_child hnew hopens.parent]
  refine climb_cons_isSome hstruct fun hproxy => ?_
  rw [climb_keeps (keeps_addScope s scope) h.rooted hr' h.has]
  cases hopens with
  | space _ _ => cases hproxy
  | struct _ _ => cases hproxy
  | inline _ => cases hproxy
  | @arm name a p hclimb =>
    have hsome := climb_path_isSome hclimb
    have hpath : a.path.isSome = false := by
      have hkind := a.kind_isProxy (((s.layout? a.source).map Layout.snapshot).getD {})
      simpa [Scope.isProxy, hkind] using hproxy
    cases name with
    | some name => simp [hpath] at hsome
    | none => exact Option.isSome_iff_exists.2 ⟨a, hclimb⟩

theorem Ready.opened (h : Ready s d) {task : Task} {scope : Scope} (hopens : Opens s d task scope)
    (hs : s' = s.addScope scope) :
    Ready s' s.nextId ∧ (scope.isStruct = true → TakesProxies s' s.nextId) := by
  subst hs
  exact ⟨h.addScope hopens, TakesProxies.addScope h hopens⟩

end

/-- From the same state, compiling without a proxy and with it comes to the same but for it. -/
def Regroups {α : Type} (V : Grouping → α → α → Prop) (c : Compilation) (x y : Build α) : Prop :=
  Agree (fun a c₁ b c₁' => ∃ g next, c.schema.scopes.length ≤ g.proxy.index ∧ V g a b ∧
    Abreast g (.behind next) c₁ c₁') (x.run c) (y.run c)

/-- A run that leaves the schema as it is, and what it tells about it. -/
def Still {α : Type} (x : Build α) (R : Schema → α → Prop) : Prop :=
  ∀ c a c', x.run c = (.ok a, c') → c'.schema = c.schema ∧ R c.schema a

namespace Still

theorem get : Still get fun s c => c.schema = s := by
  intro c a c' h
  cases h
  exact ⟨rfl, rfl⟩

theorem report (e : Event) : Still (report e) fun _ _ => True := by
  intro c a c' h
  cases h
  exact ⟨rfl, trivial⟩

theorem checkFree (d : ScopeId) (name : Ident) : Still (checkFree d name) fun _ _ => True := by
  intro c a c' h
  obtain ⟨-, hschema, -⟩ := performs_of_run (Mirrors.checkFree (r := .same) d name)
    (fun _ => Performs.checkFree d name) h
  exact ⟨hschema, trivial⟩

theorem checkFree? (d : ScopeId) (name : Option Ident) :
    Still (name.forM (Compilation.checkFree d)) fun _ _ => True := by
  intro c a c' h
  cases name with
  | none =>
    cases h
    exact ⟨rfl, trivial⟩
  | some name => exact checkFree d name _ _ _ h

theorem anchor (d : ScopeId) (name : Option String) (p : Position) :
    Still (anchor d name p) fun s a => climb none (name.map ([·])) (s.chain d) = some a := by
  intro c a c' h
  obtain ⟨-, hschema, hclimb⟩ := performs_of_run (Mirrors.anchor (r := .same) d name p)
    (fun _ => Performs.anchor d name p) h
  exact ⟨hschema, hclimb⟩

theorem takeSnapshot (source : ScopeId) : Still (takeSnapshot source) fun s layout =>
    layout = ((s.layout? source).map Layout.snapshot).getD {} := by
  intro c a c' h
  cases h
  exact ⟨rfl, rfl⟩

end Still

theorem pairs_of_lt {g : Grouping} {next : Nat} {x : ScopeId} (h : x.index < g.proxy.index) :
    g.Pairs (.behind next) x x :=
  .inl ⟨admits_of_lt h, (shift_of_lt h).symm⟩

namespace Regroups

variable {α β : Type} {V : Grouping → α → α → Prop} {W : Grouping → β → β → Prop}
  {c : Compilation} {x y : Build α} {f f' : α → Build β}

theorem throw {e e' : SchemaError} (h : e'.unnumbered = e.unnumbered) :
    Regroups V c (throw e) (throw e') := h

/-- What is compiled behind the proxy. -/
theorem bind (h : Regroups V c x y)
    (hf : ∀ g next a b, c.schema.scopes.length ≤ g.proxy.index → V g a b →
      Matches g (.behind next) (W g) (f a) (f' b)) : Regroups W c (x >>= f) (y >>= f') := by
  unfold Regroups at h ⊢
  rw [run_bind, run_bind]
  generalize x.run c = r at h
  generalize y.run c = r' at h
  obtain ⟨e | a, c₁⟩ := r <;> obtain ⟨e' | b, c₁'⟩ := r'
  · exact h
  · cases h
  · cases h
  · obtain ⟨g, next, hle, hV, habreast⟩ := h
    exact (hf g next a b hle hV c₁ c₁' habreast).imp fun _ _ _ _ hagree => ⟨g, next, hle, hagree⟩

/-- What is compiled in front of the proxy. -/
theorem after (h : ∀ a c₁, x.run c = (.ok a, c₁) →
      c.schema.scopes.length ≤ c₁.schema.scopes.length ∧ Regroups W c₁ (f a) (f' a)) :
    Regroups W c (x >>= f) (x >>= f') := by
  unfold Regroups
  rw [run_bind, run_bind]
  rcases hrun : x.run c with ⟨e | a, c₁⟩
  · exact rfl
  · obtain ⟨hle, hagree⟩ := h a c₁ hrun
    exact hagree.imp fun _ _ _ _ ⟨g, next, hproxy, hrest⟩ =>
      ⟨g, next, Nat.le_trans hle hproxy, hrest⟩

theorem still {R : Schema → α → Prop} (hx : Still x R)
    (h : ∀ a c₁, c₁.schema = c.schema → R c.schema a → Regroups W c₁ (f a) (f' a)) :
    Regroups W c (x >>= f) (x >>= f') := by
  refine after fun a c₁ hrun => ?_
  obtain ⟨hschema, hR⟩ := hx c a c₁ hrun
  exact ⟨Nat.le_of_eq (by rw [hschema]), h a c₁ hschema hR⟩

section

variable {scope : Scope} {inside inside' : ScopeId → Build Unit}
  (h : ∀ c₁, c₁.schema = c.schema.addScope scope →
    Regroups (fun _ => Eq) c₁ (inside c.schema.nextId) (inside' c.schema.nextId))

include h

theorem addScopeWith :
    Regroups (fun g id id' => id' = g.shift id) c (addScopeWith scope inside)
      (addScopeWith scope inside') := by
  have hinside : Regroups (fun g id id' => id' = g.shift id)
      { c with schema := c.schema.addScope scope }
      (inside c.schema.nextId >>= fun _ => Pure.pure c.schema.nextId)
      (inside' c.schema.nextId >>= fun _ => Pure.pure c.schema.nextId) := by
    refine (h _ rfl).bind fun g next _ _ hle _ => .pure ?_
    rw [shift_of_lt]
    exact Nat.lt_of_lt_of_le (has_addScope c.schema scope) hle
  refine after fun a c₁ hrun => ?_
  cases hrun
  exact ⟨by simp [Schema.addScope], hinside⟩

end

theorem addStruct {d : ScopeId} {name : Option String} {p : Position}
    {inside inside' : ScopeId → Build Unit}
    (h : ∀ c₁, c₁.schema = c.schema.addScope ⟨name, some d, some p, .struct {}, {}⟩ →
      Regroups (fun _ => Eq) c₁ (inside c.schema.nextId) (inside' c.schema.nextId)) :
    Regroups (fun g t t' => t' = t.renumber g.shift) c (addStruct d name p inside)
      (addStruct d name p inside') :=
  (addScopeWith h).bind fun _ _ _ _ _ hid => .pure (hid ▸ rfl)

section

variable {d : ScopeId} (hd : c.schema.Has d) {p : Position}

include hd

theorem addSpace {name : Ident} {inside inside' : ScopeId → Build Unit}
    (h : ∀ c₁, c₁.schema = c.schema.addScope ⟨some name.text, some d, some p, .space, {}⟩ →
      Regroups (fun _ => Eq) c₁ (inside c.schema.nextId) (inside' c.schema.nextId)) :
    Regroups (fun _ => Eq) c (addSpace d name p inside) (addSpace d name p inside') := by
  refine still (.checkFree d name) fun _ c₁ hc₁ _ => still (.report _) fun _ c₂ hc₂ _ => ?_
  rw [← hc₁, ← hc₂] at h hd
  refine (addScopeWith h).bind fun g next id _ hle hid => ?_
  subst hid
  exact .bindName (pairs_of_lt (Nat.lt_of_lt_of_le hd hle)) name.text (.space id)

theorem addType {name : Ident} {r r' : Build TypeRef}
    (h : ∀ c₁, c₁.schema = c.schema →
      Regroups (fun g t t' => t' = t.renumber g.shift) c₁ r r') :
    Regroups (fun _ => Eq) c (addType d name p r) (addType d name p r') := by
  refine still (.checkFree d name) fun _ c₁ hc₁ _ => still (.report _) fun _ c₂ hc₂ _ => ?_
  rw [← hc₁, ← hc₂] at hd
  refine (h c₂ (hc₂.trans hc₁)).bind fun g next t _ hle ht => ?_
  subst ht
  exact .bindName (pairs_of_lt (Nat.lt_of_lt_of_le hd hle)) name.text (.type t)

theorem addVariant {name : Option Ident} {inside inside' : ScopeId → Build Unit}
    (hr : c.schema.Rooted)
    (h : ∀ scope, Opens c.schema d (.ofName (name.map Ident.text)) scope →
      scope.isStruct = true → ∀ c₁, c₁.schema = c.schema.addScope scope →
        Regroups (fun _ => Eq) c₁ (inside c.schema.nextId) (inside' c.schema.nextId)) :
    Regroups (fun _ => Eq) c (addVariant d name p inside) (addVariant d name p inside') := by
  refine still (.checkFree? d name) fun _ c₁ hc₁ _ =>
    still (.anchor d (name.map Ident.text) p) fun a c₂ hc₂ hclimb =>
    still (.takeSnapshot a.source) fun layout c₃ hc₃ hlayout =>
    still .get fun _ c₄ hc₄ _ => still (.report _) fun _ c₅ hc₅ _ => ?_
  rw [← hc₁] at hr h hd
  subst hlayout
  rw [hc₂]
  have hopens := Opens.arm (name.map Ident.text) p hclimb
  have hbase : c₁.schema.Has a.base :=
    Nat.lt_of_le_of_lt (hr.around_le hd (around_base hclimb)) hd
  have hsame : c₅.schema = c₁.schema := hc₅.trans (hc₄.trans (hc₃.trans hc₂))
  rw [← hsame] at h hd hopens hbase ⊢
  refine (addScopeWith (h _ hopens ?_)).bind fun g next id _ hle hid => ?_
  · simp [Scope.isStruct, Scope.layout?, Anchor.kind_layout?]
  · subst hid
    have hregister : Matches g (.behind next) Eq _ _ := .addBranch a.base (a.path.getD []) id p
    rw [shift_of_lt (Nat.lt_of_lt_of_le hbase hle)] at hregister
    split
    · rename_i text path _ hpath
      rw [hpath] at hregister
      exact (Matches.bindName (pairs_of_lt (Nat.lt_of_lt_of_le hd hle)) text
        (.type (.struct id))).bind fun _ _ _ => hregister
    · exact .pure rfl

end

/-! ## Arguments -/

section

variable {d : ScopeId} {a a' : TypeArg} (ha : a.Groups a')
  (h : Regroups (fun g t t' => t' = t.renumber g.shift) c (resolveArg d a) (resolveArg d a'))

include ha

theorem encoding {γ : Type} {U : Grouping → γ → γ → Prop} (owner : Builtin)
    (ofName? : String → Option γ) :
    Regroups U c (Argument.encoding ⟨a, resolveArg d a⟩ owner ofName?)
      (Argument.encoding ⟨a', resolveArg d a'⟩ owner ofName?) := by
  have herror := congrArg (SchemaError.badArguments · owner.name .encodingExpected) ha.position_eq
  cases ha with
  | type _ => exact congrArg SchemaError.unnumbered herror

include h

theorem length (owner : Builtin) :
    Regroups (fun _ => Eq) c (Argument.length ⟨a, resolveArg d a⟩ owner)
      (Argument.length ⟨a', resolveArg d a'⟩ owner) := by
  have hprefixed : Regroups (fun _ => Eq) c (Argument.prefixedLength ⟨a, resolveArg d a⟩ owner)
      (Argument.prefixedLength ⟨a', resolveArg d a'⟩ owner) := by
    refine Regroups.bind h fun g next t _ _ ht => ?_
    subst ht
    have hp : (⟨a', resolveArg d a'⟩ : Argument Build).position = a.position := ha.position_eq
    rw [hp]
    exact Matches.prefixedLength (a := ⟨a, Pure.pure t⟩) (b := ⟨a, Pure.pure (t.renumber g.shift)⟩)
      ⟨rfl, .pure rfl⟩ owner
  cases ha with
  | type _ => exact hprefixed

end

/-- What is compiled behind a length that is the same. -/
theorem after_length {d : ScopeId} {l : TypeArg} (hready : Ready c.schema d) (hl : l.NamesFields)
    (owner : Builtin) {f f' : Length → Build β}
    (h : ∀ length c₁, Ready c₁.schema d → Regroups W c₁ (f length) (f' length)) :
    Regroups W c (Argument.length ⟨l, resolveArg d l⟩ owner >>= f)
      (Argument.length ⟨l, resolveArg d l⟩ owner >>= f') := by
  have hmirrors : Argument.Mirrors .same ⟨l, resolveArg d l⟩ ⟨l, resolveArg d l⟩ := by
    have hresolve := (Mirrors.closed (r := .same)).resolveArg d l
    rw [TypeArg.reprint_same] at hresolve
    exact ⟨l.reprint_same.symm, hresolve⟩
  refine after fun length c₁ hrun => ?_
  obtain ⟨ms, hmakes⟩ := performs_of_run (Mirrors.length hmirrors owner)
    (fun _ => Performs.length (Performs.closed.resolveArg d l hl) owner) hrun
  obtain ⟨hk, hready'⟩ := hready.makes hmakes
  exact ⟨hk.length_le, h length c₁ hready'⟩

theorem isEmpty_arguments (d : ScopeId) (front : List TypeArg) (a : TypeArg)
    (back : List TypeArg) : (arguments (m := Build) d (front ++ a :: back)).isEmpty = false := by
  cases front <;> rfl

section

variable {d : ScopeId} {a a' : TypeArg} (ha : a.Groups a') (hready : Ready c.schema d)
  (h : ∀ {c}, Ready c.schema d →
    Regroups (fun g t t' => t' = t.renumber g.shift) c (resolveArg d a) (resolveArg d a'))
  {front back : List TypeArg} (hfront : TypeArg.AllNameFields front)

include ha hready h hfront

theorem paramType? (b : Builtin) :
    Option.Rel (Regroups (fun g t t' => t' = t.renumber g.shift) c)
      (paramType? b (arguments d (front ++ a :: back)))
      (paramType? b (arguments d (front ++ a' :: back))) := by
  have hpairs : ∀ {g : Grouping} (next : Nat), c.schema.scopes.length ≤ g.proxy.index →
      g.Pairs (.behind next) d d := fun _ hle => pairs_of_lt (Nat.lt_of_lt_of_le hready.has hle)
  match front, back, hfront with
  | [], [], _ =>
    cases b
    case string => exact .some ((length ha (h hready) _).bind fun _ _ _ _ _ hl => .pure (hl ▸ rfl))
    case bytes => exact .some ((length ha (h hready) _).bind fun _ _ _ _ _ hl => .pure (hl ▸ rfl))
    case uuid =>
      exact .some ((encoding (U := fun _ => Eq) ha _ _).bind fun _ _ _ _ _ he => .pure (he ▸ rfl))
    case boolOptional => exact .some ((h hready).bind fun _ _ _ _ _ ht => .pure (ht ▸ rfl))
    all_goals exact .none
  | [], [e], _ =>
    cases b
    case string =>
      refine .some ((length ha (h hready) _).bind fun g next _ _ hle hl => ?_)
      have he : (⟨e, resolveArg d e⟩ : Argument Build).Matches g (.behind next)
        ⟨e, resolveArg d e⟩ := ⟨rfl, Matches.closed.resolveArg d e d (hpairs next hle)⟩
      exact (Matches.encoding he _ _).bind fun _ _ he => .pure (hl ▸ he ▸ rfl)
    case array =>
      exact .some ((length ha (h hready) _).bind fun g next _ _ hle hl =>
        (Matches.closed.resolveArg d e d (hpairs next hle)).bind fun _ _ ht => .pure (hl ▸ ht ▸ rfl))
    all_goals exact .none
  | [l], [], hfront =>
    cases b
    case string =>
      exact .some (after_length hready hfront.1 _ fun _ _ _ =>
        (encoding (U := fun _ => Eq) ha _ _).bind fun _ _ _ _ _ he => .pure (he ▸ rfl))
    case array =>
      exact .some (after_length hready hfront.1 _ fun _ _ hready' =>
        (h hready').bind fun _ _ _ _ _ ht => .pure (ht ▸ rfl))
    all_goals exact .none
  | [], _ :: _ :: _, _ => exact .none
  | [_], _ :: _, _ => exact .none
  | _ :: _ :: [], _, _ => exact .none
  | _ :: _ :: _ :: _, _, _ => exact .none

theorem apply (b : Builtin) (p : Position) :
    Regroups (fun g t t' => t' = t.renumber g.shift) c
      (apply b p (arguments d (front ++ a :: back)))
      (apply b p (arguments d (front ++ a' :: back))) := by
  have hparam : Option.Rel _ (Compilation.paramType? b (arguments d (front ++ a :: back))) _ :=
    paramType? ha hready h hfront b
  unfold Compilation.apply
  rw [isEmpty_arguments, isEmpty_arguments]
  generalize (Compilation.paramType? b (arguments d (front ++ a :: back)) :
    Option (Build ParamType)) = x at hparam
  generalize (Compilation.paramType? b (arguments d (front ++ a' :: back)) :
    Option (Build ParamType)) = y at hparam
  cases hparam with
  | some ht =>
    refine ht.bind fun g next t _ _ heq => ?_
    subst heq
    exact Matches.intern t
  | none =>
    simp only [Bool.not_false, Bool.or_true, if_true]
    exact throw rfl

theorem resolveName (n : Name) (p : Position) :
    Regroups (fun g t t' => t' = t.renumber g.shift) c
      (resolveName d n p (arguments d (front ++ a :: back)))
      (resolveName d n p (arguments d (front ++ a' :: back))) := by
  unfold Compilation.resolveName
  split
  · exact apply ha hready h hfront _ _
  · refine still .get fun _ c₁ _ _ => ?_
    rw [isEmpty_arguments, isEmpty_arguments]
    split <;> exact throw rfl

end

end Regroups

/-! ## The proxy -/

section

variable {c : Compilation} {d : ScopeId}

/-- A proxy is a new scope, and what is compiled in it. -/
theorem run_addProxy {a : Anchor} (ha : climb none none (c.schema.chain d) = some a)
    (p : Position) (inside : ScopeId → Build Unit) :
    ∃ c₁ : Compilation, c₁.options = c.options ∧
      c₁.schema = c.schema.addScope ⟨none, some d, some p,
        a.kind (((c.schema.layout? a.source).map Layout.snapshot).getD {}), {}⟩ ∧
      (addVariant d none p inside).run c = (inside c.schema.nextId).run c₁ := by
  have hrun : (addVariant d none p inside).run c =
      (do
        let a ← anchor d none p
        let layout ← takeSnapshot a.source
        report (.variant p a.path ((← get).schema.qualifiedName a.base))
        let _ ← addScopeWith ⟨none, some d, some p, a.kind layout, {}⟩ inside : Build Unit).run c :=
    rfl
  have hanchor := @run_anchor c d none a ha p
  let layout := ((c.schema.layout? a.source).map Layout.snapshot).getD {}
  let c₁ : Compilation := { c with
    schema := c.schema.addScope ⟨none, some d, some p, a.kind layout, {}⟩
    snapshotted := a.source :: c.snapshotted
    log := c.log ++ [.variant p a.path (c.schema.qualifiedName a.base)] }
  have hinside : (addVariant d none p inside).run c =
      ((inside c.schema.nextId >>= fun _ => pure c.schema.nextId) >>= fun _ => pure () :
        Build Unit).run c₁ := by
    rw [hrun, run_bind, hanchor]
    rfl
  refine ⟨c₁, rfl, rfl, ?_⟩
  rw [hinside]
  simp

/-- The declarations of a group come to the same in a proxy. -/
theorem Regroups.group (hready : Ready c.schema d) (htakes : TakesProxies c.schema d)
    {group : List Statement} (hgroup : ∀ st ∈ group, st.isPart = false) (q r : Position) :
    Regroups (fun _ => Eq) c (declareAll d group)
      (declare d (.variant q none (some (.mk r group)))) := by
  obtain ⟨layout, hl⟩ := htakes.layout
  obtain ⟨a, ha⟩ := Option.isSome_iff_exists.1 htakes.climbs
  obtain ⟨scope, hs, hlayout⟩ := Option.bind_eq_some_iff.1 hl
  have hpath : a.path = none := by simpa using climb_path_isSome ha
  have hsource : a.source = d := by
    have hfound := climb_source ha
    rw [chain, hs] at hfound
    simpa [Scope.isStruct_iff.2 ⟨layout, hlayout⟩] using hfound.symm
  have hkind : a.kind layout.snapshot = .proxy layout.snapshot a.base := by
    simp [Anchor.kind, hpath]
  let g : Grouping := ⟨d, c.schema.nextId, q, layout.snapshot, a.base, hready.has⟩
  obtain ⟨c₁, hoptions, hadded, hrun⟩ := run_addProxy ha q (declareAll · group)
  rw [hsource, hl, Option.map_some, Option.getD_some, hkind] at hadded
  have hsteady := hready.steady (shift_injective (g := g)) fun x hx => shift_of_lt hx
  have hlink : ∃ link ∈ c.schema.chain d, link.2.isProxy = false := by
    obtain ⟨link, hfind, -⟩ := Option.map_eq_some_iff.1 (climb_base ha)
    have hproxy := List.find?_some hfind
    exact ⟨link, List.mem_of_find?_eq_some hfind, by simpa using (Bool.and_eq_true_iff.1 hproxy).2⟩
  have hgrouped : Grouped g .within c.schema c₁.schema := by
    rw [hadded]
    exact .enter hready.rooted rfl (fun _ _ => hsteady.scope) hsteady.types hl rfl hlink
  have hmatches : Matches g .within Eq (declareAll d group) (declareAll g.proxy group) :=
    Matches.closed.declareAll d group g.proxy (.inr ⟨rfl, rfl, rfl⟩) fun st hst hpart => by
      simp [hgroup st hst] at hpart
  have hproxy : declare d (.variant q none (some (.mk r group))) =
      (Compilation.addVariant d none q (declareAll · group) : Build Unit) :=
    declare_variant ..
  unfold Regroups
  rw [hproxy, hrun]
  exact (hmatches c c₁ ⟨hoptions, hgrouped⟩).imp fun _ _ _ _ ⟨heq, habreast⟩ =>
    ⟨g, _, Nat.le_refl _, heq, habreast.options, habreast.schema.leave⟩
end

namespace Regroups

/-- Between declarations that are the same. -/
theorem amid {c : Compilation} {d : ScopeId} (hready : Ready c.schema d) {front : List Statement}
    (hfront : Statement.AllNameFields front) {x y : Build Unit}
    (h : ∀ c₁ : Compilation, c.schema.Keeps c₁.schema → Ready c₁.schema d →
      Regroups (fun _ => Eq) c₁ x y) (back : List Statement) :
    Regroups (fun _ => Eq) c
      (declareAll d front >>= fun _ => x >>= fun _ => declareAll d back)
      (declareAll d front >>= fun _ => y >>= fun _ => declareAll d back) := by
  refine after fun _ c₁ hrun => ?_
  obtain ⟨ms, hmakes⟩ := makes_of_run hrun hfront
  obtain ⟨hk, hready'⟩ := hready.makes hmakes
  refine ⟨hk.length_le, (h c₁ hk hready').bind fun g next _ _ hle _ => ?_⟩
  have hd := Nat.lt_of_lt_of_le hready'.has hle
  exact Matches.closed.declareAll d back d (pairs_of_lt hd) fun _ _ _ =>
    ⟨admits_of_lt hd, (shift_of_lt hd).symm⟩

/-- What an argument that is resolved comes to with a group in it. -/
def OfArgument (d : ScopeId) (a : TypeArg) (x : Build TypeRef) : Prop :=
  ∀ {a' : TypeArg} {c : Compilation}, a.Groups a' → Ready c.schema d → a.NamesFields →
    Regroups (fun g t t' => t' = t.renumber g.shift) c x (resolveArg d a')

/-- What a declaration comes to with a group in it. -/
def OfStatement (d : ScopeId) (st : Statement) (x : Build Unit) : Prop :=
  ∀ {st' : Statement} {c : Compilation}, st.Groups st' → Ready c.schema d → st.NamesFields →
    Regroups (fun _ => Eq) c x (declare d st')

/-- The group stands in the body, or in one of the declarations there. -/
theorem body {b b' : Body} {isStruct : Bool} (h : b.Groups isStruct b') {d : ScopeId}
    (hinside : ∀ st ∈ b.statements, OfStatement d st (declare d st)) {c : Compilation}
    (hready : Ready c.schema d) (htakes : isStruct = true → TakesProxies c.schema d)
    (hfields : b.NamesFields) :
    Regroups (fun _ => Eq) c (declareAll d b.statements) (declareAll d b'.statements) := by
  cases h with
  | here hgroup =>
    obtain ⟨hfront, -⟩ := Statement.allNameFields_append.1 hfields
    simp only [Body.statements, declareAll_append, declareAll_cons]
    refine amid hready hfront (fun c₁ hk hready' => ?_) _
    exact .group hready' ((htakes rfl).keeps hk hready.rooted hready'.rooted hready.has) hgroup _ _
  | within h =>
    obtain ⟨hfront, hst, -⟩ := Statement.allNameFields_append.1 hfields
    simp only [Body.statements, declareAll_append, declareAll_cons]
    exact amid hready hfront (fun _ _ hready' => hinside _ (by simp [Body.statements]) h hready'
      hst) _

/-- Wherever the group stands, compiling without the proxy and with it comes to the same but for
it. -/
theorem closed : Cases (m := Build)
    (fun d e x => ∀ {e' : TypeExpr} {c : Compilation}, e.Groups e' → Ready c.schema d →
      e.NamesFields → Regroups (fun g t t' => t' = t.renumber g.shift) c x (resolve d e'))
    OfArgument (fun d as _ => ∀ a ∈ as, OfArgument d a (resolveArg d a))
    OfStatement (fun d body _ => ∀ st ∈ body, OfStatement d st (declare d st)) where
  applied hargs p n e' c hgroups hready hfields := by
    cases hgroups with
    | head h => cases h
    | @param _ _ a _ front back h =>
      obtain ⟨hfront, ha, -⟩ := TypeArg.allNameFields_append.1 hfields.2
      rw [resolve_name]
      exact resolveName h hready (fun hready => hargs a (by simp) h hready ha) hfront n p
  grouped he _ _ _ hgroups hready hfields := by
    obtain ⟨_, rfl, ⟨h⟩⟩ := hgroups.of_no_params
    rw [resolve_grouped]
    exact he h hready hfields.1
  literal _ _ _ _ _ hgroups _ _ := by
    obtain ⟨_, -, h⟩ := hgroups.of_no_params
    cases h
  headed hhead hparams _ _ _ _ hgroups _ _ := by
    cases hgroups with
    | head h =>
      rw [resolve_of_params _ _ _ hparams]
      · exact throw (congrArg (SchemaError.expected · _) h.position_eq)
      · cases h
        simp
    | param h =>
      rw [resolve_of_params _ _ hhead (by simp)]
      exact throw rfl
  inline hbody _ p _ _ hgroups hready hfields := by
    cases hgroups with
    | body h =>
      rw [resolve_body, h.position_eq]
      refine addStruct fun c₁ hc₁ => ?_
      obtain ⟨hready', htakes⟩ := hready.opened (@Opens.inline _ _ none p) hc₁
      exact body h (hbody _) hready' (fun _ => htakes rfl) hfields
  nameArg _ _ _ _ hgroups _ _ := nomatch hgroups
  literalArg _ _ _ _ hgroups _ _ := nomatch hgroups
  typeArg he _ _ hgroups hready hfields := by
    cases hgroups with
    | type h =>
      rw [resolveArg_type]
      exact he h hready hfields
  noArgs _ := by simp
  moreArgs ha has := List.forall_mem_cons.2 ⟨ha, has⟩
  space hbody _ p name _ _ hgroups hready hfields := by
    cases hgroups with
    | space h =>
      rw [declare_space]
      refine addSpace hready.has fun c₁ hc₁ => ?_
      obtain ⟨hready', -⟩ := hready.opened (.space name.text p) hc₁
      exact body h (hbody _) hready' (by simp) hfields
  struct he hbody _ p name _ _ hgroups hready hfields := by
    cases hgroups with
    | type h =>
      cases h with
      | head _ | param _ => cases he
      | body h =>
        cases he
        rw [declare_struct _ _ _ rfl]
        refine addType hready.has fun c₁ hc₁ => addStruct fun c₂ hc₂ => ?_
        rw [hc₁] at hc₂ ⊢
        obtain ⟨hready', htakes⟩ := hready.opened (.struct name.text p) hc₂
        exact body h (hbody _) hready' (fun _ => htakes rfl) hfields
  synonym he hx p name _ _ hgroups hready hfields := by
    cases hgroups with
    | @type _ _ _ e' h =>
      have he' : TypeExpr.inside? (some e') = none := by
        cases h with
        | head _ | param _ => rfl
        | body _ => cases he
      rw [declare_synonym _ _ _ he']
      exact addType hready.has fun c₁ hc₁ => hx h (hc₁ ▸ hready) hfields
  variant hbody _ p name _ _ hgroups hready hfields := by
    cases hgroups with
    | variant h =>
      rw [declare_variant]
      refine addVariant hready.has hready.rooted fun scope hopens hstruct c₁ hc₁ => ?_
      obtain ⟨hready', htakes⟩ := hready.opened hopens hc₁
      exact body h (hbody _) hready' (fun _ => htakes hstruct) hfields
  constraint _ _ _ _ _ _ hgroups _ _ := nomatch hgroups
  fields he _ _ _ _ hgroups hready hfields := by
    cases hgroups with
    | fields h =>
      rw [declare_fields]
      refine (he h hready hfields.2).bind fun g next t _ hle ht => ?_
      subst ht
      have hd := Nat.lt_of_lt_of_le hready.has hle
      have hadmits : g.Admits (.behind next) _ := admits_of_lt hd
      have hfield := Matches.addField hadmits t
      rw [shift_of_lt hd] at hfield
      exact .forM hfield
  nil _ := by simp
  cons hst hsts := List.forall_mem_cons.2 ⟨hst, hsts⟩

end Regroups

end Compilation

end PacketSchema
