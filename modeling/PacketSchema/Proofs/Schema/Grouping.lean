import PacketSchema.Proofs.Schema.Renumbering
import PacketSchema.Proofs.Schema.Updates

/-! Two schemas, one of which has a proxy more than the other. What the proxy is put around stands
in it instead of standing in the scope around, and scopes that are younger than the proxy have the
next number. Whatever is looked up in the two schemas is the same but for that. -/

namespace PacketSchema

open Schema Compilation

/-- Whether it is about a field that comes after a variant of its struct. -/
def Finding.isLate (finding : Finding) : Bool :=
  match finding.rule with
  | .lateField _ _ => true
  | _ => false

/-- The warnings but for those about late fields. -/
def Schema.otherWarnings (s : Schema) : List Finding := s.warnings.filter fun w => !w.isLate

/-- A proxy that only one of two schemas has, and the scope that it stands in. -/
structure Grouping where
  dest : ScopeId
  proxy : ScopeId
  position : Position
  layout : Layout
  base : ScopeId
  lt : dest.index < proxy.index

/-- How far the declarations are compiled: to somewhere in the proxy or to somewhere behind it,
where scopes are numbered from the given number on. -/
inductive Phase where
  | within
  | behind (next : Nat)

namespace Grouping

variable (g : Grouping)

def added : Scope := ⟨none, some g.dest, some g.position, .proxy g.layout g.base, {}⟩

/-- The number of a scope in the schema with the proxy. -/
def shift (x : ScopeId) : ScopeId := if x.index < g.proxy.index then x else ⟨x.index + 1⟩

/-- The scopes that have come into being in the proxy. -/
def inside : Phase → ScopeId → Bool
  | .within, x => decide (g.proxy.index ≤ x.index)
  | .behind next, x => decide (g.proxy.index ≤ x.index ∧ x.index < next)

/-- What a scope stands in, in the schema with the proxy. -/
def parent (phase : Phase) (x p : ScopeId) : ScopeId :=
  if g.inside phase x = true ∧ p = g.dest then g.proxy else g.shift p

def scope (phase : Phase) (x : ScopeId) (scope : Scope) : Scope :=
  { scope.renumber g.shift with parent := scope.parent.map (g.parent phase x) }

/-- The scopes in which declarations may be compiled. -/
def Admits (phase : Phase) (x : ScopeId) : Prop := g.inside phase x = true ↔ phase = .within

/-- The second scope stands for the first one. -/
def Pairs (phase : Phase) (x x' : ScopeId) : Prop :=
  g.Admits phase x ∧ x' = g.shift x ∨ phase = .within ∧ x = g.dest ∧ x' = g.proxy

/-! ## Numbers -/

section

variable {g} {phase : Phase} {x y : ScopeId}

theorem shift_of_lt (h : x.index < g.proxy.index) : g.shift x = x := if_pos h

theorem shift_of_le (h : g.proxy.index ≤ x.index) : g.shift x = ⟨x.index + 1⟩ :=
  if_neg (Nat.not_lt.2 h)

@[simp] theorem shift_dest : g.shift g.dest = g.dest := shift_of_lt g.lt

theorem shift_lt_iff : (g.shift x).index < (g.shift y).index ↔ x.index < y.index := by
  unfold shift
  split <;> split <;> simp <;> omega

theorem shift_injective : Function.Injective g.shift := by
  intro x y h
  have hxy := shift_lt_iff (g := g) (x := x) (y := y)
  have hyx := shift_lt_iff (g := g) (x := y) (y := x)
  rw [h] at hxy hyx
  have hindex : x.index = y.index := by omega
  cases x
  cases y
  cases hindex
  rfl

theorem shift_ne_proxy : g.shift x ≠ g.proxy := by
  intro h
  have hindex := congrArg ScopeId.index h
  unfold shift at hindex
  split at hindex
  · omega
  · dsimp only at hindex
    omega

theorem proxy_lt_shift (h : g.proxy.index ≤ x.index) : g.proxy.index < (g.shift x).index := by
  rw [shift_of_le h]
  exact Nat.lt_succ_of_le h

theorem le_of_inside (h : g.inside phase x = true) : g.proxy.index ≤ x.index := by
  cases phase <;> simp [inside] at h <;> omega

theorem not_inside_of_lt (h : x.index < g.proxy.index) : ¬ g.inside phase x = true :=
  fun hin => Nat.not_lt.2 (le_of_inside hin) h

theorem not_inside_dest : ¬ g.inside phase g.dest = true := not_inside_of_lt g.lt

/-- What is older than the proxy is outside of it. -/
theorem admits_of_lt {next : Nat} (h : x.index < g.proxy.index) : g.Admits (.behind next) x := by
  simpa [Admits] using not_inside_of_lt h

theorem parent_of_ne {p : ScopeId} (h : ¬ (g.inside phase x = true ∧ p = g.dest)) :
    g.parent phase x p = g.shift p := if_neg h

theorem parent_dest (h : g.inside phase x = true) : g.parent phase x g.dest = g.proxy :=
  if_pos ⟨h, rfl⟩

@[simp] theorem scope_isProxy (scope : Scope) : (g.scope phase x scope).isProxy = scope.isProxy :=
  scope.kind.isProxy_renumber

end

/-- The scopes around a scope in the one schema and in the other. They correspond one by one, but
for the proxy, which may stand in front of the scope that it stands in. -/
inductive Facing (phase : Phase) (through : Prop) :
    List (ScopeId × Scope) → List (ScopeId × Scope) → Prop
  | nil : Facing phase through [] []
  | cons {links links' : List (ScopeId × Scope)} (x : ScopeId) (scope : Scope)
      (h : Facing phase through links links') :
      Facing phase through ((x, scope) :: links) ((g.shift x, g.scope phase x scope) :: links')
  | proxy {links links' : List (ScopeId × Scope)} {scope : Scope} (hthrough : through)
      (hstruct : scope.isStruct = true) (h : Facing phase through links links') :
      Facing phase through ((g.dest, scope) :: links)
        ((g.proxy, g.added) :: (g.dest, g.scope phase g.dest scope) :: links')

variable {g}

theorem Facing.mono {phase : Phase} {P Q : Prop} {links links' : List (ScopeId × Scope)}
    (h : g.Facing phase P links links') (hPQ : P → Q) : g.Facing phase Q links links' := by
  induction h with
  | nil => exact .nil
  | cons x scope _ ih => exact .cons x scope ih
  | proxy hthrough hstruct _ ih => exact .proxy (hPQ hthrough) hstruct ih

theorem Facing.find?_owner {phase : Phase} {P : Prop} {links links' : List (ScopeId × Scope)}
    (h : g.Facing phase P links links') :
    (links'.find? fun link => !link.2.isProxy).map Prod.fst =
      ((links.find? fun link => !link.2.isProxy).map Prod.fst).map g.shift := by
  induction h with
  | nil => rfl
  | cons x scope _ ih => cases hproxy : scope.isProxy <;> simp [hproxy, ih]
  | @proxy links links' scope _ _ _ ih =>
    have hadded : g.added.isProxy = true := rfl
    cases hproxy : scope.isProxy <;> simp [hproxy, hadded, ih]

/-! ## Where variants belong -/

variable (g) in
/-- What is taken over from a scope may be taken over from the open proxy in it. -/
def Sources (through : Prop) (source source' : ScopeId) : Prop :=
  source' = g.shift source ∨ through ∧ source = g.dest ∧ source' = g.proxy

variable (g) in
structure Anchors (through : Prop) (a a' : Anchor) : Prop where
  base : a'.base = g.shift a.base
  source : g.Sources through a.source a'.source
  path : a'.path = a.path

theorem Facing.climb {phase : Phase} {P : Prop} {links links' : List (ScopeId × Scope)}
    (h : g.Facing phase P links links') {source source' : Option ScopeId}
    (hsource : Option.Rel (g.Sources P) source source') (path : Option Path) :
    Option.Rel (g.Anchors P) (climb source path links) (climb source' path links') := by
  induction h generalizing source source' path with
  | nil => exact .none
  | cons x scope _ ih =>
    obtain ⟨name, parent, position, kind, names⟩ := scope
    have hgetD : g.Sources P (source.getD x) (source'.getD (g.shift x)) := by
      cases hsource with
      | none => exact .inl rfl
      | some h => exact h
    have hor : Option.Rel (g.Sources P) (source.or (some x)) (source'.or (some (g.shift x))) := by
      cases hsource with
      | none => exact .some (.inl rfl)
      | some h => exact .some h
    cases kind with
    | struct _ => exact .some ⟨rfl, hgetD, rfl⟩
    | variant _ _ _ => exact .some ⟨rfl, hgetD, rfl⟩
    | proxy _ _ => exact ih hor path
    | space =>
      cases name with
      | none => exact .none
      | some name =>
        cases path with
        | none => exact .none
        | some path => exact ih hsource (some (name :: path))
  | @proxy links links' scope hthrough hstruct _ ih =>
    obtain ⟨name, parent, position, kind, names⟩ := scope
    have hgetD : g.Sources P (source.getD g.dest) ((source'.or (some g.proxy)).getD g.dest) := by
      cases hsource with
      | none => exact .inr ⟨hthrough, rfl, rfl⟩
      | some h => exact h
    have hor : Option.Rel (g.Sources P) (source.or (some g.dest))
        ((source'.or (some g.proxy)).or (some g.dest)) := by
      cases hsource with
      | none => exact .some (.inr ⟨hthrough, rfl, rfl⟩)
      | some h => exact .some h
    have hbase : g.dest = g.shift g.dest := shift_dest.symm
    cases kind with
    | space => cases hstruct
    | struct _ => exact .some ⟨hbase, hgetD, rfl⟩
    | variant _ _ _ => exact .some ⟨hbase, hgetD, rfl⟩
    | proxy _ _ => exact ih hor path

end Grouping

/-- The schema has the proxy, younger than the scope that it stands in. -/
structure Grouping.Present (g : Grouping) (s s' : Schema) : Prop where
  count : s'.scopes.length = s.scopes.length + 1
  le : g.proxy.index ≤ s.scopes.length
  added : s'.scope? g.proxy = some g.added
  dest : ∃ layout, s.layout? g.dest = some layout

/-- What holds in each phase. While the proxy is compiled, the scope around it keeps what the proxy
has taken over, and behind the proxy nothing stands in it any more. -/
def Grouping.Holds (g : Grouping) (s : Schema) : Phase → Prop
  | .within =>
    (∀ layout, s.layout? g.dest = some layout → layout.snapshot.renumber g.shift = g.layout) ∧
      ∃ link ∈ s.chain g.dest, link.2.isProxy = false
  | .behind next => next ≤ s.scopes.length ∧
      ∀ {x scope p}, s.scope? x = some scope → scope.parent = some p → p.index < x.index →
        g.inside (.behind next) p = true → g.inside (.behind next) x = true

/-- The second schema is the first one with the proxy in it, as far as they are compiled. -/
structure Grouped (g : Grouping) (phase : Phase) (s s' : Schema) : Prop where
  scope? : ∀ x, s'.scope? (g.shift x) = (s.scope? x).map (g.scope phase x)
  types : s'.types = s.types.renumber g.shift
  warnings : s'.otherWarnings = s.otherWarnings
  present : g.Present s s'
  holds : g.Holds s phase

namespace Grouped

open Grouping

variable {g : Grouping} {phase : Phase} {s s' : Schema}

theorem inside_of_parent (h : Grouped g phase s s') {x p : ScopeId} {scope : Scope}
    (hs : s.scope? x = some scope) (hp : scope.parent = some p) (hlt : p.index < x.index)
    (hin : g.inside phase p = true) : g.inside phase x = true := by
  cases phase with
  | within =>
    have hle := le_of_inside hin
    simp [inside]
    omega
  | behind next => exact h.holds.2 hs hp hlt hin

/-! ## The scopes around a scope -/

/-- The proxy stands in its scope. -/
theorem chain_proxy (hp : g.Present s s') :
    s'.chain g.proxy = (g.proxy, g.added) :: s'.chain g.dest := by
  have hparent : g.added.parent = some g.dest := rfl
  rw [chain, hp.added]
  simp [hparent, g.lt]

theorem facing_proxy {P Q : Prop} (hp : g.Present s s')
    (hdest : g.Facing phase P (s.chain g.dest) (s'.chain g.dest)) (hP : ¬ P) (hQ : Q) :
    g.Facing phase Q (s.chain g.dest) (s'.chain g.proxy) := by
  obtain ⟨layout, hl⟩ := hp.dest
  obtain ⟨scope, hs, hlayout⟩ := Option.bind_eq_some_iff.1 hl
  rw [chain_proxy hp]
  rw [chain, hs] at hdest ⊢
  cases hc : s'.chain g.dest with
  | nil =>
    rw [hc] at hdest
    cases hdest
  | cons link links' =>
    rw [hc] at hdest
    cases hdest with
    | cons x scope hrest =>
      rw [shift_dest]
      exact .proxy hQ (Scope.isStruct_iff.2 ⟨layout, hlayout⟩) (hrest.mono fun hP' => absurd hP' hP)
    | proxy hthrough _ _ => exact absurd hthrough hP

theorem facing (h : Grouped g phase s s') (x : ScopeId) :
    g.Facing phase (g.inside phase x = true) (s.chain x) (s'.chain (g.shift x)) := by
  fun_induction chain s x with
  | case1 x hs =>
    rw [chain, h.scope?, hs]
    exact .nil
  | case2 x scope hs ih =>
    have hs' : s'.scope? (g.shift x) = some (g.scope phase x scope) := by
      rw [h.scope?, hs]
      rfl
    have hparent : (g.scope phase x scope).parent = scope.parent.map (g.parent phase x) := rfl
    rw [chain, hs']
    refine .cons x scope ?_
    simp only [hparent]
    cases hp : scope.parent with
    | none => exact .nil
    | some p =>
      by_cases hgroup : g.inside phase x = true ∧ p = g.dest
      · obtain ⟨hin, rfl⟩ := hgroup
        have hle := le_of_inside hin
        have hlt : g.dest.index < x.index := Nat.lt_of_lt_of_le g.lt hle
        have hdest := ih g.dest hlt
        rw [shift_dest] at hdest
        simpa [parent_dest hin, hlt, proxy_lt_shift hle] using
          facing_proxy h.present hdest not_inside_dest hin
      · by_cases hlt : p.index < x.index
        · simpa [parent_of_ne hgroup, hlt, shift_lt_iff] using
            (ih p hlt).mono (h.inside_of_parent hs hp hlt)
        · simpa [parent_of_ne hgroup, hlt, shift_lt_iff] using Facing.nil

/-- Where declarations are compiled, the proxy is on the way outwards only while it is open. -/
theorem facing_of_pairs (h : Grouped g phase s s') {x x' : ScopeId} (hx : g.Pairs phase x x') :
    g.Facing phase (phase = .within) (s.chain x) (s'.chain x') := by
  obtain ⟨hadmits, rfl⟩ | ⟨rfl, rfl, rfl⟩ := hx
  · exact (h.facing x).mono hadmits.1
  · have hdest := h.facing g.dest
    rw [shift_dest] at hdest
    exact facing_proxy h.present hdest not_inside_dest rfl

/-! ## Names -/

theorem namesOwner_shift (h : Grouped g phase s s') (x : ScopeId) :
    s'.namesOwner (g.shift x) = g.shift (s.namesOwner x) := by
  unfold namesOwner
  rw [(h.facing x).find?_owner]
  cases (s.chain x).find? fun link => !link.2.isProxy <;> rfl

theorem namesOwner (h : Grouped g phase s s') {x x' : ScopeId} (hx : g.Pairs phase x x') :
    s'.namesOwner x' = g.shift (s.namesOwner x) := by
  have hfacing := h.facing_of_pairs hx
  obtain ⟨-, rfl⟩ | ⟨rfl, rfl, rfl⟩ := hx
  · exact h.namesOwner_shift x
  · obtain ⟨link, hlink, hproxy⟩ := h.holds.2
    obtain ⟨owner, howner⟩ := Option.isSome_iff_exists.1
      (List.find?_isSome (p := fun link : ScopeId × Scope => !link.2.isProxy) |>.2
        ⟨link, hlink, by simp [hproxy]⟩)
    unfold Schema.namesOwner
    rw [hfacing.find?_owner, howner]
    rfl

theorem getLocal?_of_owner (h : Grouped g phase s s') {x x' : ScopeId}
    (howner : s'.namesOwner x' = g.shift (s.namesOwner x)) (name : String) :
    s'.getLocal? x' name = (s.getLocal? x name).map (Item.renumber g.shift) := by
  unfold getLocal? names
  rw [howner, h.scope?]
  cases s.scope? (s.namesOwner x) with
  | none => rfl
  | some scope => exact scope.names.find?_map _ name

theorem getLocal? (h : Grouped g phase s s') {x x' : ScopeId} (hx : g.Pairs phase x x')
    (name : String) : s'.getLocal? x' name = (s.getLocal? x name).map (Item.renumber g.shift) :=
  h.getLocal?_of_owner (h.namesOwner hx) name

theorem lookupLocal? (h : Grouped g phase s s') {x x' : ScopeId}
    (howner : s'.namesOwner x' = g.shift (s.namesOwner x)) (path : Path) :
    s'.lookupLocal? x' path = (s.lookupLocal? x path).map (Item.renumber g.shift) := by
  induction path generalizing x x' with
  | nil => rfl
  | cons name rest ih =>
    cases rest with
    | nil => exact h.getLocal?_of_owner howner name
    | cons next rest =>
      unfold Schema.lookupLocal?
      rw [h.getLocal?_of_owner howner]
      cases s.getLocal? x name with
      | none => rfl
      | some item =>
        simp only [Option.map_some, Option.bind_some, Item.scope?_renumber]
        cases item.scope? with
        | none => rfl
        | some inner => exact ih (h.namesOwner_shift inner)

theorem lookup? (h : Grouped g phase s s') {x x' : ScopeId} (hx : g.Pairs phase x x')
    (path : Path) : s'.lookup? x' path = (s.lookup? x path).map (Item.renumber g.shift) := by
  unfold Schema.lookup?
  have hfacing := h.facing_of_pairs hx
  generalize s.chain x = links at hfacing
  generalize s'.chain x' = links' at hfacing
  induction hfacing with
  | nil => rfl
  | cons y scope _ ih =>
    simp only [List.findSome?_cons, h.lookupLocal? (h.namesOwner_shift y), ih]
    cases s.lookupLocal? y path <;> rfl
  | @proxy links links' scope hwithin _ _ ih =>
    have hdest : s'.namesOwner g.dest = g.shift (s.namesOwner g.dest) := by
      simpa using h.namesOwner_shift g.dest
    have hproxy := h.namesOwner (.inr ⟨hwithin, rfl, rfl⟩)
    simp only [List.findSome?_cons, h.lookupLocal? hdest, h.lookupLocal? hproxy, ih]
    cases s.lookupLocal? g.dest path <;> rfl

/-! ## What is read from schemas -/

theorem climb (h : Grouped g phase s s') {x x' : ScopeId} (hx : g.Pairs phase x x')
    (path : Option Path) :
    Option.Rel (g.Anchors (phase = .within)) (climb none path (s.chain x))
      (climb none path (s'.chain x')) :=
  (h.facing_of_pairs hx).climb .none path

theorem layout? (h : Grouped g phase s s') (x : ScopeId) :
    s'.layout? (g.shift x) = (s.layout? x).map (Layout.renumber g.shift) := by
  unfold Schema.layout?
  rw [h.scope?]
  cases s.scope? x with
  | none => rfl
  | some scope => exact scope.kind.layout?_renumber

theorem snapshot (h : Grouped g phase s s') {x x' : ScopeId}
    (hx : g.Sources (phase = .within) x x') :
    ((s'.layout? x').map Layout.snapshot).getD {} =
      (((s.layout? x).map Layout.snapshot).getD {}).renumber g.shift := by
  obtain rfl | ⟨rfl, rfl, rfl⟩ := hx
  · rw [h.layout?]
    cases s.layout? x <;> rfl
  · obtain ⟨layout, hl⟩ := h.present.dest
    have hproxy : s'.layout? g.proxy = some g.layout := by
      unfold Schema.layout?
      rw [h.present.added]
      rfl
    rw [hproxy, hl, Option.map_some, Option.map_some, ← h.holds.1 layout hl]
    rfl

theorem param? (h : Grouped g phase s s') (id : ParamId) :
    s'.param? id = (s.param? id).map (ParamType.renumber g.shift) := by
  unfold Schema.param?
  rw [h.types, TypeCache.get?_renumber]

theorem literalFits (h : Grouped g phase s s') (t : TypeRef) (value : Literal) :
    literalFits s' (t.renumber g.shift) value = literalFits s t value := by
  cases t with
  | builtin _ => cases value <;> rfl
  | struct _ => cases value <;> rfl
  | param id =>
    cases value with
    | number _ => rfl
    | text _ =>
      simp only [TypeRef.renumber, Compilation.literalFits, h.param?]
      cases s.param? id <;> simp

end Grouped

end PacketSchema
