import PacketSchema.Proofs.Compilation.Confining

/-! The order of what is declared. Scopes are numbered in the order in which they begin in the text,
and a struct lists what its body declares in the order of the text. A branch belongs to a struct
that may stand far outside, so every entry is followed from where it is declared to where it is
listed. -/

namespace PacketSchema

/-! ## What a text declares -/

/-- What a scope is opened for. -/
inductive Construct where
  | space
  | struct
  | variant
  | proxy
deriving DecidableEq, Repr

def ScopeKind.construct : ScopeKind → Construct
  | space => .space
  | struct _ => .struct
  | variant _ _ _ => .variant
  | proxy _ _ => .proxy

/-- A scope that is opened in a text, with what is declared in it. -/
structure Opening where
  construct : Construct
  name : Option String
  position : Option Position
  body : List Statement

mutual

/-- The scopes that are opened in an argument, in the order in which they begin. -/
def TypeArg.openings : TypeArg → List Opening
  | .name _ | .value _ => []
  | .type e => e.openings

def TypeExpr.openings : TypeExpr → List Opening
  | .application _ head args => head.openings ++ TypeArg.allOpenings args
  | .body (.mk p body) => ⟨.struct, none, some p, body⟩ :: Statement.allOpenings body

def Body.openings : Option Body → List Opening
  | none => []
  | some (.mk _ body) => Statement.allOpenings body

def Statement.openings : Statement → List Opening
  | .space p name body => ⟨.space, some name.text, some p, Body.inside body⟩ :: Body.openings body
  | .type p name none => [⟨.struct, some name.text, some p, []⟩]
  | .type p name (some (.body (.mk _ body))) =>
    ⟨.struct, some name.text, some p, body⟩ :: Statement.allOpenings body
  | .type _ _ (some (.application _ head args)) => head.openings ++ TypeArg.allOpenings args
  | .variant p (some name) body =>
    ⟨.variant, some name.text, some p, Body.inside body⟩ :: Body.openings body
  | .variant p none body => ⟨.proxy, none, some p, Body.inside body⟩ :: Body.openings body
  | .constraint _ _ _ => []
  | .fields _ _ e => e.openings

def TypeArg.allOpenings : List TypeArg → List Opening
  | [] => []
  | a :: rest => a.openings ++ TypeArg.allOpenings rest

def Statement.allOpenings : List Statement → List Opening
  | [] => []
  | st :: rest => st.openings ++ Statement.allOpenings rest

end

namespace Entry

def isBranch : Entry → Bool
  | branch _ _ => true
  | field _ | constraint _ _ => false

/-- What is a branch in a namespace is one outside of it by a longer path. -/
def under (space : String) : Entry → Option Entry
  | branch path id => some (branch (space :: path) id)
  | field _ | constraint _ _ => none

end Entry

mutual

/-- What a body declares for the struct that it stands in, when the next scope that is opened gets
the number. -/
def Body.entries (next : Nat) : Option Body → List Entry
  | none => []
  | some (.mk _ body) => Statement.allEntries next body

def Statement.entries (next : Nat) : Statement → List Entry
  | .space _ name body => (Body.entries (next + 1) body).filterMap (Entry.under name.text)
  | .type _ _ _ => []
  | .variant _ (some name) _ => [.branch [name.text] ⟨next⟩]
  | .variant _ none body => (Body.entries (next + 1) body).filter Entry.isBranch
  | .constraint _ (.name ⟨name, []⟩) (.value value) => [.constraint name.text value.literal]
  | .constraint _ _ _ => []
  | .fields _ names _ => names.map fun name => .field name.text

def Statement.allEntries (next : Nat) : List Statement → List Entry
  | [] => []
  | st :: rest => st.entries next ++ Statement.allEntries (next + st.openings.length) rest

end

theorem Body.openings_eq (body : Option Body) :
    Body.openings body = Statement.allOpenings (Body.inside body) := by
  rcases body with - | ⟨-, _⟩ <;> rfl

theorem Statement.openings_struct (p : Position) (name : Ident) {e : Option TypeExpr}
    {body : List Statement} (h : TypeExpr.inside? e = some body) :
    (Statement.type p name e).openings =
      ⟨.struct, some name.text, some p, body⟩ :: Statement.allOpenings body := by
  obtain _ | ⟨_, _, _⟩ | ⟨_, _⟩ := e <;> cases h <;> rfl

theorem Statement.openings_synonym (p : Position) (name : Ident) {e : TypeExpr}
    (h : TypeExpr.inside? (some e) = none) :
    (Statement.type p name (some e)).openings = e.openings := by
  obtain ⟨_, _, _⟩ | _ := e <;> cases h
  rfl

theorem Body.entries_eq (next : Nat) (body : Option Body) :
    Body.entries next body = Statement.allEntries next (Body.inside body) := by
  rcases body with - | ⟨-, _⟩ <;> rfl

theorem TypeArg.openings_of_isWord {a : TypeArg} (h : a.IsWord) : a.openings = [] := by
  cases a with
  | name _ => rfl
  | value _ => rfl
  | type _ => exact h.elim

theorem TypeArg.allOpenings_of_isWord {args : List TypeArg} (h : ∀ a ∈ args, TypeArg.IsWord a) :
    TypeArg.allOpenings args = [] := by
  induction args with
  | nil => rfl
  | cons a args ih =>
    have hrest := ih fun b hb => h b (.tail _ hb)
    simp [allOpenings, openings_of_isWord (h a (.head _)), hrest]

theorem TypeArg.openings_of_expr? {a : TypeArg} {e : TypeExpr} (he : a.expr? = some e) :
    a.openings = e.openings := by
  cases a with
  | name n =>
    cases he
    rfl
  | value _ => cases he
  | type _ =>
    cases he
    rfl

theorem Scope.position_eq {scope scope' : Scope} (h : scope'.shape = scope.shape) :
    scope'.position = scope.position := by
  have hposition : scope'.shape.position = scope.shape.position := by rw [h]
  exact hposition

theorem Scope.construct_eq {scope scope' : Scope} (h : scope'.shape = scope.shape) :
    scope'.kind.construct = scope.kind.construct := by
  have hkind : scope'.shape.kind.construct = scope.shape.kind.construct := by rw [h]
  unfold shape at hkind
  cases hk : scope.kind <;> cases hk' : scope'.kind <;>
    simp [hk, hk', ScopeKind.mapLayout, ScopeKind.construct] at hkind ⊢

theorem Scope.layout?_of_shape {scope scope' : Scope} (h : scope'.shape = scope.shape)
    {layout' : Layout} (hl : scope'.layout? = some layout') :
    ∃ layout, scope.layout? = some layout := by
  rw [← Scope.isStruct_iff, ← Scope.isStruct_eq h, Scope.isStruct_iff]
  exact ⟨layout', hl⟩

/-- What becomes of an entry at the end of the scope that it is declared in. -/
def Scope.passed (scope : Scope) : Entry → Option Entry
  | .field _ | .constraint _ _ => none
  | .branch path id =>
    match scope.kind, scope.name with
    | .space, some name => some (.branch (name :: path) id)
    | .proxy _ _, _ => some (.branch path id)
    | _, _ => none

namespace Compilation

open Schema

/-! ## Where an entry is listed -/

/-- What the second scope lists of an entry that is declared in the first one. -/
def listed? (s : Schema) (d x : ScopeId) : Entry → Option Entry
  | .field name => if d = x then some (.field name) else none
  | .constraint name value => if d = x then some (.constraint name value) else none
  | .branch path id =>
    (climb none (some path) (s.chain d)).bind fun a =>
      if a.base = x then a.path.map (Entry.branch · id) else none

section

variable {s s' : Schema} {d : ScopeId}

theorem listed?_keeps (hk : s.Keeps s') (hr : s.Rooted) (hr' : s'.Rooted) (hd : s.Has d)
    (x : ScopeId) : listed? s' d x = listed? s d x := by
  funext e
  cases e <;> simp [listed?, climb_keeps hk hr hr' hd]

/-- An entry that is declared in a new scope leaves it for the scope around. -/
theorem listed?_addScope (hr : s.Rooted) (hd : s.Has d) {scope : Scope}
    (hp : scope.parent = some d) {x : ScopeId} (hx : s.Has x) (e : Entry) :
    listed? (s.addScope scope) s.nextId x e = (scope.passed e).bind (listed? s d x) := by
  have hne : s.nextId ≠ x := by
    rintro rfl
    exact Nat.lt_irrefl _ hx
  cases e with
  | field _ => simp [listed?, Scope.passed, hne]
  | constraint _ _ => simp [listed?, Scope.passed, hne]
  | branch path id =>
    have hr₁ := hr.addScope hd hp
    have hchain := hr₁.chain_child (scope?_addScope_self s scope) hp
    have hkeep := climb_keeps (keeps_addScope s scope) hr hr₁ hd
    unfold listed? Scope.passed
    simp only [hchain, climb]
    cases hk : scope.kind with
    | struct _ => simp [hne]
    | variant _ _ _ => simp [hne]
    | proxy _ _ =>
      have hsame := climb_base_path (some s.nextId) (some path) (s.chain d)
      simp only [Option.none_or, hkeep, Option.bind_some]
      cases hclimb : climb none (some path) (s.chain d) <;>
        cases hclimb' : climb (some s.nextId) (some path) (s.chain d) <;>
        simp_all
    | space =>
      cases hn : scope.name with
      | none => rfl
      | some name => simp only [hkeep, Option.bind_some]

theorem filterMap_listed?_addScope (hr : s.Rooted) (hd : s.Has d) {scope : Scope}
    (hp : scope.parent = some d) {x : ScopeId} (hx : s.Has x) (entries : List Entry) :
    entries.filterMap (listed? (s.addScope scope) s.nextId x) =
      (entries.filterMap scope.passed).filterMap (listed? s d x) := by
  rw [List.filterMap_filterMap]
  exact congrArg (entries.filterMap ·) (funext (listed?_addScope hr hd hp hx))

/-- A struct lists all that its body declares, and a proxy all but the branches. -/
theorem filterMap_listed?_self (hr : s.Rooted) {x : ScopeId} {scope : Scope}
    (hs : s.scope? x = some scope) {layout : Layout} (hl : scope.layout? = some layout)
    (entries : List Entry) :
    entries.filterMap (listed? s x x) =
      if scope.isProxy then entries.filter (!·.isBranch) else entries := by
  cases hp : scope.parent with
  | none =>
    unfold Scope.layout? at hl
    rw [(hr.root hs hp).2.2] at hl
    cases hl
  | some d =>
    have hchain := hr.chain_child hs hp
    have hbase : ∀ {source path a}, climb source path (s.chain d) = some a → a.base ≠ x := by
      intro source path a hclimb heq
      have hlt := hr.parent_lt hs hp
      have hle := hr.around_le (hr.has_parent hs hp) (around_base hclimb)
      rw [heq] at hle
      omega
    have hguard : listed? s x x = Option.guard fun e => !(scope.isProxy && e.isBranch) := by
      funext e
      unfold Scope.isProxy
      unfold Scope.layout? at hl
      cases e with
      | field _ => simp [listed?, Entry.isBranch]
      | constraint _ _ => simp [listed?, Entry.isBranch]
      | branch path id =>
        cases hk : scope.kind with
        | space => simp [hk, ScopeKind.layout?] at hl
        | struct _ => simp [listed?, hchain, climb, hk, ScopeKind.isProxy]
        | variant _ _ _ => simp [listed?, hchain, climb, hk, ScopeKind.isProxy]
        | proxy _ _ =>
          have hnone : listed? s x x (.branch path id) = none := by
            simp only [listed?, hchain, climb, hk]
            exact Option.bind_eq_none_iff.2 fun a hclimb => if_neg (hbase hclimb)
          simp [hnone, ScopeKind.isProxy, Entry.isBranch, Option.guard]
    rw [hguard, List.filterMap_eq_filter]
    cases scope.isProxy <;> simp

end

/-! ## What a job adds -/

/-- The scope was opened for this, and lists what its body declares. -/
def Lists (s : Schema) (x : ScopeId) (o : Opening) : Prop :=
  ∃ scope, s.scope? x = some scope ∧ scope.kind.construct = o.construct ∧ scope.name = o.name ∧
    scope.position = o.position ∧ ∀ layout, scope.layout? = some layout →
      layout.order = (Statement.allEntries (x.index + 1) o.body).filterMap (listed? s x x)

/-- A job in a scope has opened scopes, which are complete, and what it has declared is listed. -/
structure Ordered (d : ScopeId) (openings : List Opening) (entries : List Entry)
    (s s' : Schema) : Prop where
  count : s'.scopes.length = s.scopes.length + openings.length
  opened : ∀ {i o}, openings[i]? = some o → Lists s' ⟨s.scopes.length + i⟩ o
  grown : ∀ {x layout}, s.layout? x = some layout →
    ∃ layout', s'.layout? x = some layout' ∧
      layout'.order = layout.order ++ entries.filterMap (listed? s d x)

namespace Ordered

variable {s s₁ s' : Schema} {d : ScopeId}

theorem of_layouts (hcount : s'.scopes.length = s.scopes.length)
    (h : ∀ x, s'.layout? x = s.layout? x) : Ordered d [] [] s s' where
  count := hcount
  opened := fun h => nomatch h
  grown := by
    intro x layout hl
    exact ⟨layout, by rw [h, hl], (List.append_nil _).symm⟩

theorem refl (s : Schema) : Ordered d [] [] s s := of_layouts rfl fun _ => rfl

theorem modifyLayout {id : ScopeId} {f : Layout → Layout} {entries : List Entry}
    (hf : ∀ layout, s.layout? id = some layout →
      (f layout).order = layout.order ++ entries.filterMap (listed? s d id))
    (hother : ∀ x, x ≠ id → entries.filterMap (listed? s d x) = []) :
    Ordered d [] entries s (s.modifyLayout id f) where
  count := by simp [Schema.modifyLayout, modifyScope]
  opened := fun h => nomatch h
  grown := by
    intro x layout hl
    rw [layout?_modifyLayout, hl]
    split
    · rename_i hx
      subst hx
      exact ⟨f layout, rfl, hf layout hl⟩
    · rename_i hx
      exact ⟨layout, rfl, by simp [hother x hx]⟩

theorem addField (name : String) (field : Field) :
    Ordered d [] [.field name] s (s.modifyLayout d (·.addField name field)) := by
  refine .modifyLayout (fun _ _ => ?_) fun x hx => ?_
  · simp [Layout.addField, listed?]
  · simp [listed?, hx.symm]

theorem addConstraint (name : String) (value : Literal) :
    Ordered d [] [.constraint name value] s (s.modifyLayout d (·.addConstraint name value)) := by
  refine .modifyLayout (fun _ _ => ?_) fun x hx => ?_
  · simp [Layout.addConstraint, listed?]
  · simp [listed?, hx.symm]

/-- A branch is listed by the struct that climbing finds, under the path that it finds there. -/
theorem addBranch {name : String} {a : Anchor} {path : Path} (id : ScopeId)
    (hclimb : climb none (some [name]) (s.chain d) = some a) (hpath : a.path = some path) :
    Ordered d [] [.branch [name] id] s (s.modifyLayout a.base (·.addBranch path id)) := by
  have hlisted : ∀ x, listed? s d x (.branch [name] id) =
      if a.base = x then some (.branch path id) else none := by
    intro x
    simp [listed?, hclimb, hpath]
  refine .modifyLayout (fun _ _ => ?_) fun x hx => ?_
  · simp [Layout.addBranch, hlisted]
  · simp [hlisted, hx.symm]

theorem bind (name : String) (item : Item) : Ordered d [] [] s (s.bind d name item) :=
  .of_layouts (by simp [Schema.bind, modifyScope]) (layout?_bind _ _ · _ _)

theorem intern (t : ParamType) : Ordered d [] [] s (s.intern t) := .of_layouts rfl fun _ => rfl

/-- What has been opened is not around what comes next, and stays as it is. -/
theorem trans {openings more : List Opening} {entries rest : List Entry} (hr : s.Rooted)
    (hd : s.Has d) (h : Ordered d openings entries s s₁) (hc : Confined d s s₁)
    (h' : Ordered d more rest s₁ s') (hc' : Confined d s₁ s') :
    Ordered d (openings ++ more) (entries ++ rest) s s' where
  count := by
    have hcount := h.count
    have hcount' := h'.count
    simp only [List.length_append]
    omega
  opened := by
    intro i o ho
    rw [List.getElem?_append] at ho
    split at ho
    · obtain ⟨scope, hs, hconstruct, hname, hposition, hlists⟩ := h.opened ho
      have hx := has_of_scope? hs
      have hout : ¬ s₁.Around d ⟨s.scopes.length + i⟩ := by
        rw [around_keeps hc.keeps hr hc.rooted hd]
        intro haround
        have hle := hr.around_le hd haround
        have hlt : d.index < s.scopes.length := hd
        simp only at hle
        omega
      refine ⟨scope, (hc'.outside hx hout).trans hs, hconstruct, hname, hposition, ?_⟩
      rw [listed?_keeps hc'.keeps hc.rooted hc'.rooted hx]
      exact hlists
    · have hlists := h'.opened ho
      rw [h.count] at hlists
      rename_i hi
      rwa [show s.scopes.length + openings.length + (i - openings.length) =
        s.scopes.length + i by omega] at hlists
  grown := by
    intro x layout hl
    obtain ⟨layout₁, hl₁, horder₁⟩ := h.grown hl
    obtain ⟨layout', hl', horder⟩ := h'.grown hl₁
    refine ⟨layout', hl', ?_⟩
    rw [horder, horder₁, listed?_keeps hc.keeps hr hc.rooted hd, List.filterMap_append,
      List.append_assoc]

/-- Entries that a new scope does not list leave it. -/
theorem leave {scope : Scope} {body : List Statement} (hr : s.Rooted)
    (hd : s.Has d) (hp : scope.parent = some d)
    (hempty : ∀ layout, scope.layout? = some layout → layout.order = [])
    (h : Ordered s.nextId (Statement.allOpenings body)
      (Statement.allEntries (s.nextId.index + 1) body) (s.addScope scope) s')
    (hc : Confined s.nextId (s.addScope scope) s') :
    Ordered d
      (⟨scope.kind.construct, scope.name, scope.position, body⟩ :: Statement.allOpenings body)
      ((Statement.allEntries (s.nextId.index + 1) body).filterMap scope.passed) s s' where
  count := by
    have hcount := h.count
    simp only [Schema.addScope, List.length_append, List.length_cons, List.length_nil] at hcount ⊢
    omega
  opened := by
    have hlen : (s.addScope scope).scopes.length = s.scopes.length + 1 := by simp [Schema.addScope]
    intro i o ho
    cases i with
    | zero =>
      cases ho
      have hnew := scope?_addScope_self s scope
      obtain ⟨scope', hs', hshape⟩ := hc.keeps s.nextId scope hnew
      refine ⟨scope', hs', Scope.construct_eq hshape, Scope.name_eq hshape,
        Scope.position_eq hshape, fun layout' hl' => ?_⟩
      obtain ⟨layout, hl⟩ := Scope.layout?_of_shape hshape hl'
      obtain ⟨grown, hgrown, horder⟩ := h.grown (Option.bind_eq_some_iff.2 ⟨scope, hnew, hl⟩)
      obtain ⟨_, hfound, hgrown⟩ := Option.bind_eq_some_iff.1 hgrown
      rw [hs'] at hfound
      cases hfound
      rw [hl'] at hgrown
      cases hgrown
      have hstable := listed?_keeps hc.keeps (hr.addScope hd hp) hc.rooted
        (has_addScope s scope) s.nextId
      rw [horder, hempty layout hl, List.nil_append, ← hstable]
      rfl
    | succ i =>
      have hlists := h.opened ho
      rw [hlen] at hlists
      rwa [Nat.add_assoc, Nat.add_comm 1] at hlists
  grown := by
    intro x layout hl
    have hx := has_of_layout? hl
    obtain ⟨layout', hl', horder⟩ := h.grown ((layout?_addScope_of_has hx scope).trans hl)
    exact ⟨layout', hl', by rw [horder, filterMap_listed?_addScope hr hd hp hx]⟩

end Ordered

/-- What a job opens, in the order of the text. -/
def Job.openings : Job → List Opening
  | .scope new body _ =>
    ⟨new.kind.construct, new.name, new.position, body⟩ :: Statement.allOpenings body
  | .type e _ => e.openings
  | .length a => a.openings
  | .applied args _ => TypeArg.allOpenings args
  | .meaning st _ | .bound st _ | .statement st => st.openings
  | .statements sts => Statement.allOpenings sts

/-- What a job declares in the scope that it stands in. A variant is not listed until it has been
bound. -/
def Job.entries (next : Nat) : Job → List Entry
  | .scope new body _ => (Statement.allEntries (next + 1) body).filterMap new.passed
  | .type _ _ | .length _ | .applied _ _ => []
  | .meaning st _ | .bound st _ => if st.isVariant then [] else st.entries next
  | .statement st => st.entries next
  | .statements sts => Statement.allEntries next sts

theorem Opens.order {s : Schema} {d : ScopeId} {task : Task} {scope : Scope}
    (h : Opens s d task scope) {layout : Layout} (hl : scope.layout? = some layout) :
    layout.order = [] := by
  obtain rfl | ⟨-, taken, -, rfl⟩ := h.layout_eq hl <;> rfl

theorem passed_space (name : String) {scope : Scope} (hk : scope.kind = .space)
    (hn : scope.name = some name) : scope.passed = Entry.under name := by
  funext e
  cases e <;> simp [Scope.passed, Entry.under, hk, hn]

theorem passed_proxy {scope : Scope} (h : scope.isProxy = true) :
    scope.passed = Option.guard Entry.isBranch := by
  unfold Scope.isProxy at h
  funext e
  cases hk : scope.kind <;> simp [hk, ScopeKind.isProxy] at h
  cases e <;> simp [Scope.passed, Entry.isBranch, hk, Option.guard]

theorem passed_struct {scope : Scope} (hstruct : scope.isStruct = true)
    (hp : scope.isProxy = false) : scope.passed = fun _ => none := by
  unfold Scope.isProxy at hp
  unfold Scope.isStruct Scope.layout? at hstruct
  funext e
  cases hk : scope.kind <;> simp [hk, ScopeKind.isProxy, ScopeKind.layout?] at hp hstruct <;>
    cases e <;> simp [Scope.passed, hk]

theorem Stands.openings {d : ScopeId} {st : Statement} {scope : Scope} {body : List Statement}
    (h : Stands d st scope body) (id : ScopeId) :
    (Job.scope scope body id).openings = st.openings := by
  cases h with
  | space p name body => simp [Job.openings, Statement.openings, ScopeKind.construct,
      Body.openings_eq]
  | struct p name he =>
    rw [Statement.openings_struct p name he]
    rfl
  | @variant p name body kind hk =>
    have hconstruct : kind.construct = .variant := by
      cases kind <;> simp [ScopeKind.path?] at hk
      rfl
    simp [Job.openings, Statement.openings, hconstruct, Body.openings_eq]

theorem Stands.entries {d : ScopeId} {st : Statement} {scope : Scope} {body : List Statement}
    (h : Stands d st scope body) (next : Nat) (id : ScopeId) :
    (Job.scope scope body id).entries next = if st.isVariant then [] else st.entries next := by
  simp only [Job.entries]
  cases h with
  | space p name body =>
    simp [Statement.isVariant, Statement.entries, Body.entries_eq, passed_space name.text]
  | struct p name _ =>
    rw [passed_struct rfl rfl]
    simp [Statement.isVariant, Statement.entries]
  | @variant p name body kind hk =>
    have hpassed : Scope.passed ⟨some name.text, some d, some p, kind, {}⟩ = fun _ => none := by
      cases kind <;> simp [ScopeKind.path?] at hk
      exact passed_struct rfl rfl
    simp [hpassed, Statement.isVariant]

theorem AddsFields.ordered {d : ScopeId} {t : TypeRef} {names : List Ident} {s s' : Schema}
    (h : AddsFields d t names s s') (hr : s.Rooted) (hd : s.Has d) :
    Ordered d [] (names.map fun name => .field name.text) s s' := by
  induction h with
  | nil => exact .refl _
  | @warn names s s' f h ih =>
    have hwarn : Confined d s (s.addWarning f) :=
      .of_scopes_eq hr rfl List.prefix_rfl (List.prefix_append _ _)
    have hd' := hwarn.keeps.has hd
    have hsame : Ordered d [] [] s (s.addWarning f) := .of_layouts rfl fun _ => rfl
    exact hsame.trans hr hd hwarn (ih hwarn.rooted hd') (h.confined hwarn.rooted hd')
  | @cons name names s s' layout hl hnew h ih =>
    have hfield : Confined d s _ :=
      .modifyLayout hr (hr.around_self hd) (·.addField name.text ⟨t, name.position⟩)
    have hd' := hfield.keeps.has hd
    have hadded : Ordered d [] [.field name.text] s _ := .addField name.text ⟨t, name.position⟩
    exact hadded.trans hr hd hfield (ih hfield.rooted hd') (h.confined hfield.rooted hd')

/-- A variant is the scope that is opened for it. -/
theorem Makes.variant_id {ms : List Compilation} {d : ScopeId} {p : Position} {name : Ident}
    {body : Option Body} {id : ScopeId} {s s' : Schema}
    (h : Makes ms d (.bound (.variant p (some name) body) (.type (.struct id))) s s') :
    id = s.nextId := by
  cases h with
  | bound _ _ h =>
    generalize hitem : Item.type (.struct id) = item at h
    cases h with
    | opened hst h =>
      cases h with
      | scope _ _ =>
        cases hst with
        | variant _ _ _ hk =>
          rw [Scope.item_of_path hk] at hitem
          cases hitem
          rfl

theorem Makes.ordered {ms : List Compilation} {d : ScopeId} {job : Job} {s s' : Schema}
    (h : Makes ms d job s s') (hr : s.Rooted) (hd : s.Has d) :
    Ordered d job.openings (job.entries s.nextId.index) s s' := by
  induction h with
  | @scope d task scope body s s' hopens h ih =>
    have hr' := hr.addScope hd hopens.parent
    have hd' := has_addScope s scope
    have hnext : (s.addScope scope).nextId.index = s.nextId.index + 1 := by
      simp [nextId, Schema.addScope]
    have hinside : Ordered s.nextId (Statement.allOpenings body)
        (Statement.allEntries _ body) _ _ := ih hr' hd'
    rw [hnext] at hinside
    exact hinside.leave hr hd hopens.parent (fun _ => hopens.order) (h.confined hr' hd')
  | builtin _ _ => exact .refl _
  | @application d p n b args t s s' _ h ih =>
    have happlied : Ordered d (TypeArg.allOpenings args) [] s s' := ih hr hd
    have hconfined := h.confined hr hd
    have htype := happlied.trans hr hd hconfined (.intern t)
      (.of_scopes_eq hconfined.rooted rfl (TypeCache.types_prefix_intern _ t) List.prefix_rfl)
    simpa [Job.openings, Job.entries, TypeExpr.openings, TypeArg.openings] using htype
  | named _ _ => exact .refl _
  | @grouped d p e t s s' _ ih =>
    have htype : Ordered d e.openings [] s s' := ih hr hd
    simpa [Job.openings, Job.entries, TypeExpr.openings, TypeArg.openings, TypeArg.allOpenings]
      using htype
  | @inline d p body id s s' _ ih =>
    have hscope := ih hr hd
    simp only [Job.entries] at hscope
    rw [passed_struct rfl rfl, List.filterMap_none] at hscope
    exact hscope
  | @word d a s ha =>
    simp only [Job.openings, TypeArg.openings_of_isWord ha]
    exact .refl _
  | @counted d a e b s s' he _ ih =>
    simp only [Job.openings, TypeArg.openings_of_expr? he]
    exact ih hr hd
  | @plain d args t s hargs ht =>
    simp only [Job.openings, TypeArg.allOpenings_of_isWord hargs]
    exact .refl _
  | @measured d a args t s s' hargs _ _ ih =>
    simp only [Job.openings, TypeArg.allOpenings, TypeArg.allOpenings_of_isWord hargs,
      List.append_nil]
    exact ih hr hd
  | @array d l a e length t s s₁ s' hl he h ihl ih =>
    have hlength : Ordered d l.openings [] s s₁ := ihl hr hd
    have hconfined := hl.confined hr hd
    have hr₁ := hconfined.rooted
    have hd₁ := hconfined.keeps.has hd
    have helem : Ordered d e.openings [] s₁ s' := ih hr₁ hd₁
    have hboth := hlength.trans hr hd hconfined helem (h.confined hr₁ hd₁)
    simpa [Job.openings, Job.entries, TypeArg.allOpenings, TypeArg.openings_of_expr? he] using hboth
  | @boolOptional d a e t s s' he _ ih =>
    have htype : Ordered d e.openings [] s s' := ih hr hd
    simpa [Job.openings, Job.entries, TypeArg.allOpenings, TypeArg.openings_of_expr? he] using htype
  | opened hst _ ih =>
    have hscope := ih hr hd
    rwa [hst.openings, hst.entries] at hscope
  | assigned _ _ ih => exact ih hr hd
  | @bound d st name item s s' _ hfree h ih =>
    have hmeaning := ih hr hd
    have hconfined := h.confined hr hd
    have hd' := hconfined.keeps.has hd
    have hbound := hmeaning.trans hr hd hconfined (.bind name.text item)
      (.bind hconfined.rooted hd' (h.free hr hd hfree) item)
    rw [List.append_nil, List.append_nil] at hbound
    exact hbound
  | @declared d st item s s' hst _ ih =>
    have hbound : Ordered d st.openings (if st.isVariant then [] else st.entries _) s s' := ih hr hd
    rwa [hst] at hbound
  | @variant d p name body id a path layout s s' hclimb hpath h _ _ ih =>
    have hbound : Ordered d (Statement.variant p (some name) body).openings [] s s' := ih hr hd
    have hconfined := h.confined hr hd
    have hbase := (around_keeps hconfined.keeps hr hconfined.rooted hd).2 (around_base hclimb)
    rw [← climb_keeps hconfined.keeps hr hconfined.rooted hd] at hclimb
    have hvariant := hbound.trans hr hd hconfined (.addBranch id hclimb hpath)
      (.modifyLayout hconfined.rooted hbase _)
    have hid := h.variant_id
    subst hid
    rw [List.append_nil, List.nil_append] at hvariant
    exact hvariant
  | @proxy d p kind body id s s' hk _ ih =>
    have hconstruct : kind.construct = .proxy := by
      cases kind <;> simp [ScopeKind.isProxy] at hk
      rfl
    have hproxy : Scope.isProxy ⟨none, some d, some p, kind, {}⟩ = true := hk
    have hscope := ih hr hd
    simp only [Job.openings, Job.entries] at hscope
    rw [passed_proxy hproxy, hconstruct, List.filterMap_eq_filter, ← Body.openings_eq,
      ← Body.entries_eq] at hscope
    exact hscope
  | constraint name value _ => exact .addConstraint name.text value.literal
  | @fields d p names e t s s₁ s' hnames h hadds ih =>
    have htype : Ordered d e.openings [] s s₁ := ih hr hd
    have hconfined := h.confined hr hd
    have hr₁ := hconfined.rooted
    have hd₁ := hconfined.keeps.has hd
    have hboth := htype.trans hr hd hconfined (hadds.ordered hr₁ hd₁) (hadds.confined hr₁ hd₁)
    rw [List.append_nil, List.nil_append] at hboth
    exact hboth
  | nil => exact .refl _
  | @cons d st sts s s₁ s' hst hrest ih ihrest =>
    have hfirst : Ordered d st.openings (st.entries s.nextId.index) s s₁ := ih hr hd
    have hconfined := hst.confined hr hd
    have hr₁ := hconfined.rooted
    have hd₁ := hconfined.keeps.has hd
    have hnext : s₁.nextId.index = s.nextId.index + st.openings.length := hfirst.count
    have hthen : Ordered d (Statement.allOpenings sts) (Statement.allEntries _ sts) s₁ s' :=
      ihrest hr₁ hd₁
    rw [hnext] at hthen
    exact hfirst.trans hr hd hconfined hthen (hrest.confined hr₁ hd₁)

/-- The scopes of a compiled schema behind the root are those that the sources open, in the order
of the text. A struct or a variant lists what its body declares, in the order of the text, and a
proxy lists the fields and constraints among it. -/
theorem ofSources_order {options : Options} {sources : List (String × String)} {s : Schema}
    (h : ofSources options sources = .ok s) :
    s.scopes.length = 1 + (Statement.allOpenings (statementsOf sources)).length ∧
    ∀ i o, (Statement.allOpenings (statementsOf sources))[i]? = some o →
      ∃ scope, s.scope? ⟨1 + i⟩ = some scope ∧ scope.kind.construct = o.construct ∧
        scope.name = o.name ∧ scope.position = o.position ∧
        ∀ layout, scope.layout? = some layout →
          layout.order =
            if o.construct = .proxy then
              (Statement.allEntries (1 + i + 1) o.body).filter (!·.isBranch)
            else Statement.allEntries (1 + i + 1) o.body := by
  obtain ⟨hr, -, -⟩ := linksSettled_of_ok h
  have hroot : Schema.empty.Has root := Nat.zero_lt_one
  have hordered : Ordered root (Statement.allOpenings (statementsOf sources)) _ .empty s :=
    (makes_of_ok h).ordered rooted_empty hroot
  refine ⟨hordered.count, fun i o ho => ?_⟩
  obtain ⟨scope, hs, hconstruct, hname, hposition, hlists⟩ := hordered.opened ho
  refine ⟨scope, hs, hconstruct, hname, hposition, fun layout hl => ?_⟩
  rw [hlists layout hl, filterMap_listed?_self hr hs hl, ← hconstruct]
  have hproxy : scope.isProxy = true ↔ scope.kind.construct = .proxy := by
    unfold Scope.isProxy
    cases scope.kind <;> simp [ScopeKind.isProxy, ScopeKind.construct]
  simp only [hproxy]
  rfl

/-- A proxy passes its branches on, and so does a namespace within it. -/
theorem ofSources_order_grouped : ∃ s,
    ofSources {}
      [("t", "type s { k : byte; variant { n : int; namespace q { variant a; }; }; m : int; };")] =
        .ok s ∧
    (s.layout? ⟨1⟩).map Layout.order =
      some [.field "k", .branch ["q", "a"] ⟨4⟩, .field "m"] ∧
    (s.layout? ⟨2⟩).map Layout.order = some [.field "n"] ∧
    s.scopes.length = 1 + (Statement.allOpenings (statementsOf
      [("t", "type s { k : byte; variant { n : int; namespace q { variant a; }; }; m : int; };")]
      )).length := by
  obtain ⟨s, hs, hp⟩ := exists_ok (show ((ofSources {}
    [("t", "type s { k : byte; variant { n : int; namespace q { variant a; }; }; m : int; };")]
    ).toOption.any fun s => (s.layout? ⟨1⟩).isSome ∧ (s.layout? ⟨2⟩).isSome) = true by
    decide +kernel)
  obtain ⟨hstruct, hproxy⟩ := of_decide_eq_true hp
  obtain ⟨hcount, hopened⟩ := ofSources_order hs
  have horder : ∀ i entries, (s.layout? ⟨1 + i⟩).isSome = true →
      ((Statement.allOpenings (statementsOf
        [("t", "type s { k : byte; variant { n : int; namespace q { variant a; }; }; m : int; };")]
        ))[i]?.any fun o =>
          (if o.construct = .proxy then
            (Statement.allEntries (1 + i + 1) o.body).filter (!·.isBranch)
          else Statement.allEntries (1 + i + 1) o.body) = entries) = true →
      (s.layout? ⟨1 + i⟩).map Layout.order = some entries := by
    intro i entries hl hlists
    obtain ⟨o, ho, hlists⟩ := (Option.any_eq_true _ _).1 hlists
    obtain ⟨scope, hscope, -, -, -, hlisted⟩ := hopened i o ho
    obtain ⟨layout, hl⟩ := Option.isSome_iff_exists.1 hl
    have hlayout : scope.layout? = some layout := by
      rwa [Schema.layout?, hscope] at hl
    rw [hl, Option.map_some, hlisted layout hlayout, of_decide_eq_true hlists]
  exact ⟨s, hs, horder 0 _ hstruct (by decide +kernel), horder 1 _ hproxy (by decide +kernel),
    hcount⟩

end Compilation

end PacketSchema
