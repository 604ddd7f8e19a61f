import PacketSchema.Proofs.Compilation.Declaring

/-! Names that are aliases. A name stands for what has been declared under it where it stands, or it
is an alias. Namespaces have no aliases. A name that is declared as one for a type is one, whatever
the type is: the struct that it stands for is bound elsewhere or has no name. -/

namespace PacketSchema.Compilation

open Schema

/-! ## Namespaces -/

/-- Namespaces are bound under their own names only, where they stand. -/
def SpacesNamed (s : Schema) : Prop :=
  ∀ id scope name x, s.scope? id = some scope → (name, .space x) ∈ scope.names.entries →
    Named s id name x

theorem Named.keeps {s s' : Schema} {owner x : ScopeId} {name : String} (h : Named s owner name x)
    (hk : s.Keeps s') (hr : s.Rooted) (hr' : s'.Rooted) : Named s' owner name x := by
  obtain ⟨scope, d, hs, hname, hp, rfl⟩ := h
  obtain ⟨scope', hs', heq⟩ := hk x scope hs
  refine ⟨scope', d, hs', ?_, ?_, hk.namesOwner hr hr' (hr.has_parent hs hp)⟩
  · rw [Scope.name_eq heq, hname]
  · rw [Scope.parent_eq heq, hp]

namespace SpacesNamed

variable {s s' : Schema}

/-- Nothing changes while scopes keep their names. -/
theorem view (h : SpacesNamed s) (hk : s.Keeps s') (hr : s.Rooted) (hr' : s'.Rooted)
    (hnames : ∀ id, (s'.scope? id).map Scope.names = (s.scope? id).map Scope.names) :
    SpacesNamed s' := by
  intro id scope' name x hs' hmem
  have hid := hnames id
  rw [hs'] at hid
  obtain ⟨scope, hs, heq⟩ := Option.map_eq_some_iff.1 hid.symm
  exact (h id scope name x hs (heq ▸ hmem)).keeps hk hr hr'

theorem modifyLayout (h : SpacesNamed s) (hr : s.Rooted) (d : ScopeId) (f : Layout → Layout) :
    SpacesNamed (s.modifyLayout d f) :=
  h.view (SameShapes.modifyLayout s d f).keeps hr ((SameShapes.modifyLayout s d f).rooted hr)
    fun id => names_modifyLayout s d id f

theorem addScope (h : SpacesNamed s) (hr : s.Rooted) {d : ScopeId} {task : Task} {scope : Scope}
    (hd : s.Has d) (hopens : Opens s d task scope) : SpacesNamed (s.addScope scope) := by
  intro id found name x hs hmem
  rw [scope?_addScope] at hs
  split at hs
  · cases hs
    rw [hopens.names] at hmem
    cases hmem
  · exact (h id found name x hs hmem).keeps (keeps_addScope s scope) hr
      (hr.addScope hd hopens.parent)

theorem bind (h : SpacesNamed s) (hr : s.Rooted) {d : ScopeId} {name : String} {item : Item}
    (hfree : s.getLocal? d name = none)
    (hitem : ∀ x, item = .space x → Named s (s.namesOwner d) name x) :
    SpacesNamed (s.bind d name item) := by
  have hsame := SameShapes.bind s d name item
  intro id scope' other x hs' hmem
  refine Named.keeps ?_ hsame.keeps hr (hsame.rooted hr)
  obtain ⟨scope, hs, hmem⟩ | ⟨rfl, heq⟩ := entry_of_bind hfree hs' hmem
  · exact h id scope other x hs hmem
  · cases heq
    exact hitem x rfl

end SpacesNamed

theorem Step.spacesNamed {st st' : Stage} (h : Step st st') (hst : st.Settled)
    (hspaces : SpacesNamed st.schema) : SpacesNamed st'.schema := by
  obtain ⟨⟨hr, hn⟩, hnames, -⟩ := hst
  cases h with
  | note h =>
    have hsame := SameShapes.of_scopes_eq h.scopes_eq
    refine hspaces.view hsame.keeps hr (hsame.rooted hr) fun id => ?_
    unfold scope?
    exact congrArg (fun scopes : List Scope => scopes[id.index]?.map Scope.names) h.scopes_eq
  | field _ _ _ => exact hspaces.modifyLayout hr _ _
  | constraint _ _ _ => exact hspaces.modifyLayout hr _ _
  | announce _ _ => exact hspaces
  | enter h => exact hspaces.addScope hr hn.has h
  | leave _ _ => exact hspaces
  | assign t =>
    obtain ⟨hfree, -⟩ := hnames.free _ _ (.head _)
    exact hspaces.bind hr hfree fun _ h => by cases h
  | @conclude r id d fs scope name hs hname =>
    obtain ⟨hfree, -⟩ := hnames.free _ _ (.tail _ (.head _))
    refine hspaces.bind hr hfree fun x hx => ?_
    have hid := congrArg Item.scope? hx
    rw [scope.item_scope?] at hid
    cases hid
    obtain ⟨⟨inner, hinner, hparent, -⟩, -⟩ := hn
    rw [show r.current.schema.scope? id = some inner from hinner] at hs
    cases hs
    exact ⟨_, d, hinner, hname, hparent, rfl⟩
  | register _ _ _ _ _ => exact hspaces.modifyLayout hr _ _

theorem Steps.spacesNamed {options : Options} {st : Stage} (h : Steps (.start options) st) :
    SpacesNamed st.schema := by
  induction h with
  | refl =>
    intro id scope name x hs hmem
    rw [List.mem_singleton.1 (List.mem_of_getElem? hs)] at hmem
    cases hmem
  | tail hsteps h ih => exact h.spacesNamed (Steps.settled hsteps) ih

/-! ## Structs -/

/-- A struct is bound where it stands, under its own name if it has one. -/
def OwnBound (s : Schema) (x : ScopeId) : Prop :=
  ∃ scope, s.scope? x = some scope ∧ ∀ name d, scope.name = some name → scope.parent = some d →
    s.getLocal? d name = some (.type (.struct x))

/-- What is bound at all is bound where it stands. -/
def SelfBound (s : Schema) : Prop :=
  ∀ id scope name x, s.scope? id = some scope →
    (name, .type (.struct x)) ∈ scope.names.entries → OwnBound s x

theorem OwnBound.grows {s s' : Schema} {x : ScopeId} (h : OwnBound s x) (hr : s.Rooted)
    (hg : Grows s s') : OwnBound s' x := by
  obtain ⟨scope, hs, hbound⟩ := h
  obtain ⟨scope', hs', heq⟩ := hg.keeps x scope hs
  refine ⟨scope', hs', fun name d hname hp => ?_⟩
  rw [Scope.name_eq heq] at hname
  rw [Scope.parent_eq heq] at hp
  exact hg.bound (hr.has_parent hs hp) (hbound name d hname hp)

theorem ownBound_bind {s : Schema} {d x : ScopeId} {scope : Scope} {name : String}
    (hr : s.Rooted) (hd : s.Has d) (hs : s.scope? x = some scope) (hname : scope.name = some name)
    (hp : scope.parent = some d) : OwnBound (s.bind d name (.type (.struct x))) x := by
  obtain ⟨scope', hs', heq⟩ := (SameShapes.bind s d name (.type (.struct x))).keeps x scope hs
  refine ⟨scope', hs', fun other e hother he => ?_⟩
  rw [Scope.name_eq heq, hname] at hother
  rw [Scope.parent_eq heq, hp] at he
  cases hother
  cases he
  rw [getLocal?_bind hr hd hd, if_pos ⟨rfl, rfl⟩]

namespace SelfBound

variable {s s' : Schema}

theorem empty : SelfBound .empty := by
  intro id scope name x hs hmem
  rw [List.mem_singleton.1 (List.mem_of_getElem? hs)] at hmem
  cases hmem

/-- Nothing changes while scopes keep their names. -/
theorem view (h : SelfBound s) (hr : s.Rooted) (hg : Grows s s')
    (hnames : ∀ id, (s'.scope? id).map Scope.names = (s.scope? id).map Scope.names) :
    SelfBound s' := by
  intro id scope' name x hs' hmem
  have hid := hnames id
  rw [hs'] at hid
  obtain ⟨scope, hs, heq⟩ := Option.map_eq_some_iff.1 hid.symm
  exact (h id scope name x hs (heq ▸ hmem)).grows hr hg

theorem modifyLayout (h : SelfBound s) (hr : s.Rooted) (d : ScopeId) (f : Layout → Layout) :
    SelfBound (s.modifyLayout d f) := by
  have hframed : Framed none s (s.modifyLayout d f) := .modifyLayout hr d f
  exact h.view hr hframed.toGrows fun id => names_modifyLayout s d id f

theorem of_scopes_eq (h : SelfBound s) (hr : s.Rooted) (heq : s'.scopes = s.scopes) :
    SelfBound s' := by
  have hframed : Framed none s s' := .of_scopes_eq hr heq
  exact h.view hr hframed.toGrows (names_eq_of_tables (tables_of_scopes_eq heq))

theorem addsFields (h : SelfBound s) (hr : s.Rooted) {d : ScopeId} {t : TypeRef}
    {names : List Ident} (hadds : AddsFields d t names s s') : SelfBound s' :=
  h.view hr (hadds.framed hr).toGrows (names_eq_of_tables hadds.tables_eq)

theorem addScope (h : SelfBound s) (hr : s.Rooted) {d : ScopeId} {task : Task} {scope : Scope}
    (hd : s.Has d) (hopens : Opens s d task scope) : SelfBound (s.addScope scope) := by
  have hframed : Framed none s (s.addScope scope) :=
    .addScope hr (hr.addScope hd hopens.parent)
  intro id found name x hs hmem
  rw [scope?_addScope] at hs
  split at hs
  · cases hs
    rw [hopens.names] at hmem
    cases hmem
  · exact (h id found name x hs hmem).grows hr hframed.toGrows

theorem bind (h : SelfBound s) (hr : s.Rooted) {d : ScopeId} (hd : s.Has d) {name : String}
    {item : Item} (hfree : s.getLocal? d name = none)
    (hitem : ∀ x, item = .type (.struct x) → OwnBound (s.bind d name item) x) :
    SelfBound (s.bind d name item) := by
  have hg : Grows s (s.bind d name item) := (Framed.bind hr hd hfree item).toGrows
  intro id scope' other x hs' hmem
  obtain ⟨scope, hs, hmem⟩ | ⟨-, heq⟩ := entry_of_bind hfree hs' hmem
  · exact (h id scope other x hs hmem).grows hr hg
  · cases heq
    exact hitem x rfl

end SelfBound

/-- What a job makes is bound where it stands, or it is to be bound next. -/
def Job.OwnBound (s : Schema) (d : ScopeId) : Job → Prop
  | .type _ t => ∀ x, t = .struct x → Compilation.OwnBound s x
  | .meaning st item => ∀ x, item = .type (.struct x) → Compilation.OwnBound s x ∨
    ∃ scope name, st.name? = some name ∧ s.scope? x = some scope ∧
      scope.name = some name.text ∧ scope.parent = some d
  | .scope _ _ _ | .length _ | .applied _ _ | .bound _ _ | .statement _ | .statements _ => True

theorem Stands.name_eq {d : ScopeId} {st : Statement} {scope : Scope} {body : List Statement}
    (h : Stands d st scope body) :
    ∃ name, st.name? = some name ∧ scope.name = some name.text ∧ scope.parent = some d := by
  cases h with
  | space p name body => exact ⟨name, rfl, rfl, rfl⟩
  | struct p name hbody => exact ⟨name, rfl, rfl, rfl⟩
  | variant p name body hk => exact ⟨name, rfl, rfl, rfl⟩

theorem Makes.selfBound {ms : List Compilation} {d : ScopeId} {job : Job} {s s' : Schema}
    (h : Makes ms d job s s') (hr : s.Rooted) (hd : s.Has d) (hs : SelfBound s) :
    SelfBound s' ∧ job.OwnBound s' d := by
  induction h with
  | @scope d task scope body s s' hopens h ih =>
    have hr' := hr.addScope hd hopens.parent
    exact ⟨(ih hr' (has_addScope s scope) (hs.addScope hr hd hopens)).1, trivial⟩
  | builtin _ _ => exact ⟨hs, fun x hx => by cases hx⟩
  | application _ h ih =>
    have hr' := (h.framed hr hd).rooted
    exact ⟨(ih hr hd hs).1.of_scopes_eq hr' rfl, fun x hx => by cases hx⟩
  | @named d p n t s _ hfound =>
    refine ⟨hs, fun x hx => ?_⟩
    subst hx
    obtain ⟨y, scope, name, hscope, hmem⟩ := mem_names_of_lookup? hfound
    exact hs y scope name x hscope hmem
  | grouped _ ih => exact ih hr hd hs
  | @inline d p body id s s' h ih =>
    refine ⟨(ih hr hd hs).1, fun x hx => ?_⟩
    cases hx
    obtain ⟨⟨scope, hscope, heq⟩, -⟩ := h.stays hr hd (.refl s')
    refine ⟨scope, hscope, fun name _ hname => ?_⟩
    rw [Scope.name_eq heq] at hname
    cases hname
  | word _ => exact ⟨hs, trivial⟩
  | counted _ _ ih => exact ⟨(ih hr hd hs).1, trivial⟩
  | plain _ _ => exact ⟨hs, trivial⟩
  | measured _ _ _ ih => exact ⟨(ih hr hd hs).1, trivial⟩
  | array hl _ _ ihl ih =>
    have hframed := hl.framed hr hd
    exact ⟨(ih hframed.rooted (hframed.keeps.has hd) (ihl hr hd hs).1).1, trivial⟩
  | boolOptional _ _ ih => exact ⟨(ih hr hd hs).1, trivial⟩
  | @opened d st scope body id s s' hst h ih =>
    refine ⟨(ih hr hd hs).1, fun x hx => .inr ?_⟩
    have hid := scope.item_scope? id
    rw [hx] at hid
    cases hid
    obtain ⟨⟨found, hfound, heq⟩, -⟩ := h.stays hr hd (.refl s')
    obtain ⟨name, hname, hown, hp⟩ := hst.name_eq
    exact ⟨found, name, hname, hfound, by rw [Scope.name_eq heq, hown],
      by rw [Scope.parent_eq heq, hp]⟩
  | assigned _ _ ih =>
    obtain ⟨hs', ht⟩ := ih hr hd hs
    exact ⟨hs', fun x hx => .inl (ht x (by cases hx; rfl))⟩
  | @bound d st name item s s' hname hfree h ih =>
    have hframed := h.framed hr hd
    have hr' := hframed.rooted
    have hd' := hframed.keeps.has hd
    have hfree' := h.free hr hd hfree
    obtain ⟨hs', hitem⟩ := ih hr hd hs
    refine ⟨hs'.bind hr' hd' hfree' fun x hx => ?_, trivial⟩
    obtain hbound | ⟨scope, own, hown, hscope, hscopeName, hp⟩ := hitem x hx
    · exact hbound.grows hr' (Framed.bind hr' hd' hfree' item).toGrows
    · rw [hname] at hown
      cases hown
      rw [hx]
      exact ownBound_bind hr' hd' hscope hscopeName hp
  | declared _ _ ih => exact ⟨(ih hr hd hs).1, trivial⟩
  | variant _ _ h _ _ ih =>
    exact ⟨(ih hr hd hs).1.modifyLayout (h.framed hr hd).rooted _ _, trivial⟩
  | proxy _ _ ih => exact ⟨(ih hr hd hs).1, trivial⟩
  | constraint _ _ _ => exact ⟨hs.modifyLayout hr _ _, trivial⟩
  | fields _ h hadds ih =>
    exact ⟨(ih hr hd hs).1.addsFields (h.framed hr hd).rooted hadds, trivial⟩
  | nil => exact ⟨hs, trivial⟩
  | cons h _ ih ihrest =>
    have hframed := h.framed hr hd
    exact ⟨(ihrest hframed.rooted (hframed.keeps.has hd) (ih hr hd hs).1).1, trivial⟩

/-! ## Aliases -/

/-- A name stands for a type that has not been declared under it where it stands. -/
def IsAlias (s : Schema) (id : ScopeId) (name : String) (t : TypeRef) : Prop :=
  (∃ scope, s.scope? id = some scope ∧ (name, .type t) ∈ scope.names.entries) ∧
    ∀ x, t = .struct x → ¬ Named s id name x

/-- What is bound where it stands does not stand where a name is free under this name. -/
theorem OwnBound.not_named {s s' : Schema} {d x : ScopeId} {name : String} (h : OwnBound s x)
    (hr : s.Rooted) (hd : s.Has d) (hfree : s.getLocal? d name = none) (hk : s.Keeps s')
    (hr' : s'.Rooted) : ¬ Named s' (s'.namesOwner d) name x := by
  rintro ⟨scope', e, hs', hname, hp, howner⟩
  obtain ⟨scope, hs, hbound⟩ := h
  obtain ⟨found, hfound, heq⟩ := hk x scope hs
  rw [hs'] at hfound
  cases hfound
  rw [Scope.name_eq heq] at hname
  rw [Scope.parent_eq heq] at hp
  have he := hr.has_parent hs hp
  rw [hk.namesOwner hr hr' he, hk.namesOwner hr hr' hd] at howner
  have hitem := hbound name e hname hp
  unfold getLocal? names at hfree hitem
  rw [howner, hfree] at hitem
  cases hitem

theorem exists_entry_of_getLocal? {s : Schema} (hr : s.Rooted) {d : ScopeId} (hd : s.Has d)
    {name : String} {item : Item} (h : s.getLocal? d name = some item) :
    ∃ scope, s.scope? (s.namesOwner d) = some scope ∧ (name, item) ∈ scope.names.entries := by
  obtain ⟨owner, ho, -, -⟩ := hr.namesOwner_spec hd
  unfold getLocal? names at h
  rw [ho] at h
  exact ⟨owner, ho, Table.mem_of_find? h⟩

/-- The name of a type expression that is applied is an alias for the type that it was resolved
to. -/
def DeclaresAlias (ms : List Compilation) (s : Schema) (d : ScopeId) : Statement → Prop
  | .type _ name (some (.application q head args)) =>
    ∃ t, Resolved ms d (.application q head args) t ∧ IsAlias s (s.namesOwner d) name.text t
  | _ => True

theorem Makes.declaresAlias {ms : List Compilation} {d : ScopeId} {st : Statement}
    {s s' final : Schema} (h : Makes ms d (.statement st) s s') (hr : s.Rooted) (hd : s.Has d)
    (hs : SelfBound s) (hr' : final.Rooted) (hg : Grows s' final) :
    DeclaresAlias ms final d st := by
  cases h with
  | variant _ _ _ _ _ => exact trivial
  | proxy _ _ => exact trivial
  | constraint _ _ _ => exact trivial
  | fields _ _ _ => exact trivial
  | @declared _ _ item _ _ _ h =>
    obtain ⟨-, name, hname, hitem⟩ := h.stays hr hd hg
    cases h with
    | @bound _ _ own _ _ s₁ hown hfree h =>
      rw [hname] at hown
      cases hown
      have hr₁ := (h.framed hr hd).rooted
      have hd₁ := (h.framed hr hd).keeps.has hd
      have hfree₁ := h.free hr hd hfree
      have hk := (Framed.bind hr₁ hd₁ hfree₁ item).keeps.trans hg.keeps
      cases h with
      | @opened _ _ _ _ _ _ _ hst _ =>
        cases hst with
        | space _ _ _ => exact trivial
        | variant _ _ _ _ => exact trivial
        | @struct p own e body hbody =>
          cases e with
          | none => exact trivial
          | some e =>
            cases e with
            | application _ _ _ => cases hbody
            | body _ => exact trivial
      | assigned hrun h =>
        cases hname
        have hbound := (h.selfBound hr hd hs).2
        refine ⟨_, hrun, exists_entry_of_getLocal? hr' (hk.has hd₁) hitem, fun x hx => ?_⟩
        exact (hbound x hx).not_named hr₁ hd₁ hfree₁ hk hr'

/-! ## Declarations at any depth -/

mutual

/-- All declarations in an argument have the property in the scopes where they stand. -/
def ThroughArg (P : ScopeId → Statement → Prop) (s : Schema) : TypeArg → ScopeId → Prop
  | .name _, _ | .value _, _ => True
  | .type e, d => ThroughType P s e d

def ThroughType (P : ScopeId → Statement → Prop) (s : Schema) : TypeExpr → ScopeId → Prop
  | .application _ head args, d => ThroughArg P s head d ∧ ThroughArgs P s args d
  | .body (.mk p statements), d =>
    ∃ id, s.HasShape id ⟨none, some d, some p, .struct {}, {}⟩ ∧ ThroughAll P s statements id

def ThroughBody (P : ScopeId → Statement → Prop) (s : Schema) : Option Body → ScopeId → Prop
  | none, _ => True
  | some (.mk _ statements), d => ThroughAll P s statements d

/-- The same for what is declared inside of a declaration. -/
def ThroughInside (P : ScopeId → Statement → Prop) (s : Schema) : Statement → ScopeId → Prop
  | .space p name body, d =>
    ∃ id, s.HasShape id ⟨some name.text, some d, some p, .space, {}⟩ ∧ ThroughBody P s body id
  | .type _ _ none, _ | .constraint _ _ _, _ => True
  | .type p name (some (.body (.mk _ statements))), d =>
    ∃ id, s.HasShape id ⟨some name.text, some d, some p, .struct {}, {}⟩ ∧
      ThroughAll P s statements id
  | .type _ _ (some (.application _ head args)), d =>
    ThroughArg P s head d ∧ ThroughArgs P s args d
  | .variant p name body, d =>
    ∃ id kind, ScopeKind.base? kind ≠ none ∧
      s.HasShape id ⟨name.map Ident.text, some d, some p, kind, {}⟩ ∧ ThroughBody P s body id
  | .fields _ _ e, d => ThroughType P s e d

def ThroughArgs (P : ScopeId → Statement → Prop) (s : Schema) : List TypeArg → ScopeId → Prop
  | [], _ => True
  | a :: rest, d => ThroughArg P s a d ∧ ThroughArgs P s rest d

def ThroughAll (P : ScopeId → Statement → Prop) (s : Schema) : List Statement → ScopeId → Prop
  | [], _ => True
  | st :: rest, d => P d st ∧ ThroughInside P s st d ∧ ThroughAll P s rest d

end

section

variable {P : ScopeId → Statement → Prop} {s : Schema} {d : ScopeId}

theorem throughArg_of_isWord {a : TypeArg} (h : a.IsWord) : ThroughArg P s a d := by
  cases a with
  | name _ => exact trivial
  | value _ => exact trivial
  | type _ => exact h.elim

theorem throughArgs_of_isWord {args : List TypeArg} (h : ∀ a ∈ args, TypeArg.IsWord a) :
    ThroughArgs P s args d := by
  induction args with
  | nil => exact trivial
  | cons a args ih =>
    exact ⟨throughArg_of_isWord (h a (.head _)), ih fun b hb => h b (.tail _ hb)⟩

theorem throughArg_of_expr? {a : TypeArg} {e : TypeExpr} (he : a.expr? = some e)
    (h : ThroughType P s e d) : ThroughArg P s a d := by
  cases a with
  | name _ => exact trivial
  | value _ => exact trivial
  | type _ =>
    cases he
    exact h

theorem throughBody_inside {body : Option Body} (h : ThroughAll P s (Body.inside body) d) :
    ThroughBody P s body d := by
  cases body with
  | none => exact trivial
  | some body =>
    cases body
    exact h

theorem Stands.throughInside {st : Statement} {scope : Scope} {body : List Statement}
    {id : ScopeId} (hst : Stands d st scope body) (hs : s.HasShape id scope)
    (h : ThroughAll P s body id) : ThroughInside P s st d := by
  cases hst with
  | space p name body => exact ⟨id, hs, throughBody_inside h⟩
  | variant p name body hk =>
    refine ⟨id, _, ?_, hs, throughBody_inside h⟩
    intro hbase
    cases ‹ScopeKind› <;> simp [ScopeKind.base?, ScopeKind.path?] at hbase hk
  | @struct p name e body hbody =>
    cases e with
    | none => exact trivial
    | some e =>
      cases e with
      | application _ _ _ => cases hbody
      | body b =>
        cases b
        cases hbody
        exact ⟨id, hs, h⟩

end

/-- What a job compiles has the property throughout, down to the last declaration. -/
def Job.Through (P : ScopeId → Statement → Prop) (s : Schema) (d : ScopeId) : Job → Prop
  | .scope new body id => s.HasShape id new ∧ ThroughAll P s body id
  | .type e _ => ThroughType P s e d
  | .length a => ThroughArg P s a d
  | .applied args _ => ThroughArgs P s args d
  | .meaning st _ | .bound st _ | .statement st => ThroughInside P s st d
  | .statements sts => ThroughAll P s sts d

/-- What compiling any declaration brings about it brings about for all that are in a job. -/
theorem Makes.through {ms : List Compilation} {d : ScopeId} {job : Job} {s s' : Schema}
    (h : Makes ms d job s s') (hr : s.Rooted) (hd : s.Has d) (hs : SelfBound s)
    {P : ScopeId → Statement → Prop} {final : Schema}
    (hP : ∀ {d st s₁ s₂}, Makes ms d (.statement st) s₁ s₂ → s₁.Rooted → s₁.Has d →
      SelfBound s₁ → Grows s₂ final → P d st)
    (hfinal : Grows s' final) : job.Through P final d := by
  induction h with
  | @scope d task scope body s s' hopens h ih =>
    obtain ⟨hshape, -⟩ := (Makes.scope hopens h).stays hr hd hfinal
    exact ⟨hshape, ih (hr.addScope hd hopens.parent) (has_addScope s scope)
      (hs.addScope hr hd hopens) hfinal⟩
  | builtin _ _ => exact ⟨trivial, trivial⟩
  | @application d p n b args t s s' _ h ih =>
    have hintern : Framed none s' (s'.intern t) := .of_scopes_eq (h.framed hr hd).rooted rfl
    exact ⟨trivial, ih hr hd hs (hintern.toGrows.trans hfinal)⟩
  | named _ _ => exact ⟨trivial, trivial⟩
  | grouped _ ih => exact ⟨ih hr hd hs hfinal, trivial⟩
  | inline _ ih => exact ⟨_, ih hr hd hs hfinal⟩
  | word ha => exact throughArg_of_isWord ha
  | counted he _ ih => exact throughArg_of_expr? he (ih hr hd hs hfinal)
  | plain hargs _ => exact throughArgs_of_isWord hargs
  | measured hargs _ _ ih => exact ⟨ih hr hd hs hfinal, throughArgs_of_isWord hargs⟩
  | array hl he h ihl ih =>
    have hframed := hl.framed hr hd
    have hd₁ := hframed.keeps.has hd
    have hgrows := (h.framed hframed.rooted hd₁).toGrows.trans hfinal
    have helem := ih hframed.rooted hd₁ (hl.selfBound hr hd hs).1 hfinal
    exact ⟨ihl hr hd hs hgrows, throughArg_of_expr? he helem, trivial⟩
  | boolOptional he _ ih => exact ⟨throughArg_of_expr? he (ih hr hd hs hfinal), trivial⟩
  | opened hst _ ih =>
    obtain ⟨hshape, hinside⟩ := ih hr hd hs hfinal
    exact hst.throughInside hshape hinside
  | assigned _ _ ih => exact ih hr hd hs hfinal
  | @bound d st name item s s' _ hfree h ih =>
    have hframed := h.framed hr hd
    have hfree' := h.free hr hd hfree
    have hbind := Framed.bind hframed.rooted (hframed.keeps.has hd) hfree' item
    exact ih hr hd hs (hbind.toGrows.trans hfinal)
  | declared _ _ ih => exact ih hr hd hs hfinal
  | @variant d p name body id a path layout s s' _ _ h _ _ ih =>
    have hbranch : Framed none s' _ :=
      .modifyLayout (h.framed hr hd).rooted a.base (·.addBranch path id)
    exact ih hr hd hs (hbranch.toGrows.trans hfinal)
  | @proxy d p kind body id s s' hk _ ih =>
    obtain ⟨hshape, hinside⟩ := ih hr hd hs hfinal
    refine ⟨id, kind, ?_, hshape, throughBody_inside hinside⟩
    intro hbase
    cases kind <;> simp [ScopeKind.base?, ScopeKind.isProxy] at hbase hk
  | constraint _ _ _ => exact trivial
  | fields _ h hadds ih =>
    exact ih hr hd hs ((hadds.framed (h.framed hr hd).rooted).toGrows.trans hfinal)
  | nil => exact trivial
  | cons h hrest ih ihrest =>
    have hframed := h.framed hr hd
    have hd₁ := hframed.keeps.has hd
    have hgrows := (hrest.framed hframed.rooted hd₁).toGrows.trans hfinal
    exact ⟨hP h hr hd hs hgrows, ih hr hd hs hgrows,
      ihrest hframed.rooted hd₁ (h.selfBound hr hd hs).1 hfinal⟩

/-- Whatever is declared as an alias in a compiled schema is one, at any depth. -/
theorem throughAll_declaresAlias {options : Options} {sources : List (String × String)} {s : Schema}
    (h : ofSources options sources = .ok s) :
    ThroughAll (DeclaresAlias (history options sources) s) s (statementsOf sources) root := by
  have hmakes := makes_of_ok h
  have hhas : Schema.empty.Has root := Nat.zero_lt_one
  have hr : s.Rooted := (hmakes.framed rooted_empty hhas).rooted
  exact hmakes.through rooted_empty hhas .empty
    (fun hst hr₁ hd hs hg => hst.declaresAlias hr₁ hd hs hr hg) (.refl s)

end PacketSchema.Compilation
