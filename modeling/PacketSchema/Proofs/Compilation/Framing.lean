import PacketSchema.Proofs.Compilation.Making

/-! What compiling leaves as it was. Scopes keep their shapes and bound names their meanings, and
new names are bound by the owner of the names of the scope that is compiled, and by no other. -/

namespace PacketSchema.Compilation

open Schema

/-- What there was before is still there, and names that were bound have kept their meanings. -/
structure Grows (s s' : Schema) : Prop where
  keeps : s.Keeps s'
  bound : ∀ {x name item}, s.Has x → s.getLocal? x name = some item →
    s'.getLocal? x name = some item

theorem Grows.refl (s : Schema) : Grows s s := ⟨.refl s, fun _ h => h⟩

theorem Grows.trans {s s₁ s' : Schema} (h : Grows s s₁) (h' : Grows s₁ s') : Grows s s' :=
  ⟨h.keeps.trans h'.keeps, fun hx hitem => h'.bound (h.keeps.has hx) (h.bound hx hitem)⟩

/-- What grows has new names of one owner, if of any. -/
structure Framed (owner : Option ScopeId) (s s' : Schema) : Prop extends Grows s s' where
  rooted : s'.Rooted
  local_eq : ∀ {x}, s.Has x → owner ≠ some (s.namesOwner x) → ∀ name,
    s'.getLocal? x name = s.getLocal? x name

namespace Framed

variable {s s₁ s' : Schema} {owner : Option ScopeId}

theorem of_local_eq (hk : s.Keeps s') (hr : s'.Rooted)
    (hlocal : ∀ x, s.Has x → ∀ name, s'.getLocal? x name = s.getLocal? x name) :
    Framed owner s s' where
  keeps := hk
  rooted := hr
  bound := by
    intro x name item hx hitem
    rw [hlocal x hx, hitem]
  local_eq := fun hx _ => hlocal _ hx

theorem refl (hr : s.Rooted) : Framed owner s s :=
  .of_local_eq (.refl s) hr fun _ _ _ => rfl

theorem trans (hr : s.Rooted) (h : Framed owner s s₁) (h' : Framed owner s₁ s') :
    Framed owner s s' where
  toGrows := h.toGrows.trans h'.toGrows
  rooted := h'.rooted
  local_eq := by
    intro x hx howner name
    rw [h'.local_eq (h.keeps.has hx) (by rwa [h.keeps.namesOwner hr h.rooted hx]),
      h.local_eq hx howner]

theorem of_none (h : Framed none s s') : Framed owner s s' where
  toGrows := h.toGrows
  rooted := h.rooted
  local_eq := fun hx _ => h.local_eq hx (by simp)

theorem of_scopes_eq (hr : s.Rooted) (h : s'.scopes = s.scopes) : Framed owner s s' := by
  have hsame : s.SameShapes s' := .of_scopes_eq h
  refine .of_local_eq hsame.keeps (hsame.rooted hr) fun x hx =>
    getLocal?_keeps hsame.keeps hr (hsame.rooted hr) hx ?_
  unfold scope?
  rw [h]

theorem modifyLayout (hr : s.Rooted) (id : ScopeId) (f : Layout → Layout) :
    Framed owner s (s.modifyLayout id f) :=
  .of_local_eq (SameShapes.modifyLayout _ _ _).keeps ((SameShapes.modifyLayout _ _ _).rooted hr)
    fun _ hx => getLocal?_modifyLayout hr hx id f

theorem addScope (hr : s.Rooted) {scope : Scope} (hr' : (s.addScope scope).Rooted) :
    Framed owner s (s.addScope scope) :=
  .of_local_eq (keeps_addScope s scope) hr' fun _ hx => getLocal?_addScope hr hx hr'

theorem bind (hr : s.Rooted) {d : ScopeId} (hd : s.Has d) {name : String}
    (hfree : s.getLocal? d name = none) (item : Item) :
    Framed (some (s.namesOwner d)) s (s.bind d name item) where
  keeps := (SameShapes.bind _ _ _ _).keeps
  rooted := (SameShapes.bind _ _ _ _).rooted hr
  bound := by
    intro x other held hx hheld
    rw [getLocal?_bind hr hd hx, if_neg, hheld]
    rintro ⟨howner, rfl⟩
    unfold getLocal? names at hfree hheld
    rw [howner, hfree] at hheld
    cases hheld
  local_eq := by
    intro x hx howner other
    rw [getLocal?_bind hr hd hx, if_neg]
    rintro ⟨heq, -⟩
    exact howner (congrArg some heq.symm)

end Framed

theorem AddsFields.framed {d : ScopeId} {t : TypeRef} {names : List Ident} {s s' : Schema}
    (h : AddsFields d t names s s') (hr : s.Rooted) : Framed none s s' := by
  induction h with
  | nil => exact .refl hr
  | @warn names s s' f h ih =>
    have hwarn : Framed none s (s.addWarning f) := .of_scopes_eq hr rfl
    exact hwarn.trans hr (ih hwarn.rooted)
  | @cons name names s s' layout hl hnew h ih =>
    have hfield : Framed none s _ :=
      .modifyLayout hr d (·.addField name.text ⟨t, name.position⟩)
    exact hfield.trans hr (ih hfield.rooted)

/-- Whether a job binds names of the scope that it stands in. -/
def Job.binds : Job → Bool
  | .scope new _ _ => new.isProxy
  | .type _ _ | .length _ | .applied _ _ | .meaning _ _ => false
  | .bound _ _ | .statement _ | .statements _ => true

/-- The owner of the names that a job binds. -/
def Job.owner? (job : Job) (s : Schema) (d : ScopeId) : Option ScopeId :=
  if job.binds then some (s.namesOwner d) else none

theorem Stands.isProxy {d : ScopeId} {st : Statement} {scope : Scope} {body : List Statement}
    (h : Stands d st scope body) : scope.isProxy = false := by
  cases h with
  | space _ _ _ => rfl
  | struct _ _ _ => rfl
  | @variant _ _ _ kind hk =>
    unfold Scope.isProxy
    cases kind <;> simp [ScopeKind.path?, ScopeKind.isProxy] at hk ⊢

/-- What happens in a new scope concerns the names around it only if it is a proxy. -/
theorem Framed.leave {s s' : Schema} (hr : s.Rooted) {d : ScopeId} (hd : s.Has d) {scope : Scope}
    (hp : scope.parent = some d)
    (h : Framed (some ((s.addScope scope).namesOwner s.nextId)) (s.addScope scope) s') :
    Framed (if scope.isProxy then some (s.namesOwner d) else none) s s' := by
  have hr₁ := hr.addScope hd hp
  have hk := keeps_addScope s scope
  have hnew : (s.addScope scope).scope? s.nextId = some scope :=
    scope?_addScope_self s scope
  have hadded : Framed (if scope.isProxy then some (s.namesOwner d) else none) s
      (s.addScope scope) := .addScope hr hr₁
  refine ⟨hadded.toGrows.trans h.toGrows, h.rooted, fun {x} hx howner name => ?_⟩
  rw [h.local_eq (hk.has hx) ?_, hadded.local_eq hx howner]
  rw [hk.namesOwner hr hr₁ hx]
  cases hproxy : scope.isProxy with
  | true =>
    rw [hr₁.namesOwner_of_proxy hnew hproxy hp, hk.namesOwner hr hr₁ hd]
    simpa [hproxy] using howner
  | false =>
    rw [hr₁.namesOwner_of_not_proxy hnew hproxy]
    obtain ⟨owner, ho, -, -⟩ := hr.namesOwner_spec hx
    intro heq
    have hnone := scope?_nextId s
    rw [Option.some.inj heq, ho] at hnone
    cases hnone

theorem Makes.framed {ms : List Compilation} {d : ScopeId} {job : Job} {s s' : Schema}
    (h : Makes ms d job s s') (hr : s.Rooted) (hd : s.Has d) : Framed (job.owner? s d) s s' := by
  induction h with
  | @scope d task scope body s s' hopens h ih =>
    have hinside : Framed (some ((s.addScope scope).namesOwner s.nextId)) (s.addScope scope) s' :=
      ih (hr.addScope hd hopens.parent) (has_addScope s scope)
    exact hinside.leave hr hd hopens.parent
  | builtin _ _ => exact .refl hr
  | application _ h ih =>
    have happlied := ih hr hd
    exact happlied.trans hr (.of_scopes_eq happlied.rooted rfl)
  | named _ _ => exact .refl hr
  | grouped _ ih => exact ih hr hd
  | inline _ ih => exact ih hr hd
  | word _ => exact .refl hr
  | counted _ _ ih => exact ih hr hd
  | plain _ _ => exact .refl hr
  | measured _ _ _ ih => exact ih hr hd
  | array _ _ _ ihl ih =>
    have hlength : Framed none _ _ := ihl hr hd
    have helem : Framed none _ _ := ih hlength.rooted (hlength.keeps.has hd)
    exact hlength.trans hr helem
  | boolOptional _ _ ih => exact ih hr hd
  | @opened d st scope body id s s' hst _ ih =>
    have hscope : Framed (if scope.isProxy then some (s.namesOwner d) else none) s s' := ih hr hd
    rwa [hst.isProxy] at hscope
  | assigned _ _ ih => exact ih hr hd
  | @bound d st name item s s' _ hfree h ih =>
    have hmeaning : Framed none s s' := ih hr hd
    have hd' := hmeaning.keeps.has hd
    have hfree' : s'.getLocal? d name.text = none := by
      rw [hmeaning.local_eq hd (by simp), hfree]
    have hbind := Framed.bind hmeaning.rooted hd' hfree' item
    rw [hmeaning.keeps.namesOwner hr hmeaning.rooted hd] at hbind
    exact hmeaning.of_none.trans hr hbind
  | declared _ _ ih => exact ih hr hd
  | variant _ _ _ _ _ ih =>
    have hbound := ih hr hd
    exact hbound.trans hr (.modifyLayout hbound.rooted _ _)
  | @proxy d p kind body id s s' hk _ ih =>
    have hscope : Framed (if kind.isProxy then some (s.namesOwner d) else none) s s' := ih hr hd
    rwa [hk] at hscope
  | constraint _ _ _ => exact .modifyLayout hr _ _
  | fields _ _ hadds ih =>
    have htype : Framed none _ _ := ih hr hd
    exact htype.of_none.trans hr (hadds.framed htype.rooted).of_none
  | nil => exact .refl hr
  | @cons d st sts s s₁ s' _ _ ih ihrest =>
    have hst : Framed (some (s.namesOwner d)) s s₁ := ih hr hd
    have hrest := ihrest hst.rooted (hst.keeps.has hd)
    unfold Job.owner? Job.binds at hrest
    rw [hst.keeps.namesOwner hr hst.rooted hd] at hrest
    exact hst.trans hr hrest

end PacketSchema.Compilation
