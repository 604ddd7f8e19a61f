import PacketSchema.Proofs.Compilation.Composing
import PacketSchema.Proofs.Compilation.Stages

/-! Compiling takes the steps of the machine. Declarations leave the open scopes as they found them,
and where a compilation fails, it does so at a stage that steps lead to. -/

namespace PacketSchema

/-- A variant could not become a branch of the struct that was found for it. -/
def SchemaError.IsRegistration : SchemaError → Prop
  | duplicate _ .branch _ | unresolvedBranch _ (.noBranches _) => True
  | _ => False

theorem SchemaError.IsSyntactic.not_isRegistration {e : SchemaError} (h : e.IsSyntactic) :
    ¬ e.IsRegistration := by
  intro he
  cases e <;> first | exact he | exact h

theorem Statement.Undotted.name {st : Statement} (h : st.Undotted) {name : Ident}
    (hname : st.name? = some name) : PacketSchema.Undotted name.text := by
  cases st with
  | space _ _ o | type _ _ o | variant _ _ o =>
    cases hname
    cases o with
    | none => exact h
    | some _ => exact h.1
  | constraint _ _ _ | fields _ _ _ => cases hname

theorem Statement.Undotted.inside {st : Statement} (h : st.Undotted) {body : List Statement}
    (hbody : st.inside? = some body) : AllUndotted body := by
  obtain rfl | ⟨p, q, ⟨name, rfl⟩ | ⟨name, rfl⟩ | ⟨name, rfl⟩⟩ := inside?_cases hbody
  · exact trivial
  · exact h.2
  · exact h.2
  · cases name with
    | none => exact h
    | some _ => exact h.2

namespace Compilation

open Schema

/-- The next step has to make a variant a branch, and there is no place for it. -/
def Stuck (st : Stage) : Prop :=
  ∃ r d id fs scope base path, st = ⟨r, ⟨d, .branching id⟩ :: fs⟩ ∧
    r.current.schema.scope? id = some scope ∧ scope.kind.base? = some base ∧
    scope.kind.path? = some path ∧
    ∀ layout, r.current.schema.layout? base = some layout → layout.branches.find? path ≠ none

/-- What is run takes the steps from some open scopes to others, up to where it fails. -/
def Follows {α : Type} (r : Recording) (fs gs : List Frame) (x : Recorded α) : Prop :=
  match x.run r with
  | (.ok _, r') => Steps ⟨r, fs⟩ ⟨r', gs⟩
  | (.error e, r') =>
    ∃ hs, Steps ⟨r, fs⟩ ⟨r', hs⟩ ∧ (e.IsRegistration → Stuck ⟨r', hs⟩)

/-- What is run leaves the open scopes as they are. -/
def Stays {α : Type} (fs : List Frame) (x : Recorded α) : Prop := ∀ r, Follows r fs fs x

namespace Follows

variable {α β : Type} {r : Recording} {fs gs hs : List Frame}

theorem steps_of_ok {x : Recorded α} {a : α} {r' : Recording} (h : Follows r fs gs x)
    (hrun : x.run r = (.ok a, r')) : Steps ⟨r, fs⟩ ⟨r', gs⟩ := by
  unfold Follows at h
  rw [hrun] at h
  exact h

theorem steps_of_error {x : Recorded α} {e : SchemaError} {r' : Recording} (h : Follows r fs gs x)
    (hrun : x.run r = (.error e, r')) :
    ∃ hs, Steps ⟨r, fs⟩ ⟨r', hs⟩ ∧ (e.IsRegistration → Stuck ⟨r', hs⟩) := by
  unfold Follows at h
  rw [hrun] at h
  exact h

theorem pure (a : α) : Follows r fs fs (pure a) := .refl

theorem stuck {e : SchemaError} (h : Stuck ⟨r, fs⟩) : Follows r fs gs (throw e : Recorded α) :=
  ⟨fs, .refl, fun _ => h⟩

theorem stuck_bind {e : SchemaError} {f : α → Recorded β} (h : Stuck ⟨r, fs⟩) :
    Follows r fs gs (throw e >>= f) :=
  stuck h

theorem throw {e : SchemaError} (h : ¬ e.IsRegistration) :
    Follows r fs gs (throw e : Recorded α) :=
  ⟨fs, .refl, fun he => absurd he h⟩

theorem throw_bind {e : SchemaError} {f : α → Recorded β} (h : ¬ e.IsRegistration) :
    Follows r fs gs (MonadExcept.throw e >>= f) :=
  throw h

theorem bind {x : Recorded α} {f : α → Recorded β} (hx : Follows r fs gs x)
    (hf : ∀ a r', x.run r = (.ok a, r') → Steps ⟨r, fs⟩ ⟨r', gs⟩ → Follows r' gs hs (f a)) :
    Follows r fs hs (x >>= f) := by
  unfold Follows
  rw [run_bind]
  rcases hrun : x.run r with ⟨e | a, r'⟩
  · exact hx.steps_of_error hrun
  · have hsteps := hx.steps_of_ok hrun
    have h := hf a r' hrun hsteps
    dsimp only
    rcases hrest : (f a).run r' with ⟨e | b, r''⟩
    · obtain ⟨ks, hrest, hstuck⟩ := h.steps_of_error hrest
      exact ⟨ks, hsteps.trans hrest, hstuck⟩
    · exact hsteps.trans (h.steps_of_ok hrest)

theorem after {x : Recorded α} (h : Steps ⟨r, fs⟩ ⟨r, gs⟩) (hx : Follows r gs hs x) :
    Follows r fs hs x := by
  unfold Follows
  rcases hrun : x.run r with ⟨e | a, r'⟩
  · obtain ⟨ks, hsteps, hstuck⟩ := hx.steps_of_error hrun
    exact ⟨ks, h.trans hsteps, hstuck⟩
  · exact h.trans (hx.steps_of_ok hrun)

theorem get_bind {f : Compilation → Recorded β} (h : Follows r fs gs (f r.current)) :
    Follows r fs gs (get >>= f) := h

theorem step {f : Compilation → Compilation}
    (h : Step ⟨r, fs⟩ ⟨r.push (f r.current), gs⟩) : Follows r fs gs (modify f) := .single h

theorem step_bind {f : Compilation → Compilation} {g : Unit → Recorded β}
    (h : Step ⟨r, fs⟩ ⟨r.push (f r.current), gs⟩)
    (hg : Follows (r.push (f r.current)) gs hs (g ())) : Follows r fs hs (modify f >>= g) :=
  (step h).bind fun _ _ hrun _ => by cases hrun; exact hg

theorem report_bind {e : Event} {g : Unit → Recorded β}
    (hg : Follows (r.push { r.current with log := r.current.log ++ [e] }) fs gs (g ())) :
    Follows r fs gs (report e >>= g) :=
  step_bind (.note (.report e)) hg

theorem refuseIf_bind {p : Prop} [Decidable p] {e : SchemaError} {g : Unit → Recorded β}
    (he : ¬ e.IsRegistration) (hg : ¬ p → Follows r fs gs (g ())) :
    Follows r fs gs (refuseIf p e >>= g) := by
  unfold refuseIf
  split
  · exact throw_bind he
  · exact hg ‹_›

theorem checkFree_bind {d : ScopeId} {name : Ident} {g : Unit → Recorded β}
    (hg : r.current.schema.getLocal? d name.text = none → Follows r fs gs (g ())) :
    Follows r fs gs (checkFree d name >>= g) := by
  unfold checkFree
  rw [bind_assoc]
  refine get_bind (refuseIf_bind id fun hfree => hg ?_)
  simpa using hfree

end Follows

namespace Stays

variable {α β : Type} {fs : List Frame}

theorem pure (a : α) : Stays fs (pure a) := fun _ => .pure a

theorem throw {e : SchemaError} (h : ¬ e.IsRegistration) : Stays fs (throw e : Recorded α) :=
  fun _ => .throw h

theorem bind {x : Recorded α} {f : α → Recorded β} (hx : Stays fs x) (hf : ∀ a, Stays fs (f a)) :
    Stays fs (x >>= f) := fun r => (hx r).bind fun a r' _ _ => hf a r'

theorem get_bind {f : Compilation → Recorded β} (hf : ∀ c, Stays fs (f c)) :
    Stays fs (get >>= f) := fun r => hf r.current r

theorem report (e : Event) : Stays fs (report e) := fun _ => .step (.note (.report e))

theorem intern (t : ParamType) : Stays fs (intern t) := by
  intro r
  refine .get_bind (.report_bind (.step_bind (.note ?_) (.pure _)))
  exact .intern t

theorem warnLate (d : ScopeId) (name : Ident) : Stays fs (warnLate d name) :=
  fun _ => .get_bind (.report_bind (.step (.note (.warn _))))

theorem addField (d : ScopeId) (t : TypeRef) (name : Ident) :
    Stays (⟨d, .idle⟩ :: fs) (addField d t name) := by
  intro r
  refine .get_bind ?_
  split
  case h_1 => exact .throw id
  case h_2 layout hl =>
    refine .refuseIf_bind id fun hnew => ?_
    have hnew : layout.fields.find? name.text = none := by simpa [Table.contains] using hnew
    refine .step_bind (.field _ hl hnew) (.report_bind ?_)
    split
    · exact warnLate d name _
    · exact .pure ()

theorem checkFits_bind {r : Recording} {layout : Layout} {p : Position} {name : String}
    {value : Literal} {gs : List Frame} {g : Unit → Recorded β}
    (hg : Fits r.current layout name value → Follows r fs gs (g ())) :
    Follows r fs gs (checkFits layout p name value >>= g) := by
  unfold checkFits
  rw [bind_assoc]
  refine .get_bind ?_
  split
  case h_1 hnone => exact hg fun _ field hfield => by rw [hnone] at hfield; cases hfield
  case h_2 field hfield =>
    refine .refuseIf_bind id fun hfits => hg fun htyped found hfound => ?_
    rw [hfield] at hfound
    cases hfound
    simpa [htyped] using hfits

theorem checkConsistent_bind {r : Recording} {layout : Layout} {p : Position} {name : String}
    {value : Literal} {gs : List Frame} {g : Unit → Recorded β}
    (hg : (∀ existing, layout.constraints.find? name = some existing → existing = value) →
      Follows r fs gs (g ())) :
    Follows r fs gs (checkConsistent layout p name value >>= g) := by
  unfold checkConsistent
  split
  case h_1 hnone => exact hg fun existing hexisting => by rw [hnone] at hexisting; cases hexisting
  case h_2 existing hexisting =>
    refine .refuseIf_bind id fun hsame => hg fun found hfound => ?_
    rw [hexisting] at hfound
    cases hfound
    simpa using hsame

theorem addConstraint (d : ScopeId) (p : Position) (left right : Operand) :
    Stays (⟨d, .idle⟩ :: fs) (addConstraint d p left right) := by
  intro r
  refine .get_bind ?_
  split
  case h_1 => exact .throw id
  case h_2 layout hl =>
    unfold Compilation.constrainedName
    split
    case h_2 => exact .throw id
    case h_1 name _ =>
      unfold Compilation.constrainingLiteral
      split
      case h_2 => exact .throw id
      case h_1 value =>
        refine checkFits_bind fun hfits => checkConsistent_bind fun hsame => ?_
        exact .report_bind (.step (.constraint hl hfits hsame))

/-! ## Types -/

section

variable {a : Argument Recorded}

theorem prefixedLength (h : Stays fs a.resolve) (owner : Builtin) :
    Stays fs (a.prefixedLength owner) := by
  refine h.bind fun t => ?_
  split
  · split
    · exact pure _
    · exact throw id
  · exact throw id

theorem length (h : Stays fs a.resolve) (owner : Builtin) : Stays fs (a.length owner) := by
  have hp := prefixedLength h owner
  unfold Argument.length
  split
  · split
    · exact pure _
    · exact throw id
  · exact throw id
  · split
    · split
      · exact pure _
      · exact throw id
    · exact hp
  · exact hp

theorem word (owner : Builtin) : Stays fs (a.word owner) := by
  unfold Argument.word
  split
  · exact pure _
  · exact pure _
  · exact throw id

theorem encoding {α : Type} (owner : Builtin) (ofName? : String → Option α) :
    Stays fs (a.encoding owner ofName?) := by
  refine (word owner).bind fun w => ?_
  split
  · exact pure _
  · exact throw id

theorem paramType? {as : List (Argument Recorded)} (h : ∀ a ∈ as, Stays fs a.resolve)
    {b : Builtin} {t : Recorded ParamType} (ht : paramType? b as = some t) : Stays fs t := by
  unfold Compilation.paramType? at ht
  split at ht
  case h_1 => split at ht <;> cases ht <;> exact pure _
  case h_2 a =>
    have ha : Stays fs a.resolve := h a (by simp)
    split at ht
    · cases ht
      exact (length ha _).bind fun _ => pure _
    · cases ht
      exact (length ha _).bind fun _ => pure _
    · cases ht
      exact (encoding _ _).bind fun _ => pure _
    · cases ht
      exact ha.bind fun _ => pure _
    · cases ht
  case h_3 l e =>
    have hl : Stays fs l.resolve := h l (by simp)
    have he : Stays fs e.resolve := h e (by simp)
    split at ht
    · cases ht
      exact (length hl _).bind fun _ => (encoding _ _).bind fun _ => pure _
    · cases ht
      exact (length hl _).bind fun _ => he.bind fun _ => pure _
    · cases ht
  case h_4 => cases ht

theorem apply {as : List (Argument Recorded)} (h : ∀ a ∈ as, Stays fs a.resolve) (b : Builtin)
    (p : Position) : Stays fs (apply b p as) := by
  unfold Compilation.apply
  split
  case h_1 t ht => exact (paramType? h ht).bind fun _ => intern _
  case h_2 =>
    split
    · exact throw id
    · exact pure _

theorem resolveName {as : List (Argument Recorded)} (h : ∀ a ∈ as, Stays fs a.resolve)
    (d : ScopeId) (name : Name) (p : Position) : Stays fs (resolveName d name p as) := by
  unfold Compilation.resolveName
  split
  · exact apply h _ _
  · refine get_bind fun c => ?_
    split
    · split
      · exact pure _
      · exact throw id
    · exact throw id

end

end Stays

/-! ## Scopes -/

section

variable {β : Type} {r : Recording} {fs gs : List Frame} {d : ScopeId} {task : Task}
  {inside : ScopeId → Recorded Unit}

/-- The scope is open after its inside has been compiled, and it is the one that was added. -/
theorem Follows.addScopeWith_bind {scope : Scope} {g : ScopeId → Recorded β}
    (hopens : Opens r.current.schema d task scope)
    (hinside : ∀ id hs, Stays (⟨id, .idle⟩ :: hs) (inside id))
    (hg : ∀ r' id scope', r'.current.schema.scope? id = some scope' → scope'.shape = scope.shape →
      Follows r' (⟨id, .idle⟩ :: ⟨d, task⟩ :: fs) gs (g id)) :
    Follows r (⟨d, task⟩ :: fs) gs (addScopeWith scope inside >>= g) := by
  unfold addScopeWith addScope
  simp only [bind_assoc, pure_bind]
  refine .get_bind (.step_bind (.enter hopens) ?_)
  refine (hinside _ _ _).bind fun _ r' _ hsteps => ?_
  obtain ⟨scope', hs', heq⟩ := hsteps.keeps _ scope (scope?_addScope_self _ _)
  exact hg r' _ scope' hs' heq

/-- A struct without a name. -/
theorem Stays.addStruct (hinside : ∀ id hs, Stays (⟨id, .idle⟩ :: hs) (inside id)) (d : ScopeId)
    (name : Option String) (p : Position) :
    Stays (⟨d, .ofName name⟩ :: fs) (addStruct d none p inside) := by
  intro r
  refine Follows.addScopeWith_bind (.inline p) hinside fun r' id scope' hs' heq => ?_
  exact .after (.single (.leave hs' (Scope.name_eq heq))) (.pure _)

/-- A scope without a path is just bound when it is complete. -/
theorem Follows.conclude {scope scope' : Scope} {id : ScopeId} {name : String}
    (hs' : r.current.schema.scope? id = some scope') (heq : scope'.shape = scope.shape)
    (hname : scope.name = some name) (hpath : scope.kind.path? = none) :
    Follows r (⟨id, .idle⟩ :: ⟨d, .naming name⟩ :: fs) (⟨d, .idle⟩ :: fs)
      (Compilation.bind d name (scope.item id)) := by
  have hname' : scope'.name = some name := by rw [Scope.name_eq heq, hname]
  have hafter : Task.after id scope' = .idle :=
    Task.after_of_no_path (by rw [Scope.path?_eq heq, hpath])
  have hstep : Step ⟨r, _⟩ ⟨_, ⟨d, .after id scope'⟩ :: fs⟩ := .conclude hs' hname'
  rw [Scope.item_shape heq, hafter] at hstep
  exact .step hstep

theorem Stays.addSpace (hinside : ∀ id hs, Stays (⟨id, .idle⟩ :: hs) (inside id)) {name : Ident}
    (hname : Undotted name.text) (d : ScopeId) (p : Position) :
    Stays (⟨d, .idle⟩ :: fs) (addSpace d name p inside) := by
  intro r
  refine .checkFree_bind fun hfree => .after (.single (.announce hname hfree)) (.report_bind ?_)
  refine Follows.addScopeWith_bind (.space _ p) hinside fun r' id scope' hs' heq => ?_
  exact .conclude hs' heq rfl rfl

theorem Stays.addType_struct (hinside : ∀ id hs, Stays (⟨id, .idle⟩ :: hs) (inside id))
    {name : Ident} (hname : Undotted name.text) (d : ScopeId) (p : Position) :
    Stays (⟨d, .idle⟩ :: fs)
      (addType d name p (Compilation.addStruct d (some name.text) p inside)) := by
  intro r
  refine .checkFree_bind fun hfree => .after (.single (.announce hname hfree)) (.report_bind ?_)
  unfold Compilation.addStruct
  simp only [bind_assoc, pure_bind]
  refine Follows.addScopeWith_bind (.struct _ p) hinside fun r' id scope' hs' heq => ?_
  exact .conclude hs' heq rfl rfl

theorem Stays.addType_alias {d : ScopeId} {name : Ident} {x : Recorded TypeRef}
    (hname : Undotted name.text) (hx : Stays (⟨d, .naming name.text⟩ :: fs) x) (p : Position) :
    Stays (⟨d, .idle⟩ :: fs) (addType d name p x) := by
  intro r
  refine .checkFree_bind fun hfree => .after (.single (.announce hname hfree)) (.report_bind ?_)
  exact (hx _).bind fun t r' _ _ => .step (.assign t)

/-! ## Variants -/

theorem Follows.anchor_bind {name : Option String} {p : Position} {g : Anchor → Recorded β}
    (hg : ∀ a, climb none (name.map ([·])) (r.current.schema.chain d) = some a →
      Follows r fs gs (g a)) :
    Follows r fs gs (anchor d name p >>= g) := by
  unfold anchor
  rw [bind_assoc]
  refine .get_bind ?_
  split
  case h_1 a ha => exact hg a ha
  case h_2 => exact .throw_bind id

theorem Follows.takeSnapshot_bind {source : ScopeId} {g : Layout → Recorded β}
    (hg : Follows (r.push { r.current with snapshotted := source :: r.current.snapshotted }) fs gs
      (g (((r.current.schema.layout? source).map Layout.snapshot).getD {}))) :
    Follows r fs gs (takeSnapshot source >>= g) := by
  unfold takeSnapshot
  simp only [bind_assoc, pure_bind]
  exact .step_bind (.note (.mark source)) (.get_bind hg)

/-- Making a variant a branch fails only where there is no place for it. -/
theorem Follows.addBranch {scope : Scope} {id base : ScopeId} {path : Path}
    (hs : r.current.schema.scope? id = some scope) (hb : scope.kind.base? = some base)
    (hp : scope.kind.path? = some path) (p : Position) :
    Follows r (⟨d, .branching id⟩ :: fs) (⟨d, .idle⟩ :: fs) (addBranch base path id p) := by
  refine .get_bind ?_
  split
  case h_1 hnone =>
    refine .stuck ⟨r, d, id, fs, scope, base, path, rfl, hs, hb, hp, fun layout hl => ?_⟩
    rw [hnone] at hl
    cases hl
  case h_2 layout hl =>
    unfold refuseIf
    split
    case isTrue hfound =>
      have hstuck : Stuck ⟨r, ⟨d, .branching id⟩ :: fs⟩ := by
        refine ⟨r, d, id, fs, scope, base, path, rfl, hs, hb, hp, fun found hfl => ?_⟩
        rw [hl] at hfl
        cases hfl
        exact Option.isSome_iff_ne_none.1 hfound
      exact .stuck_bind hstuck
    case isFalse hfound =>
      have hnew : layout.branches.find? path = none := by simpa [Table.contains] using hfound
      exact .step (.register hs hb hp hl hnew)

theorem Stays.addProxy (hinside : ∀ id hs, Stays (⟨id, .idle⟩ :: hs) (inside id)) (d : ScopeId)
    (p : Position) : Stays (⟨d, .idle⟩ :: fs) (addVariant d none p inside) := by
  intro r
  refine .anchor_bind fun a ha => .takeSnapshot_bind (.get_bind (.report_bind ?_))
  refine Follows.addScopeWith_bind (.arm none p ha) hinside fun r' id scope' hs' heq => ?_
  exact .after (.single (.leave hs' (Scope.name_eq heq))) (.pure ())

theorem Stays.addVariant (hinside : ∀ id hs, Stays (⟨id, .idle⟩ :: hs) (inside id)) {name : Ident}
    (hname : Undotted name.text) (d : ScopeId) (p : Position) :
    Stays (⟨d, .idle⟩ :: fs) (addVariant d (some name) p inside) := by
  intro r
  refine .checkFree_bind fun hfree => .after (.single (.announce hname hfree)) ?_
  refine .anchor_bind fun a ha => .takeSnapshot_bind (.get_bind (.report_bind ?_))
  refine Follows.addScopeWith_bind (.arm (some name.text) p ha) hinside
    fun r' id scope' hs' heq => ?_
  obtain ⟨path, hpath⟩ := Option.isSome_iff_exists.1 (climb_path_isSome ha)
  have hname' : scope'.name = some name.text := Scope.name_eq heq
  have hbase' : scope'.kind.base? = some a.base := by
    rw [Scope.base?_eq heq, Anchor.kind_base?]
  have hpath' : scope'.kind.path? = some path := by
    rw [Scope.path?_eq heq, Anchor.kind_path?, hpath]
  have hitem : scope'.item id = .type (.struct id) := by
    unfold Scope.item
    cases hk : scope'.kind <;> simp [hk, ScopeKind.path?] at hpath' ⊢
  have hafter : Task.after id scope' = .branching id := Task.after_of_path hpath'
  have hstep : Step ⟨r', _⟩ ⟨_, ⟨d, .after id scope'⟩ :: fs⟩ := .conclude hs' hname'
  rw [hitem, hafter] at hstep
  rw [hpath]
  refine .step_bind hstep ?_
  obtain ⟨scope'', hs'', heq'⟩ := hstep.keeps _ _ hs'
  exact .addBranch hs'' (by rw [Scope.base?_eq heq', hbase'])
    (by rw [Scope.path?_eq heq', hpath']) p

end

/-! ## Declarations -/

namespace Stays

variable {fs : List Frame}

theorem names (d : ScopeId) (t : TypeRef) :
    ∀ names : List Ident, Stays (⟨d, .idle⟩ :: fs) (names.forM (Compilation.addField d t))
  | [] => pure ()
  | name :: names => (addField d t name).bind fun _ => Stays.names d t names

/-- What is compiled leaves the scopes around it as they are. -/
theorem closed : Cases (m := Recorded)
    (fun d e x => e.Undotted → ∀ name fs, Stays (⟨d, .ofName name⟩ :: fs) x)
    (fun d a x => a.Undotted → ∀ name fs, Stays (⟨d, .ofName name⟩ :: fs) x)
    (fun d as xs => TypeArg.AllUndotted as → ∀ name fs, ∀ x ∈ xs,
      Stays (⟨d, .ofName name⟩ :: fs) x.resolve)
    (fun d st x => st.Undotted → ∀ fs, Stays (⟨d, .idle⟩ :: fs) x)
    (fun d body x => Statement.AllUndotted body → ∀ fs, Stays (⟨d, .idle⟩ :: fs) x) where
  applied hargs _ _ h name fs := resolveName (hargs h.2 name fs) _ _ _
  grouped he _ h := he h.1
  literal _ _ _ _ _ _ := throw id
  headed _ _ _ _ _ _ _ := throw id
  inline hbody _ _ h _ _ := addStruct (fun id => hbody id h) _ _ _
  nameArg _ _ _ _ _ := resolveName (by simp) _ _ _
  literalArg _ _ _ _ _ := throw id
  typeArg he := he
  noArgs _ _ _ _ := by simp
  moreArgs ha has h name fs := List.forall_mem_cons.2 ⟨ha h.1 name fs, has h.2 name fs⟩
  space hbody _ _ _ h _ :=
    addSpace (fun id => hbody id (h.inside rfl)) (h.name rfl) _ _
  struct he hbody _ _ _ h _ :=
    addType_struct (fun id => hbody id (h.inside he)) (h.name rfl) _ _
  synonym _ he _ name h fs := addType_alias (h.name rfl) (he h.2 (some name.text) fs) _
  variant hbody _ _ name h _ := by
    cases name with
    | none => exact addProxy (fun id => hbody id (h.inside rfl)) _ _
    | some name => exact addVariant (fun id => hbody id (h.inside rfl)) (h.name rfl) _ _
  constraint _ _ _ _ _ _ := addConstraint _ _ _ _
  fields he _ ns h fs := (he h none fs).bind fun t => names _ t ns
  nil _ _ _ := pure ()
  cons hst hsts h fs := (hst h.1 fs).bind fun _ => hsts h.2 fs

theorem addText (source text : String) : Stays [⟨root, .idle⟩] (addText source text) := by
  refine (report _).bind fun _ => ?_
  split
  case h_1 body hbody =>
    obtain ⟨p, statements⟩ := body
    have hundotted := Body.ofText_undotted hbody
    unfold Body.Undotted at hundotted
    exact closed.declareAll _ statements hundotted []
  case h_2 e he => exact throw (Body.ofText_error he).not_isRegistration

theorem addTexts :
    ∀ sources : List (String × String), Stays [⟨root, .idle⟩] (addTexts sources)
  | [] => pure ()
  | (source, text) :: sources => (addText source text).bind fun _ => addTexts sources

end Stays

/-- A compilation that succeeds ends with nothing but the root open. -/
theorem recorded_ok {options : Options} {sources : List (String × String)} {r : Recording}
    (h : recorded options sources = (.ok (), r)) :
    Steps (.start options) ⟨r, [⟨root, .idle⟩]⟩ :=
  (Stays.addTexts sources ⟨.start options, []⟩).steps_of_ok h

theorem recorded_error {options : Options} {sources : List (String × String)} {r : Recording}
    {e : SchemaError} (h : recorded options sources = (.error e, r)) :
    ∃ fs, Steps (.start options) ⟨r, fs⟩ ∧ (e.IsRegistration → Stuck ⟨r, fs⟩) :=
  (Stays.addTexts sources ⟨.start options, []⟩).steps_of_error h

end Compilation

end PacketSchema
