import PacketSchema.Proofs.Compilation.Mirroring

/-! Where errors and warnings point. What a compilation refuses or warns about stands in the
declarations that it compiles, and never in what has been compiled before or reported about it.
Declarations stand at certain positions if a print keeps them that puts everything at one of
these. -/

namespace PacketSchema

/-- An error stands where its position is. -/
theorem SchemaError.reprint_of_position {r : Print} {e : SchemaError} {p : Position}
    (he : e.position? = some p) (hp : p.reprint r = p) : e.reprint r = e := by
  cases e <;> cases he <;> simp only [reprint, hp]

namespace Compilation

/-- What a computation refuses or warns about stands at positions that the print keeps, and nothing
depends on earlier reports. -/
structure Points {α : Type} (r : Print) (x : Build α) : Prop where
  error : ∀ {c e c'}, x.run c = (.error e, c') → ∃ p, e.position? = some p ∧ p.reprint r = p
  warnings : ∀ c, ∃ new, (x.run c).2.schema.warnings = c.schema.warnings ++ new ∧
    ∀ w ∈ new, w.reprint r = w
  log : ∀ c log, ∃ log', x.run { c with log } = ((x.run c).1, { (x.run c).2 with log := log' })

/-- The argument stands at positions that the print keeps, and so does what resolving it points
to. -/
structure Argument.Points (r : Print) (a : Argument Build) : Prop where
  arg : a.arg.reprint r = a.arg
  resolve : Compilation.Points r a.resolve

theorem Argument.Points.position_eq {r : Print} {a : Argument Build} (h : a.Points r) :
    a.position.reprint r = a.position := by
  unfold Argument.position
  rw [← TypeArg.position_reprint, h.arg]

namespace Points

variable {α β : Type} {r : Print}

theorem pure (a : α) : Points r (pure a : Build α) where
  error := fun h => nomatch h
  warnings := fun c => ⟨[], (List.append_nil _).symm, by simp⟩
  log := fun _ log => ⟨log, rfl⟩

theorem throw {e : SchemaError} {p : Position} (he : e.position? = some p)
    (hp : p.reprint r = p) : Points r (throw e : Build α) where
  error := by
    rintro _ _ _ ⟨⟩
    exact ⟨p, he, hp⟩
  warnings := fun c => ⟨[], (List.append_nil _).symm, by simp⟩
  log := fun _ log => ⟨log, rfl⟩

theorem bind {x : Build α} {g : α → Build β} (hx : Points r x) (hg : ∀ a, Points r (g a)) :
    Points r (x >>= g) where
  error := by
    intro c e c' h
    rw [run_bind] at h
    rcases hrun : x.run c with ⟨e' | a, c₁⟩
    · rw [hrun] at h
      cases h
      exact hx.error hrun
    · rw [hrun] at h
      exact (hg a).error h
  warnings := by
    intro c
    obtain ⟨new, hnew, hkept⟩ := hx.warnings c
    rw [run_bind]
    rcases hrun : x.run c with ⟨e' | a, c₁⟩
    · rw [hrun] at hnew
      exact ⟨new, hnew, hkept⟩
    · rw [hrun] at hnew
      obtain ⟨more, hmore, hkept'⟩ := (hg a).warnings c₁
      refine ⟨new ++ more, ?_, List.forall_mem_append.2 ⟨hkept, hkept'⟩⟩
      rw [hmore, hnew, List.append_assoc]
  log := by
    intro c log
    obtain ⟨log₁, hlog₁⟩ := hx.log c log
    rw [run_bind, run_bind, hlog₁]
    rcases x.run c with ⟨e' | a, c₁⟩
    · exact ⟨log₁, rfl⟩
    · exact (hg a).log c₁ log₁

theorem get_bind {g : Compilation → Build α} (hg : ∀ c, Points r (g c))
    (hlog : ∀ c log, g { c with log } = g c) : Points r (get >>= g) where
  error := fun h => (hg _).error h
  warnings := fun c => (hg c).warnings c
  log := by
    intro c log
    rw [run_get_bind, run_get_bind, hlog]
    exact (hg c).log c log

theorem modifySchema {g : Schema → Schema} (hg : ∀ s, (g s).warnings = s.warnings) :
    Points r (modifySchema g : Build Unit) where
  error := fun h => nomatch h
  warnings := fun c => ⟨[], (hg _).trans (List.append_nil _).symm, by simp⟩
  log := fun _ log => ⟨log, rfl⟩

theorem report (e : Event) : Points r (report e : Build Unit) where
  error := fun h => nomatch h
  warnings := fun c => ⟨[], (List.append_nil _).symm, by simp⟩
  log := fun _ log => ⟨log ++ [e], rfl⟩

theorem addWarning {w : Finding} (h : w.reprint r = w) :
    Points r (Compilation.modifySchema (·.addWarning w) : Build Unit) where
  error := fun h => nomatch h
  warnings := fun c => ⟨[w], rfl, by simpa using h⟩
  log := fun _ log => ⟨log, rfl⟩

theorem refuseIf (q : Prop) [Decidable q] {e : SchemaError} {p : Position}
    (he : e.position? = some p) (hp : p.reprint r = p) :
    Points r (refuseIf q e : Build Unit) := by
  unfold Compilation.refuseIf
  split
  · exact throw he hp
  · exact pure ()

theorem addScope (scope : Scope) : Points r (addScope scope : Build ScopeId) := by
  refine get_bind (fun _ => bind (modifySchema ?_) fun _ => pure _) fun _ _ => rfl
  exact fun _ => rfl

theorem bindName (d : ScopeId) (name : String) (item : Item) :
    Points r (Compilation.bind d name item : Build Unit) :=
  modifySchema fun _ => rfl

theorem intern (t : ParamType) : Points r (intern t : Build TypeRef) := by
  refine get_bind (fun _ => (report _).bind fun _ => bind (modifySchema ?_) fun _ => pure _)
    fun _ _ => rfl
  exact fun _ => rfl

theorem takeSnapshot (source : ScopeId) : Points r (takeSnapshot source : Build Layout) where
  error := fun h => nomatch h
  warnings := fun c => ⟨[], (List.append_nil _).symm, by simp⟩
  log := fun _ log => ⟨log, rfl⟩

/-! ## Declarations at positions that the print keeps -/

section

variable {p : Position} {name : Ident}

theorem checkFree (d : ScopeId) (hname : name.reprint r = name) :
    Points r (checkFree d name : Build Unit) :=
  get_bind (fun _ => refuseIf _ rfl (congrArg Ident.position hname)) fun _ _ => rfl

theorem anchor (d : ScopeId) (name : Option String) (hp : p.reprint r = p) :
    Points r (anchor d name p : Build Anchor) := by
  refine get_bind (fun _ => ?_) fun _ _ => rfl
  split
  · exact pure _
  · exact throw rfl hp

theorem addBranch (base : ScopeId) (path : Path) (id : ScopeId) (hp : p.reprint r = p) :
    Points r (addBranch base path id p : Build Unit) := by
  refine get_bind (fun _ => ?_) fun _ _ => rfl
  split
  · exact throw rfl hp
  · refine (refuseIf _ rfl hp).bind fun _ => modifySchema ?_
    exact fun _ => rfl

theorem warnLate (d : ScopeId) (hname : name.reprint r = name) :
    Points r (warnLate d name : Build Unit) := by
  have hplace : r.place name.position.place = name.position.place :=
    congrArg (fun i => i.position.place) hname
  refine get_bind (fun _ => (report _).bind fun _ => addWarning ?_) fun _ _ => rfl
  simp only [Finding.reprint, hplace]

theorem addField (d : ScopeId) (t : TypeRef) (hname : name.reprint r = name) :
    Points r (addField d t name : Build Unit) := by
  have hp := congrArg Ident.position hname
  refine get_bind (fun c => ?_) fun _ _ => rfl
  split
  · exact throw rfl hp
  · refine (refuseIf _ rfl hp).bind fun _ => bind (modifySchema ?_) fun _ =>
      (report _).bind fun _ => ?_
    · exact fun _ => rfl
    · split
      · exact warnLate d hname
      · exact pure ()

theorem addConstraint (d : ScopeId) {left right : Operand} (hp : p.reprint r = p)
    (hleft : left.reprint r = left) (hright : right.reprint r = right) :
    Points r (addConstraint d p left right : Build Unit) := by
  have hposition : ∀ {o : Operand}, o.reprint r = o → o.position.reprint r = o.position := by
    intro o ho
    have hsame := congrArg Operand.position ho
    cases o <;> exact hsame
  refine get_bind (fun c => ?_) fun _ _ => rfl
  split
  · exact throw rfl hp
  · refine bind ?_ fun _ => bind ?_ fun _ => bind ?_ fun _ => bind ?_ fun _ =>
      (report _).bind fun _ => modifySchema ?_
    · unfold constrainedName
      split
      · exact pure _
      · exact throw rfl (hposition hleft)
    · unfold constrainingLiteral
      split
      · exact pure _
      · exact throw rfl (hposition hright)
    · refine get_bind (fun c => ?_) fun _ _ => rfl
      split
      · exact pure _
      · exact refuseIf _ rfl hp
    · unfold checkConsistent
      split
      · exact pure _
      · exact refuseIf _ rfl hp
    · exact fun _ => rfl

end

section

variable {a : Argument Build} {owner : Builtin}

theorem prefixedLength (h : a.Points r) : Points r (a.prefixedLength owner) := by
  refine h.resolve.bind fun t => ?_
  split
  · split
    · exact pure _
    · exact throw rfl h.position_eq
  · exact throw rfl h.position_eq

theorem length (h : a.Points r) : Points r (a.length owner) := by
  have harg := h.position_eq
  have hprefixed : Points r (a.prefixedLength owner) := prefixedLength h
  unfold Argument.position at harg
  unfold Argument.length
  split
  · rename_i heq
    rw [heq] at harg
    split
    · exact pure _
    · exact throw rfl harg
  · rename_i heq
    rw [heq] at harg
    exact throw rfl harg
  · rename_i heq
    rw [heq] at harg
    split
    · split
      · exact pure _
      · exact throw rfl harg
    · exact hprefixed
  · exact hprefixed

theorem encoding {γ : Type} (h : a.Points r) (ofName? : String → Option γ) :
    Points r (a.encoding owner ofName?) := by
  refine bind ?_ fun word => ?_
  · unfold Argument.word
    split
    · exact pure _
    · exact pure _
    · exact throw rfl h.position_eq
  · split
    · exact pure _
    · exact throw rfl h.position_eq

theorem paramType? {as : List (Argument Build)} (h : ∀ a ∈ as, a.Points r) {b : Builtin}
    {x : Build ParamType} (hx : paramType? b as = some x) : Points r x := by
  match as with
  | [] => cases b <;> cases hx <;> exact pure _
  | [a] =>
    have ha := h a (.head _)
    cases b <;> cases hx
    case string => exact (length ha).bind fun _ => pure _
    case bytes => exact (length ha).bind fun _ => pure _
    case uuid => exact (encoding ha _).bind fun _ => pure _
    case boolOptional => exact ha.resolve.bind fun _ => pure _
  | [l, a] =>
    have hl := h l (.head _)
    have ha := h a (.tail _ (.head _))
    cases b <;> cases hx
    case string => exact (length hl).bind fun _ => (encoding ha _).bind fun _ => pure _
    case array => exact (length hl).bind fun _ => ha.resolve.bind fun _ => pure _
  | _ :: _ :: _ :: _ => cases hx

theorem apply {as : List (Argument Build)} (h : ∀ a ∈ as, a.Points r) (b : Builtin)
    {p : Position} (hp : p.reprint r = p) : Points r (apply b p as) := by
  unfold Compilation.apply
  split
  · rename_i x hx
    exact (paramType? h hx).bind fun _ => intern _
  · split
    · exact throw rfl hp
    · exact pure _

theorem resolveName {as : List (Argument Build)} (h : ∀ a ∈ as, a.Points r) (d : ScopeId)
    {name : Name} {p : Position} (hname : name.reprint r = name) (hp : p.reprint r = p) :
    Points r (resolveName d name p as) := by
  unfold Compilation.resolveName
  split
  · exact apply h _ hp
  · refine get_bind (fun _ => ?_) fun _ _ => rfl
    split
    · split
      · exact pure _
      · exact throw rfl hp
    · exact throw rfl (congrArg Name.position hname)

end

section

variable {inside : ScopeId → Build Unit} (h : ∀ id, Points r (inside id)) (d : ScopeId)

include h

theorem addScopeWith (scope : Scope) : Points r (addScopeWith scope inside) :=
  (addScope scope).bind fun id => (h id).bind fun _ => pure _

theorem addStruct (name : Option String) (p : Position) :
    Points r (addStruct d name p inside) :=
  (addScopeWith h _).bind fun _ => pure _

theorem addSpace {name : Ident} (hname : name.reprint r = name) (p : Position) :
    Points r (addSpace d name p inside) :=
  (checkFree d hname).bind fun _ => (report _).bind fun _ => (addScopeWith h _).bind fun _ =>
    bindName _ _ _

omit h in
theorem addType {x : Build TypeRef} (hx : Points r x) {name : Ident}
    (hname : name.reprint r = name) (p : Position) : Points r (addType d name p x) :=
  (checkFree d hname).bind fun _ => (report _).bind fun _ => hx.bind fun _ => bindName _ _ _

theorem addVariant {name : Option Ident} (hname : name.map (Ident.reprint r) = name)
    {p : Position} (hp : p.reprint r = p) : Points r (addVariant d name p inside) := by
  have hfree : Points r (name.forM (Compilation.checkFree d) : Build Unit) := by
    cases name with
    | none => exact pure ()
    | some i => exact checkFree d (Option.some.inj hname)
  refine hfree.bind fun _ => (anchor d _ hp).bind fun a => (takeSnapshot _).bind fun _ =>
    get_bind (fun _ => (report _).bind fun _ => (addScopeWith h _).bind fun _ => ?_) fun _ _ => rfl
  split
  · exact (bindName _ _ _).bind fun _ => addBranch _ _ _ hp
  · exact pure ()

end

theorem addFields (d : ScopeId) (t : TypeRef) : ∀ {names : List Ident},
    names.map (Ident.reprint r) = names →
      Points r (names.forM (Compilation.addField d t) : Build Unit)
  | [], _ => pure ()
  | i :: names, hnames => by
    obtain ⟨hi, hrest⟩ := List.cons.inj hnames
    exact (addField d t hi).bind fun _ => addFields d t hrest

/-- What is compiled points to places that the print keeps, if the declarations stand at such. -/
theorem closed : Cases (m := Build) (fun _ e x => e.reprint r = e → Points r x)
    (fun _ a x => a.reprint r = a → Points r x)
    (fun _ as xs => reprintArgs r as = as → ∀ x ∈ xs, x.Points r)
    (fun _ st x => st.reprint r = st → Points r x)
    (fun _ body x => reprintAll r body = body → Points r x) where
  applied hargs _ _ h := by
    simp only [TypeExpr.reprint, TypeArg.reprint, TypeExpr.application.injEq,
      TypeArg.name.injEq] at h
    exact resolveName (hargs h.2.2) _ h.2.1 h.1
  grouped he _ h := by
    simp only [TypeExpr.reprint, TypeArg.reprint, TypeExpr.application.injEq,
      TypeArg.type.injEq] at h
    exact he h.2.1
  literal _ _ _ h := by
    simp only [TypeExpr.reprint, TypeArg.reprint, TypeExpr.application.injEq,
      TypeArg.value.injEq] at h
    exact throw rfl (congrArg Value.position h.2.1)
  headed {head} _ _ _ _ _ h := by
    have hposition := TypeArg.position_reprint r head
    simp only [TypeExpr.reprint, TypeExpr.application.injEq] at h
    rw [h.2.1] at hposition
    exact throw rfl hposition.symm
  inline hbody d p h := by
    simp only [TypeExpr.reprint, Body.reprint, TypeExpr.body.injEq, Body.mk.injEq] at h
    exact addStruct (fun id => hbody id h.2) d none p
  nameArg d _ h := by
    simp only [TypeArg.reprint, TypeArg.name.injEq] at h
    exact resolveName (by simp) d h (congrArg Name.position h)
  literalArg _ _ h := by
    simp only [TypeArg.reprint, TypeArg.value.injEq] at h
    exact throw rfl (congrArg Value.position h)
  typeArg he h := by
    simp only [TypeArg.reprint, TypeArg.type.injEq] at h
    exact he h
  noArgs _ _ := by simp
  moreArgs ha has h := by
    simp only [reprintArgs, List.cons.injEq] at h
    exact List.forall_mem_cons.2 ⟨⟨h.1, ha h.1⟩, has h.2⟩
  space hbody d p _ h := by
    rw [Statement.reprint_space, Statement.space.injEq] at h
    exact addSpace (fun id => hbody id (Body.inside_kept h.2.2)) d h.2.1 p
  struct he hbody d p _ h := by
    rw [Statement.reprint_type, Statement.type.injEq] at h
    exact addType d (addStruct (fun id => hbody id (TypeExpr.inside?_kept h.2.2 he)) d _ p) h.2.1 p
  synonym _ he p _ h := by
    rw [Statement.reprint_type, Statement.type.injEq] at h
    exact addType _ (he (Option.some.inj h.2.2)) h.2.1 p
  variant hbody d _ _ h := by
    rw [Statement.reprint_variant, Statement.variant.injEq] at h
    exact addVariant (fun id => hbody id (Body.inside_kept h.2.2)) d h.2.1 h.1
  constraint d _ _ _ h := by
    simp only [Statement.reprint, Statement.constraint.injEq] at h
    exact addConstraint d h.1 h.2.1 h.2.2
  fields he _ _ h := by
    simp only [Statement.reprint, Statement.fields.injEq] at h
    exact (he h.2.2).bind fun t => addFields _ t h.2.1
  nil _ _ := pure ()
  cons hst hsts h := by
    simp only [reprintAll, List.cons.injEq] at h
    exact (hst h.1).bind fun _ => hsts h.2

end Points

end Compilation

end PacketSchema
