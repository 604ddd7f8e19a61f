import PacketSchema.Proofs.Compilation.Inheritance
import PacketSchema.Proofs.Compilation.Marking

/-! The warnings of a compilation. Every step is described by the scopes that it opens, the struct
that it marks as taken over and the late fields that it warns about. -/

namespace PacketSchema.Compilation

open Schema

theorem Yields.report {ms : List Compilation} (e : Event) :
    Yields ms (report e) fun _ c c' => c' = { c with log := c.log ++ [e] } :=
  .modify fun _ => rfl

theorem Yields.modifySchema {ms : List Compilation} (g : Schema → Schema) :
    Yields ms (modifySchema g) fun _ c c' => c' = c.mapSchema g :=
  .modify fun _ => rfl

theorem Yields.refuseIf_bind {α : Type} {ms : List Compilation} {p : Prop} [Decidable p]
    {e : SchemaError} {f : Unit → Recorded α} {J : α → Compilation → Compilation → Prop}
    (hf : ¬ p → Yields ms (f ()) J) : Yields ms (refuseIf p e >>= f) J := by
  unfold refuseIf
  split
  · exact .throw
  · exact hf ‹_›

/-- What is run has no part in scopes, marks and warnings. -/
abbrev Silent {α : Type} (ms : List Compilation) (x : Recorded α) : Prop :=
  Yields ms x fun _ c c' => Uneventful c c'

/-- What is run opens scopes, and warns about the late fields in them. -/
def Warns {α : Type} (ms : List Compilation) (s : Schema) (d : ScopeId) (takes : Bool)
    (openings : List Opening) (x : Recorded α) : Prop :=
  Yields ms x fun _ c c' => Sited d c →
    Warned ms s d takes openings.length (Opening.lateFields c.schema.scopes.length openings) c c'

/-- What is run declares a body, or a part of it behind other statements. -/
def Declares (ms : List Compilation) (s : Schema) (d : ScopeId) (body : List Statement)
    (x : Recorded Unit) : Prop :=
  Yields ms x fun _ c c' => Sited d c → ∀ late, Tells s d c late →
    Warned ms s d (Statement.anyDeclaresVariant body) (Statement.allOpenings body).length
      (Statement.lateFields d late c.schema.scopes.length body ++
        Opening.lateFields c.schema.scopes.length (Statement.allOpenings body)) c c'

variable {ms : List Compilation} {s : Schema} {d : ScopeId}

theorem Uneventful.refl (c : Compilation) : Uneventful c c := ⟨rfl, rfl, rfl, rfl⟩

theorem Uneventful.trans {c c₁ c' : Compilation} (h : Uneventful c c₁) (h' : Uneventful c₁ c') :
    Uneventful c c' :=
  ⟨h'.options.trans h.options, h'.count.trans h.count, h'.marked.trans h.marked,
    h'.warnings.trans h.warnings⟩

namespace Silent

variable {α β : Type}

theorem pure (a : α) : Silent ms (pure a) := Yields.pure fun c => .refl c

theorem bind {x : Recorded α} {f : α → Recorded β} (hx : Silent ms x)
    (hf : ∀ a, Silent ms (f a)) : Silent ms (x >>= f) :=
  Yields.bind hx fun a => Yields.imp (hf a) fun _ _ _ h' _ h => h.trans h'

theorem get_bind {f : Compilation → Recorded α} (hf : ∀ c, Silent ms (f c)) :
    Silent ms (get >>= f) :=
  Yields.get_bind fun c => Yields.imp (hf c) fun _ _ _ h _ => h

theorem report (e : Event) : Silent ms (report e) := Yields.modify fun _ => ⟨rfl, rfl, rfl, rfl⟩

theorem modifyScope (id : ScopeId) (g : Scope → Scope) :
    Silent ms (modifySchema (·.modifyScope id g)) :=
  Yields.modify fun _ => ⟨rfl, List.length_modify _ _ _, rfl, rfl⟩

theorem bindName (d : ScopeId) (name : String) (item : Item) :
    Silent ms (Compilation.bind d name item) :=
  Yields.modify fun _ => ⟨rfl, List.length_modify _ _ _, rfl, rfl⟩

theorem refuseIf {p : Prop} [Decidable p] {e : SchemaError} : Silent ms (refuseIf p e) := by
  unfold Compilation.refuseIf
  split
  · exact Yields.throw
  · exact pure ()

theorem intern (t : ParamType) : Silent ms (intern t) :=
  get_bind fun _ => (report _).bind fun _ =>
    bind (Yields.modify fun _ => ⟨rfl, rfl, rfl, rfl⟩) fun _ => pure _

theorem checkFree (d : ScopeId) (name : Ident) : Silent ms (checkFree d name) :=
  get_bind fun _ => refuseIf

theorem addBranch (base : ScopeId) (path : Path) (id : ScopeId) (p : Position) :
    Silent ms (addBranch base path id p) := by
  refine get_bind fun c => ?_
  split
  · exact Yields.throw
  · exact refuseIf.bind fun _ => modifyScope _ _

theorem checkFits (layout : Layout) (p : Position) (name : String) (value : Literal) :
    Silent ms (checkFits layout p name value) := by
  refine get_bind fun c => ?_
  split
  · exact pure ()
  · exact refuseIf

theorem checkConsistent (layout : Layout) (p : Position) (name : String) (value : Literal) :
    Silent ms (checkConsistent layout p name value) := by
  unfold Compilation.checkConsistent
  split
  · exact pure ()
  · exact refuseIf

theorem constrainedName (o : Operand) : Silent ms (constrainedName o) := by
  unfold Compilation.constrainedName
  split
  · exact pure _
  · exact Yields.throw

theorem constrainingLiteral (o : Operand) : Silent ms (constrainingLiteral o) := by
  unfold Compilation.constrainingLiteral
  split
  · exact pure _
  · exact Yields.throw

theorem addConstraint (d : ScopeId) (p : Position) (left right : Operand) :
    Silent ms (addConstraint d p left right) := by
  refine get_bind fun c => ?_
  split
  · exact Yields.throw
  · exact (constrainedName _).bind fun _ => (constrainingLiteral _).bind fun _ =>
      (checkFits _ _ _ _).bind fun _ => (checkConsistent _ _ _ _).bind fun _ =>
      (report _).bind fun _ => modifyScope _ _

end Silent

namespace Warns

variable {α β : Type} {takes takes' : Bool} {openings more : List Opening}

theorem throw {e : SchemaError} : Warns ms s d takes openings (throw e : Recorded α) :=
  Yields.throw

theorem silent {x : Recorded α} (h : Silent ms x) : Warns ms s d false [] x :=
  Yields.imp h fun _ _ _ hquiet hc => .quiet hc hquiet

theorem bind {x : Recorded α} {f : α → Recorded β} (hx : Warns ms s d takes openings x)
    (hf : ∀ a, Warns ms s d takes' more (f a)) :
    Warns ms s d (takes || takes') (openings ++ more) (x >>= f) := by
  refine Yields.bind hx fun a => Yields.imp (hf a) fun b c₁ c' hthen c hfirst hc => ?_
  have h := hfirst hc
  have h' := hthen (h.sited hc)
  rw [h.count] at h'
  rw [List.length_append, Opening.lateFields_append]
  exact h.trans h'

theorem silent_bind {x : Recorded α} {f : α → Recorded β} (hx : Silent ms x)
    (hf : ∀ a, Warns ms s d takes openings (f a)) : Warns ms s d takes openings (x >>= f) := by
  have h := (silent (s := s) (d := d) hx).bind hf
  rwa [Bool.false_or, List.nil_append] at h

theorem bind_silent {x : Recorded α} {f : α → Recorded β} (hx : Warns ms s d takes openings x)
    (hf : ∀ a, Silent ms (f a)) : Warns ms s d takes openings (x >>= f) := by
  have h := hx.bind fun a => silent (s := s) (d := d) (hf a)
  rwa [Bool.or_false, List.append_nil] at h

theorem get_bind {f : Compilation → Recorded α} (hf : ∀ c, Warns ms s d takes openings (f c)) :
    Warns ms s d takes openings (get >>= f) :=
  Yields.get_bind fun c => Yields.imp (hf c) fun _ _ _ h _ => h

/-! ## Arguments -/

/-- An argument opens scopes where it is resolved. -/
def OfArgument (ms : List Compilation) (s : Schema) (d : ScopeId) (a : Argument Recorded) : Prop :=
  Warns ms s d false a.arg.openings a.resolve

section

variable {a : Argument Recorded}

theorem prefixedLength (h : OfArgument ms s d a) (owner : Builtin) :
    Warns ms s d false a.arg.openings (a.prefixedLength owner) := by
  refine bind_silent h fun t => ?_
  split
  · split
    · exact .pure _
    · exact Yields.throw
  · exact Yields.throw

theorem length (h : OfArgument ms s d a) (owner : Builtin) :
    Warns ms s d false a.arg.openings (a.length owner) := by
  have hprefixed := prefixedLength h owner
  unfold Argument.length
  split
  case h_1 harg =>
    rw [harg]
    split
    · exact silent (.pure _)
    · exact throw
  case h_2 => exact throw
  case h_3 harg =>
    split
    · rw [harg]
      split
      · exact silent (.pure _)
      · exact throw
    · exact hprefixed
  case h_4 => exact hprefixed

theorem word (owner : Builtin) : Warns ms s d false a.arg.openings (a.word owner) := by
  unfold Argument.word
  split
  case h_1 harg =>
    rw [harg]
    exact silent (.pure _)
  case h_2 harg =>
    rw [harg]
    exact silent (.pure _)
  case h_3 => exact throw

theorem encoding {γ : Type} (owner : Builtin) (ofName? : String → Option γ) :
    Warns ms s d false a.arg.openings (a.encoding owner ofName?) := by
  refine bind_silent (word owner) fun w => ?_
  split
  · exact .pure _
  · exact Yields.throw

theorem paramType? {as : List (Argument Recorded)} (h : ∀ a ∈ as, OfArgument ms s d a)
    {b : Builtin} {x : Recorded ParamType} (hx : paramType? b as = some x) :
    Warns ms s d false (TypeArg.allOpenings (as.map Argument.arg)) x := by
  unfold Compilation.paramType? at hx
  split at hx
  case h_1 => split at hx <;> cases hx <;> exact silent (.pure _)
  case h_2 a =>
    have ha : OfArgument ms s d a := h a (by simp)
    rw [show TypeArg.allOpenings ([a].map Argument.arg) = a.arg.openings by
      simp [TypeArg.allOpenings]]
    split at hx
    · cases hx
      exact bind_silent (length ha _) fun _ => .pure _
    · cases hx
      exact bind_silent (length ha _) fun _ => .pure _
    · cases hx
      exact bind_silent (encoding _ _) fun _ => .pure _
    · cases hx
      exact bind_silent ha fun _ => .pure _
    · cases hx
  case h_3 l e =>
    have hl : OfArgument ms s d l := h l (by simp)
    have he : OfArgument ms s d e := h e (by simp)
    rw [show TypeArg.allOpenings ([l, e].map Argument.arg) = l.arg.openings ++ e.arg.openings by
      simp [TypeArg.allOpenings]]
    split at hx
    · cases hx
      exact bind (length hl _) fun _ => bind_silent (encoding _ _) fun _ => .pure _
    · cases hx
      exact bind (length hl _) fun _ => bind_silent he fun _ => .pure _
    · cases hx
  case h_4 => cases hx

theorem apply {as : List (Argument Recorded)} (h : ∀ a ∈ as, OfArgument ms s d a) (b : Builtin)
    (p : Position) :
    Warns ms s d false (TypeArg.allOpenings (as.map Argument.arg)) (apply b p as) := by
  unfold Compilation.apply
  split
  case h_1 x hx => exact bind_silent (paramType? h hx) fun t => .intern t
  case h_2 =>
    split
    · exact throw
    · rename_i hnone
      obtain ⟨-, rfl⟩ : b.isParameterized = false ∧ as = [] := by simpa using hnone
      exact silent (.pure _)

theorem resolveName {as : List (Argument Recorded)} (h : ∀ a ∈ as, OfArgument ms s d a) (n : Name)
    (p : Position) :
    Warns ms s d false (TypeArg.allOpenings (as.map Argument.arg)) (resolveName d n p as) := by
  unfold Compilation.resolveName
  split
  case h_1 b _ => exact apply h b p
  case h_2 =>
    refine get_bind fun c => ?_
    split
    · split
      · rename_i hargs
        obtain rfl : as = [] := by simpa using hargs
        exact silent (.pure _)
      · exact throw
    · exact throw

end

end Warns

/-! ## Fields -/

section

variable (hms : Outlasts s ms)

include hms

theorem warned_field {c c' : Compilation} (hmem : c ∈ ms) {l : Layout}
    (hl : c.schema.layout? d = some l) {name : Ident} (hnew : l.fields.find? name.text = none)
    (hoptions : c'.options = c.options) (hmarked : c'.snapshotted = c.snapshotted)
    (hcount : c'.schema.scopes.length = c.schema.scopes.length)
    (hwarnings : c'.schema.warnings = c.schema.warnings ++
      if c.options.lintLateFields && c.snapshotted.contains d then
        [⟨name.position.place, .lateField name.text (s.qualifiedName d).text⟩] else [])
    (hc : Sited d c) {late : Bool} (hlate : Tells s d c late) {next : Nat}
    (hnext : next ≤ c.schema.scopes.length) :
    Warned ms s d false 0 (if late then [⟨d, name, next⟩] else []) c c' where
  options := hoptions
  count := hcount
  inRange := by
    intro x hx
    rw [hmarked] at hx
    unfold Has
    rw [hcount]
    exact hc.marked x hx
  marked := by simp [hmarked]
  warnings := by
    obtain ⟨l', hl'⟩ := hms.layout? hmem hl
    have hmark : late = c.snapshotted.contains d := by
      rw [Bool.eq_iff_iff, hlate (by rw [hl']; rfl), List.contains_iff_mem]
    rw [hwarnings, hmark]
    cases c.options.lintLateFields <;> cases c.snapshotted.contains d <;>
      simp [LateField.finding]
  missing := by
    intro f hf
    cases late with
    | false => exact absurd hf List.not_mem_nil
    | true =>
      rw [List.mem_singleton.1 hf]
      exact ⟨c, hmem, hnext, l, hl, hnew⟩

/-- The warning names the struct as it is named in the end. -/
theorem Yields.warnLate (d : ScopeId) (name : Ident) :
    Yields ms (warnLate d name) fun _ c c' => c.schema.Has d → ∃ log,
      c' = { c with
        schema := c.schema.addWarning
          ⟨name.position.place, .lateField name.text (s.qualifiedName d).text⟩
        log := log } := by
  have hwarn : Yields ms (Compilation.warnLate d name) fun _ c c' => ∃ log,
      c' = { c with
        schema := c.schema.addWarning
          ⟨name.position.place, .lateField name.text (c.schema.qualifiedName d).text⟩
        log := log } := by
    refine .get_bind fun c => (Yields.report _).bind fun _ => (Yields.modifySchema _).imp ?_
    rintro _ c₁ c' rfl c₀ rfl rfl
    exact ⟨_, rfl⟩
  refine hwarn.among.imp ?_
  rintro _ c c' ⟨⟨log, rfl⟩, -, -, -, -, -, hmem, -⟩ hd
  exact ⟨log, by rw [hms.qualifiedName hmem hd]⟩

theorem Yields.addField (d : ScopeId) (t : TypeRef) (name : Ident) :
    Yields ms (addField d t name) fun _ c c' => Sited d c → ∀ late, Tells s d c late →
      ∀ next ≤ c.schema.scopes.length,
        Warned ms s d false 0 (if late then [⟨d, name, next⟩] else []) c c' := by
  have hcount : ∀ (c : Compilation) (g : Layout → Layout),
      (c.schema.modifyLayout d g).scopes.length = c.schema.scopes.length :=
    fun _ _ => List.length_modify _ _ _
  have hadd : Yields ms (Compilation.addField d t name) fun _ c c' => c ∈ ms → Sited d c →
      ∀ late, Tells s d c late → ∀ next ≤ c.schema.scopes.length,
        Warned ms s d false 0 (if late then [⟨d, name, next⟩] else []) c c' := by
    refine .get_bind fun c => ?_
    split
    · exact .throw
    · rename_i l hl
      refine Yields.refuseIf_bind fun hnew => (Yields.modifySchema _).bind fun _ =>
        (Yields.report _).bind fun _ => ?_
      have hnew : l.fields.find? name.text = none := by simpa [Table.contains] using hnew
      split
      · rename_i hwarn
        refine (Yields.warnLate hms d name).imp ?_
        rintro _ c₂ c' h c₁ rfl c₀ rfl rfl hmem hc late hlate next hnext
        obtain ⟨log, rfl⟩ := h ((SameShapes.modifyLayout _ _ _).keeps.has hc.has)
        refine warned_field hms hmem hl hnew ?_ ?_ ?_ ?_ hc hlate hnext
        · rfl
        · rfl
        · exact hcount _ _
        · rw [if_pos hwarn]
          rfl
      · rename_i hwarn
        refine .pure ?_
        rintro c₂ c₁ rfl c₀ rfl rfl hmem hc late hlate next hnext
        refine warned_field hms hmem hl hnew ?_ ?_ ?_ ?_ hc hlate hnext
        · rfl
        · rfl
        · exact hcount _ _
        · rw [if_neg hwarn]
          exact (List.append_nil _).symm
  refine hadd.among.imp ?_
  rintro _ c c' ⟨h, -, -, -, -, -, hmem, -⟩
  exact h hmem

theorem Yields.fields (d : ScopeId) (t : TypeRef) : ∀ names : List Ident,
    Yields ms (names.forM (Compilation.addField d t)) fun _ c c' => Sited d c →
      ∀ late, Tells s d c late → ∀ next ≤ c.schema.scopes.length,
        Warned ms s d false 0 (if late then names.map (⟨d, ·, next⟩) else []) c c'
  | [] => by
    refine .pure fun c hc late hlate next hnext => ?_
    rw [List.map_nil, ite_self]
    exact .quiet hc (.refl c)
  | name :: names => by
    refine (Yields.addField hms d t name).bind fun _ => (Yields.fields d t names).imp ?_
    intro _ c₁ c' hrest c hfirst hc late hlate next hnext
    have h := hfirst hc late hlate next hnext
    have htells := h.tells hms.rooted hc.has hlate
    rw [Bool.or_false] at htells
    have h' := hrest (h.sited hc) late htells next (h.count ▸ hnext)
    have hall := h.trans h'
    cases late <;> exact hall

/-! ## Scopes -/

variable {body : List Statement} {inside : ScopeId → Recorded Unit}

/-- No scope with the number of a new one is marked before. -/
theorem Warns.addScopeWith (hinside : ∀ id, Declares ms s id body (inside id)) {scope : Scope}
    (hp : scope.parent = some d) (o : Opening) (ho : o.body = body) :
    Warns ms s d (Statement.anyDeclaresVariant body && !scope.isStruct)
      (o :: Statement.allOpenings body) (addScopeWith scope inside) := by
  have hopen : Yields ms (addScope scope) fun id c c' =>
      id = c.schema.nextId ∧ c' = c.mapSchema (·.addScope scope) := by
    refine .get_bind fun c => (Yields.modifySchema _).bind fun _ => .pure ?_
    rintro c₁ c₀ rfl rfl
    exact ⟨rfl, rfl⟩
  refine hopen.among.bind fun id => Yields.bind (hinside id) fun _ => .pure ?_
  rintro c' c₁ hwarned c ⟨⟨rfl, rfl⟩, -, -, -, -, -, -, hmem⟩ hc
  have hlen :
      (c.mapSchema (·.addScope scope)).schema.scopes.length = c.schema.scopes.length + 1 := by
    simp [mapSchema, Schema.addScope]
  have hsited : Sited c.schema.nextId (c.mapSchema (·.addScope scope)) :=
    ⟨has_addScope _ _, fun x hx => (keeps_addScope _ _).has (hc.marked x hx)⟩
  have hunmarked : Tells s c.schema.nextId (c.mapSchema (·.addScope scope)) false := by
    refine fun _ => iff_of_false Bool.false_ne_true fun hx => ?_
    exact Nat.lt_irrefl _ (hc.marked _ hx)
  have h := (hwarned hsited false hunmarked).leave hms hp hmem
  rw [hlen] at h
  rw [Opening.lateFields_cons, ho, List.length_cons]
  exact h

theorem Warns.addStruct (hinside : ∀ id, Declares ms s id body (inside id)) (d : ScopeId)
    (name : Option String) (p : Position) (o : Opening) (ho : o.body = body) :
    Warns ms s d false (o :: Statement.allOpenings body) (addStruct d name p inside) := by
  have hscope := Warns.addScopeWith hms hinside
    (rfl : Scope.parent ⟨name, some d, some p, .struct {}, {}⟩ = some d) o ho
  rw [show Scope.isStruct ⟨name, some d, some p, .struct {}, {}⟩ = true from rfl, Bool.not_true,
    Bool.and_false] at hscope
  exact hscope.bind_silent fun _ => .pure _

theorem Warns.addSpace (hinside : ∀ id, Declares ms s id body (inside id)) (d : ScopeId)
    (name : Ident) (p : Position) (o : Opening) (ho : o.body = body) :
    Warns ms s d (Statement.anyDeclaresVariant body) (o :: Statement.allOpenings body)
      (addSpace d name p inside) := by
  have hscope := Warns.addScopeWith hms hinside
    (rfl : Scope.parent ⟨some name.text, some d, some p, .space, {}⟩ = some d) o ho
  rw [show Scope.isStruct ⟨some name.text, some d, some p, .space, {}⟩ = false from rfl,
    Bool.not_false, Bool.and_true] at hscope
  exact silent_bind (.checkFree d name) fun _ => silent_bind (.report _) fun _ =>
    hscope.bind_silent fun _ => .bindName _ _ _

omit hms in
theorem Warns.addType {x : Recorded TypeRef} {openings : List Opening} (name : Ident) (p : Position)
    (hx : Warns ms s d false openings x) : Warns ms s d false openings (addType d name p x) :=
  silent_bind (.checkFree d name) fun _ => silent_bind (.report _) fun _ =>
    hx.bind_silent fun _ => .bindName _ _ _

theorem warned_mark {c : Compilation} (hmem : c ∈ ms) (hc : Sited d c) {path : Option Path}
    {a : Anchor} (hclimb : climb none path (c.schema.chain d) = some a) :
    Warned ms s d true 0 [] c { c with snapshotted := a.source :: c.snapshotted } where
  options := rfl
  count := rfl
  inRange := by
    have hsource : structAround? c.schema d = some a.source := climb_source hclimb
    obtain ⟨l, hl⟩ := layout?_of_find? (hms.rooted_of_mem hmem) hc.has (fun _ => id) hsource
    exact List.forall_mem_cons.2 ⟨has_of_layout? hl, hc.marked⟩
  marked := by
    intro x _
    have hsource : structAround? c.schema d = some a.source := climb_source hclimb
    rw [hms.structAround? hmem hc.has, hsource, List.mem_cons]
    simp [or_comm, eq_comm]
  warnings := by simp
  missing := fun _ hf => absurd hf List.not_mem_nil

/-- The struct that a variant branches from is marked before anything is declared in the variant. -/
theorem Warns.anchor_bind {openings : List Opening} (name : Option String) (p : Position)
    {f : Anchor → Layout → Recorded Unit} (hf : ∀ a l, Warns ms s d false openings (f a l)) :
    Warns ms s d true openings (do
      let a ← anchor d name p
      let l ← takeSnapshot a.source
      f a l) := by
  have hanchor : Yields ms (anchor d name p) fun a c c' =>
      c' = c ∧ climb none (name.map ([·])) (c.schema.chain d) = some a := by
    refine .get_bind fun c => ?_
    split
    · refine .pure ?_
      rintro c rfl
      exact ⟨rfl, ‹_›⟩
    · exact .throw
  have htake : ∀ source, Yields ms (takeSnapshot source) fun _ c c' =>
      c' = { c with snapshotted := source :: c.snapshotted } := by
    intro source
    have hmark : Yields ms (MonadStateOf.modifyGet fun c : Compilation =>
        ((), { c with snapshotted := source :: c.snapshotted }) : Recorded Unit) fun _ c c' =>
          c' = { c with snapshotted := source :: c.snapshotted } := .modify fun _ => rfl
    refine hmark.bind fun _ => .get_bind fun _ => .pure ?_
    rintro _ - _ rfl
    rfl
  have hmark : Warns ms s d true [] (do
      let a ← anchor d name p
      let l ← takeSnapshot a.source
      pure (a, l)) := by
    refine hanchor.among.bind fun a => (htake a.source).bind fun l => .pure ?_
    rintro _ _ rfl c ⟨⟨rfl, hclimb⟩, -, -, -, -, -, hmem, -⟩ hc
    exact warned_mark hms hmem hc hclimb
  have h := hmark.bind fun al => hf al.1 al.2
  rw [Bool.or_false, List.nil_append] at h
  simpa only [bind_assoc, pure_bind] using h

theorem Warns.addVariant (hinside : ∀ id, Declares ms s id body (inside id)) (d : ScopeId)
    (name : Option Ident) (p : Position) (o : Opening) (ho : o.body = body) :
    Warns ms s d true (o :: Statement.allOpenings body) (addVariant d name p inside) := by
  have hfree : Silent ms (name.forM (Compilation.checkFree d) : Recorded Unit) := by
    cases name with
    | none => exact .pure _
    | some name => exact .checkFree d name
  refine silent_bind hfree fun _ => anchor_bind hms _ p fun a l => get_bind fun c =>
    silent_bind (.report _) fun _ => ?_
  have hscope := Warns.addScopeWith hms hinside
    (rfl : Scope.parent ⟨name.map Ident.text, some d, some p, a.kind l, {}⟩ = some d) o ho
  have hstruct : Scope.isStruct ⟨name.map Ident.text, some d, some p, a.kind l, {}⟩ = true := by
    simp [Scope.isStruct, Scope.layout?, a.kind_layout?]
  rw [hstruct, Bool.not_true, Bool.and_false] at hscope
  refine hscope.bind_silent fun id => ?_
  split
  · exact (Silent.bindName _ _ _).bind fun _ => .addBranch _ _ _ _
  · exact .pure _

end

/-! ## Declarations -/

namespace Declares

/-- A statement that is no declaration of fields. -/
theorem of_warns {st : Statement} {x : Recorded Unit} (hst : st.fieldNames = [])
    (h : Warns ms s d st.declaresVariant st.openings x) : Declares ms s d [st] x := by
  refine Yields.imp h fun _ c c' hwarned hc late _ => ?_
  have hone := hwarned hc
  simpa [Statement.lateFields, Statement.anyDeclaresVariant, Statement.allOpenings, hst] using hone

theorem nil : Declares ms s d [] (Pure.pure () : Recorded Unit) :=
  Yields.pure fun c hc _ _ => .quiet hc (.refl c)

theorem bind (hms : Outlasts s ms) {body rest : List Statement} {x : Recorded Unit}
    {f : Unit → Recorded Unit} (hx : Declares ms s d body x)
    (hf : ∀ u, Declares ms s d rest (f u)) : Declares ms s d (body ++ rest) (x >>= f) := by
  refine Yields.bind hx fun u => Yields.imp (hf u) fun _ c₁ c' hthen c hfirst hc late hlate => ?_
  have h := hfirst hc late hlate
  have h' := hthen (h.sited hc) _ (h.tells hms.rooted hc.has hlate)
  rw [h.count] at h'
  rw [Statement.anyDeclaresVariant_append, Statement.allOpenings_append, List.length_append,
    Statement.lateFields_append, Opening.lateFields_append]
  refine (h.trans h').perm ?_
  rw [List.append_assoc, List.append_assoc]
  exact (List.perm_append_comm_assoc _ _ _).append_left _

theorem fields (hms : Outlasts s ms) {x : Recorded TypeRef} {e : TypeExpr} (p : Position)
    (names : List Ident) (hx : Warns ms s d false e.openings x) :
    Declares ms s d [.fields p names e] (x >>= fun t => names.forM (Compilation.addField d t)) := by
  refine Yields.bind hx fun t => (Yields.fields hms d t names).imp ?_
  intro _ c₁ c' hnames c htype hc late hlate
  have h := htype hc
  have htells := h.tells hms.rooted hc.has hlate
  rw [Bool.or_false] at htells
  have h' := hnames (h.sited hc) late htells c.schema.scopes.length (by rw [h.count]; omega)
  have hboth := (h.trans h').perm List.perm_append_comm
  simpa [Statement.lateFields, Statement.anyDeclaresVariant, Statement.declaresVariant,
    Statement.allOpenings, Statement.openings, Statement.fieldNames] using hboth

end Declares

/-- The warnings of what is compiled can be told from the declarations. -/
theorem Declares.closed (hms : Outlasts s ms) : Cases (m := Recorded)
    (fun d e x => Warns ms s d false e.openings x) (fun d a x => Warns ms s d false a.openings x)
    (fun d _ xs => ∀ x ∈ xs, Warns.OfArgument ms s d x) (fun d st x => Declares ms s d [st] x)
    (fun d body x => Declares ms s d body x) where
  applied hargs p n := by
    have h := Warns.resolveName hargs n p
    rw [map_arg_arguments] at h
    simpa [TypeExpr.openings, TypeArg.openings] using h
  grouped he _ := by
    simpa [TypeExpr.openings, TypeArg.openings, TypeArg.allOpenings] using he
  literal _ _ _ := Warns.throw
  headed _ _ _ _ := Warns.throw
  inline hbody d p := Warns.addStruct hms hbody d none p _ rfl
  nameArg d n := by
    have hnone : ∀ a ∈ ([] : List (Argument Recorded)), Warns.OfArgument ms s d a := by simp
    exact Warns.resolveName hnone n n.position
  literalArg _ _ := Warns.throw
  typeArg he := by
    rw [TypeArg.openings]
    exact he
  noArgs _ := by simp
  moreArgs ha has := List.forall_mem_cons.2 ⟨ha, has⟩
  space hbody d p name := by
    refine .of_warns rfl ?_
    rw [Statement.openings, Body.openings_eq, Statement.declaresVariant, Body.declaresVariant_eq]
    exact Warns.addSpace hms hbody d name p _ rfl
  struct he hbody d p name := by
    refine .of_warns rfl ?_
    rw [Statement.openings_struct p name he]
    exact Warns.addType name p (Warns.addStruct hms hbody d _ p _ rfl)
  synonym he hx p name := by
    refine .of_warns rfl ?_
    rw [Statement.openings_synonym p name he]
    exact Warns.addType name p hx
  variant hbody d p name := by
    refine .of_warns rfl ?_
    cases name with
    | none =>
      rw [Statement.openings, Body.openings_eq]
      exact Warns.addVariant hms hbody d none p _ rfl
    | some name =>
      rw [Statement.openings, Body.openings_eq]
      exact Warns.addVariant hms hbody d (some name) p _ rfl
  constraint d p left right := .of_warns rfl (Warns.silent (.addConstraint d p left right))
  fields he p names := Declares.fields hms p names he
  nil _ := .nil
  cons hst hsts := Declares.bind hms hst fun _ => hsts

end PacketSchema.Compilation
