import PacketSchema.Proofs.Compilation.Composing
import PacketSchema.Proofs.Compilation.Recording
import PacketSchema.Proofs.Declaration.Undotted
import PacketSchema.Proofs.Schema.Reprinting
import PacketSchema.Proofs.Schema.Updates

/-! Two compilations side by side. The second one sees the scopes and the types of the first one,
while options, warnings and the log may differ. A relation of runs that is closed under the single
steps, and under the two of them that ask for the options, holds of whole texts: nothing else that
is compiled depends on what differs. -/

namespace PacketSchema

/-! ## Warnings -/

namespace Schema

def setWarnings (s : Schema) (w : List Finding) : Schema := { s with warnings := w }

variable (s : Schema) (w : List Finding)

theorem chain_setWarnings (id : ScopeId) : (s.setWarnings w).chain id = s.chain id := by
  have hscope : ∀ id, (s.setWarnings w).scope? id = s.scope? id := fun _ => rfl
  fun_induction chain s id with
  | case1 id h => rw [chain, hscope, h]
  | case2 id scope h ih =>
    rw [chain, hscope, h]
    cases hparent : scope.parent with
    | none => simp [hparent]
    | some parent => simp +contextual [hparent, ih parent]

theorem namesOwner_setWarnings (id : ScopeId) :
    (s.setWarnings w).namesOwner id = s.namesOwner id := by
  unfold namesOwner
  rw [chain_setWarnings]

theorem getLocal?_setWarnings (id : ScopeId) (name : String) :
    (s.setWarnings w).getLocal? id name = s.getLocal? id name := by
  unfold getLocal? names
  rw [namesOwner_setWarnings]
  rfl

theorem lookupLocal?_setWarnings (id : ScopeId) (path : Path) :
    (s.setWarnings w).lookupLocal? id path = s.lookupLocal? id path := by
  fun_induction lookupLocal? s id path with
  | case1 id => rfl
  | case2 id name => exact s.getLocal?_setWarnings w id name
  | case3 id name rest hne ih =>
    rw [lookupLocal?, getLocal?_setWarnings]
    · exact congrArg _ (funext ih)
    · exact hne

theorem lookup?_setWarnings (id : ScopeId) (path : Path) :
    (s.setWarnings w).lookup? id path = s.lookup? id path := by
  unfold lookup?
  simp only [chain_setWarnings, lookupLocal?_setWarnings]

theorem qualifiedName_setWarnings (id : ScopeId) :
    (s.setWarnings w).qualifiedName id = s.qualifiedName id := by
  unfold qualifiedName
  rw [chain_setWarnings]

theorem setWarnings_bind (id : ScopeId) (name : String) (item : Item) :
    (s.setWarnings w).bind id name item = (s.bind id name item).setWarnings w := by
  unfold bind
  rw [namesOwner_setWarnings]
  rfl

theorem typeName_setWarnings (type : TypeRef) :
    (s.setWarnings w).typeName type = s.typeName type := by
  have hparam : ∀ id, (s.setWarnings w).param? id = s.param? id := fun _ => rfl
  fun_induction typeName s type with
  | case1 b => rw [typeName]
  | case2 id => rw [typeName, structName, structName, qualifiedName_setWarnings]
  | case3 id h | case4 id _ _ h | case5 id _ h | case6 id _ h => rw [typeName, hparam, h]
  | case7 id _ elem h _ ih | case8 id elem h _ ih =>
    rw [typeName, hparam, h]
    by_cases hlt : rank elem < rank (.param id) <;> simp +zetaDelta [hlt, ih]

theorem literalFits_setWarnings (type : TypeRef) (value : Literal) :
    Compilation.literalFits (s.setWarnings w) type value =
      Compilation.literalFits s type value := by
  cases type <;> cases value <;> rfl

end Schema

namespace Compilation

/-! ## Views -/

/-- How the state of one compilation looks in the other one. -/
structure View where
  options : Options → Options
  warnings : List Finding → List Finding
  log : List Event → List Event

def View.of (v : View) (c : Compilation) : Compilation :=
  ⟨v.options c.options, c.schema.setWarnings (v.warnings c.schema.warnings), c.snapshotted,
    v.log c.log⟩

/-- A relation of runs that is closed under the steps of a compilation, those that ask for the
options among them. -/
structure View.Simulates (v : View) (R : ∀ α : Type, Recorded α → Recorded α → Prop) : Prop where
  log : ∀ log e, (∀ p f, e ≠ .finding p f) → v.log (log ++ [e]) = v.log log ++ [e]
  pure : ∀ {α : Type} (a : α), R α (pure a) (pure a)
  throw : ∀ {α : Type} {e : SchemaError}, (∀ p n value t, e ≠ .constraintType p n value t) →
    R α (throw e) (throw e)
  bind : ∀ {α β : Type} {x y : Recorded α} {f g : α → Recorded β}, R α x y →
    (∀ a, R β (f a) (g a)) → R β (x >>= f) (y >>= g)
  get_bind : ∀ {α : Type} {f g : Compilation → Recorded α}, (∀ c, R α (f c) (g (v.of c))) →
    R α (get >>= f) (get >>= g)
  modify : ∀ {f : Compilation → Compilation}, (∀ c, f (v.of c) = v.of (f c)) →
    R Unit (modify f) (modify f)
  /-- A warning about a late field that may be given. -/
  late : ∀ (options : Options) (snapshotted : Bool) (dest : ScopeId) (name : Ident),
    R Unit (if options.lintLateFields && snapshotted then warnLate dest name else Pure.pure ())
      (if (v.options options).lintLateFields && snapshotted then warnLate dest name
        else Pure.pure ())
  /-- A literal that may be refused. -/
  misfit : ∀ (options : Options) (fits : Bool) (p : Position) (name : String) (value : Literal)
    (type : String),
    R Unit (refuseIf (options.typedConstraints && !fits) (.constraintType p name value type))
      (refuseIf ((v.options options).typedConstraints && !fits)
        (.constraintType p name value type))

namespace View.Simulates

variable {v : View} {R : ∀ α : Type, Recorded α → Recorded α → Prop}

section

variable (h : v.Simulates R)
include h

/-! ### Steps -/

theorem refuseIf {p : Prop} [Decidable p] {e : SchemaError}
    (he : ∀ p n value t, e ≠ .constraintType p n value t) :
    R Unit (refuseIf p e) (refuseIf p e) := by
  unfold Compilation.refuseIf
  split
  · exact h.throw he
  · exact h.pure _

theorem report {e : Event} (he : ∀ p f, e ≠ .finding p f) : R Unit (report e) (report e) := by
  refine h.modify fun c => ?_
  unfold View.of
  rw [h.log c.log e he]

theorem modifySchema {f : Schema → Schema}
    (hf : ∀ s w, f (s.setWarnings w) = (f s).setWarnings w) :
    R Unit (modifySchema f) (modifySchema f) := by
  refine h.modify fun c => ?_
  have hsame : f c.schema = (f c.schema).setWarnings c.schema.warnings :=
    hf c.schema c.schema.warnings
  have hwarnings : (f c.schema).warnings = c.schema.warnings := by
    rw [hsame]
    rfl
  unfold View.of
  dsimp only
  rw [hf, hwarnings]

theorem addScope (scope : Scope) : R ScopeId (addScope scope) (addScope scope) :=
  h.get_bind fun _ => h.bind (h.modifySchema fun _ _ => rfl) fun _ => h.pure _

theorem bindName (dest : ScopeId) (name : String) (item : Item) :
    R Unit (Compilation.bind dest name item) (Compilation.bind dest name item) :=
  h.modifySchema fun s w => s.setWarnings_bind w dest name item

theorem intern (t : ParamType) : R TypeRef (intern t) (intern t) := by
  refine h.get_bind fun c => h.bind (h.report ?_) fun _ =>
    h.bind (h.modifySchema fun _ _ => rfl) fun _ => h.pure _
  intro p f
  split <;> simp

theorem checkFree (dest : ScopeId) (name : Ident) :
    R Unit (checkFree dest name) (checkFree dest name) := by
  refine h.get_bind fun c => ?_
  rw [show (v.of c).schema.getLocal? dest name.text = _ from
    c.schema.getLocal?_setWarnings _ dest name.text]
  exact h.refuseIf (by simp)

theorem anchor (dest : ScopeId) (name : Option String) (position : Position) :
    R Anchor (anchor dest name position) (anchor dest name position) := by
  refine h.get_bind fun c => ?_
  rw [show (v.of c).schema.chain dest = _ from c.schema.chain_setWarnings _ dest]
  split
  · exact h.pure _
  · exact h.throw (by simp)

theorem takeSnapshot (source : ScopeId) :
    R Layout (takeSnapshot source) (takeSnapshot source) :=
  h.bind (h.modify fun _ => rfl) fun _ => h.get_bind fun _ => h.pure _

theorem addBranch (base : ScopeId) (path : Path) (id : ScopeId) (position : Position) :
    R Unit (addBranch base path id position) (addBranch base path id position) := by
  refine h.get_bind fun c => ?_
  rw [show (v.of c).schema.layout? base = c.schema.layout? base from rfl]
  split
  · exact h.throw (by simp)
  · exact h.bind (h.refuseIf (by simp)) fun _ => h.modifySchema fun _ _ => rfl

theorem addField (dest : ScopeId) (type : TypeRef) (name : Ident) :
    R Unit (addField dest type name) (addField dest type name) := by
  refine h.get_bind fun c => ?_
  rw [show (v.of c).schema.layout? dest = c.schema.layout? dest from rfl]
  split
  · exact h.throw (by simp)
  · exact h.bind (h.refuseIf (by simp)) fun _ => h.bind (h.modifySchema fun _ _ => rfl) fun _ =>
      h.bind (h.report (by simp)) fun _ => h.late _ _ _ _

theorem checkFits (layout : Layout) (position : Position) (name : String) (value : Literal) :
    R Unit (checkFits layout position name value) (checkFits layout position name value) := by
  refine h.get_bind fun c => ?_
  split
  · exact h.pure _
  · rename_i field _
    rw [show literalFits (v.of c).schema field.type value = _ from
        c.schema.literalFits_setWarnings _ _ _,
      show (v.of c).schema.typeName field.type = _ from c.schema.typeName_setWarnings _ _]
    exact h.misfit _ _ _ _ _ _

theorem checkConsistent (layout : Layout) (position : Position) (name : String)
    (value : Literal) :
    R Unit (checkConsistent layout position name value)
      (checkConsistent layout position name value) := by
  unfold Compilation.checkConsistent
  split
  · exact h.pure _
  · exact h.refuseIf (by simp)

theorem constrainedName (o : Operand) : R String (constrainedName o) (constrainedName o) := by
  unfold Compilation.constrainedName
  split
  · exact h.pure _
  · exact h.throw (by simp)

theorem constrainingLiteral (o : Operand) :
    R Literal (constrainingLiteral o) (constrainingLiteral o) := by
  unfold Compilation.constrainingLiteral
  split
  · exact h.pure _
  · exact h.throw (by simp)

theorem addConstraint (dest : ScopeId) (position : Position) (left right : Operand) :
    R Unit (addConstraint dest position left right) (addConstraint dest position left right) := by
  refine h.get_bind fun c => ?_
  rw [show (v.of c).schema.layout? dest = c.schema.layout? dest from rfl]
  split
  · exact h.throw (by simp)
  · exact h.bind (h.constrainedName left) fun _ => h.bind (h.constrainingLiteral right) fun _ =>
      h.bind (h.checkFits _ _ _ _) fun _ => h.bind (h.checkConsistent _ _ _ _) fun _ =>
        h.bind (h.report (by simp)) fun _ => h.modifySchema fun _ _ => rfl

/-! ### Applied types -/

section

variable {a : Argument Recorded} (ha : R TypeRef a.resolve a.resolve)
include ha

theorem prefixedLength (owner : Builtin) :
    R Length (a.prefixedLength owner) (a.prefixedLength owner) := by
  refine h.bind ha fun t => ?_
  split
  · split
    · exact h.pure _
    · exact h.throw (by simp)
  · exact h.throw (by simp)

theorem length (owner : Builtin) : R Length (a.length owner) (a.length owner) := by
  unfold Argument.length
  split
  · split
    · exact h.pure _
    · exact h.throw (by simp)
  · exact h.throw (by simp)
  · split
    · split
      · exact h.pure _
      · exact h.throw (by simp)
    · exact h.prefixedLength ha owner
  · exact h.prefixedLength ha owner

end

theorem word (a : Argument Recorded) (owner : Builtin) :
    R String (a.word owner) (a.word owner) := by
  unfold Argument.word
  split
  · exact h.pure _
  · exact h.pure _
  · exact h.throw (by simp)

theorem encoding {α : Type} (a : Argument Recorded) (owner : Builtin)
    (ofName? : String → Option α) :
    R α (a.encoding owner ofName?) (a.encoding owner ofName?) := by
  refine h.bind (h.word a owner) fun w => ?_
  split
  · exact h.pure _
  · exact h.throw (by simp)

section

variable {args : List (Argument Recorded)} (hargs : ∀ a ∈ args, R TypeRef a.resolve a.resolve)
include hargs

theorem paramType? {b : Builtin} {x : Recorded ParamType}
    (hx : Compilation.paramType? b args = some x) : R ParamType x x := by
  unfold Compilation.paramType? at hx
  split at hx
  · split at hx <;> cases hx <;> exact h.pure _
  · rename_i a
    have ha := hargs a List.mem_cons_self
    split at hx <;> cases hx
    · exact h.bind (h.length ha _) fun _ => h.pure _
    · exact h.bind (h.length ha _) fun _ => h.pure _
    · exact h.bind (h.encoding a _ _) fun _ => h.pure _
    · exact h.bind ha fun _ => h.pure _
  · rename_i l e
    have hl := hargs l List.mem_cons_self
    split at hx <;> cases hx
    · exact h.bind (h.length hl _) fun _ => h.bind (h.encoding e _ _) fun _ => h.pure _
    · exact h.bind (h.length hl _) fun _ =>
        h.bind (hargs e (List.mem_cons_of_mem _ List.mem_cons_self)) fun _ => h.pure _
  · cases hx

theorem apply (b : Builtin) (position : Position) :
    R TypeRef (apply b position args) (apply b position args) := by
  unfold Compilation.apply
  split
  · rename_i x hx
    exact h.bind (h.paramType? hargs hx) fun t => h.intern t
  · split
    · exact h.throw (by simp)
    · exact h.pure _

theorem resolveName (dest : ScopeId) (name : Name) (position : Position) :
    R TypeRef (resolveName dest name position args) (resolveName dest name position args) := by
  unfold Compilation.resolveName
  split
  · exact h.apply hargs _ _
  · refine h.get_bind fun c => ?_
    rw [show (v.of c).schema.lookup? dest name.path = _ from c.schema.lookup?_setWarnings _ _ _]
    split
    · split
      · exact h.pure _
      · exact h.throw (by simp)
    · exact h.throw (by simp)

end

/-! ### Declarations -/

section

variable {inside : ScopeId → Recorded Unit} (hinside : ∀ id, R Unit (inside id) (inside id))
include hinside

theorem addScopeWith (scope : Scope) :
    R ScopeId (addScopeWith scope inside) (addScopeWith scope inside) :=
  h.bind (h.addScope scope) fun id => h.bind (hinside id) fun _ => h.pure _

theorem addStruct (dest : ScopeId) (name : Option String) (position : Position) :
    R TypeRef (addStruct dest name position inside) (addStruct dest name position inside) :=
  h.bind (h.addScopeWith hinside _) fun _ => h.pure _

theorem addSpace (dest : ScopeId) (name : Ident) (position : Position) :
    R Unit (addSpace dest name position inside) (addSpace dest name position inside) :=
  h.bind (h.checkFree dest name) fun _ => h.bind (h.report (by simp)) fun _ =>
    h.bind (h.addScopeWith hinside _) fun _ => h.bindName _ _ _

theorem addVariant (dest : ScopeId) (name : Option Ident) (position : Position) :
    R Unit (addVariant dest name position inside) (addVariant dest name position inside) := by
  have hfree : R Unit (name.forM (Compilation.checkFree dest))
      (name.forM (Compilation.checkFree dest)) := by
    cases name with
    | none => exact h.pure _
    | some name => exact h.checkFree dest name
  refine h.bind hfree fun _ => h.bind (h.anchor _ _ _) fun a => h.bind (h.takeSnapshot _)
    fun layout => h.get_bind fun c => ?_
  rw [show (v.of c).schema.qualifiedName _ = _ from c.schema.qualifiedName_setWarnings _ _]
  refine h.bind (h.report (by simp)) fun _ => h.bind (h.addScopeWith hinside _) fun id => ?_
  split
  · exact h.bind (h.bindName _ _ _) fun _ => h.addBranch _ _ _ _
  · exact h.pure _

end

theorem addType (dest : ScopeId) (name : Ident) (position : Position) {x : Recorded TypeRef}
    (hx : R TypeRef x x) : R Unit (addType dest name position x) (addType dest name position x) :=
  h.bind (h.checkFree dest name) fun _ => h.bind (h.report (by simp)) fun _ =>
    h.bind hx fun _ => h.bindName _ _ _

theorem fields (dest : ScopeId) (type : TypeRef) : ∀ names : List Ident,
    R Unit (names.forM (Compilation.addField dest type))
      (names.forM (Compilation.addField dest type))
  | [] => h.pure _
  | name :: names => h.bind (h.addField dest type name) fun _ => fields dest type names

end

/-- Every step of the compiler is related to itself. -/
theorem closed (h : v.Simulates R) : Cases (fun _ _ x => R TypeRef x x)
    (fun _ _ x => R TypeRef x x) (fun _ _ as => ∀ a ∈ as, R TypeRef a.resolve a.resolve)
    (fun _ _ x => R Unit x x) (fun _ _ x => R Unit x x) where
  applied hargs _ _ := h.resolveName hargs _ _ _
  grouped he _ := he
  literal _ _ _ := h.throw (by simp)
  headed _ _ _ _ := h.throw (by simp)
  inline hbody _ _ := h.addStruct hbody _ _ _
  nameArg _ _ := h.resolveName (by simp) _ _ _
  literalArg _ _ := h.throw (by simp)
  typeArg he := he
  noArgs _ := by simp
  moreArgs ha has := List.forall_mem_cons.2 ⟨ha, has⟩
  space hbody _ _ _ := h.addSpace hbody _ _ _
  struct _ hbody _ _ _ := h.addType _ _ _ (h.addStruct hbody _ _ _)
  synonym _ he _ _ := h.addType _ _ _ he
  variant hbody _ _ _ := h.addVariant hbody _ _ _
  constraint _ _ _ _ := h.addConstraint _ _ _ _
  fields he _ names := h.bind he fun t => h.fields _ t names
  nil _ := h.pure _
  cons hst hsts := h.bind hst fun _ => hsts

theorem addText (h : v.Simulates R) (source text : String) :
    R Unit (addText source text) (addText source text) := by
  refine h.bind (h.report (by simp)) fun _ => ?_
  split
  · exact h.closed.declareAll _ _
  · rename_i e he
    refine h.throw fun p n value t heq => ?_
    have hsyntactic := Body.ofText_error he
    rw [heq] at hsyntactic
    exact hsyntactic

/-- Whole compilations are related. -/
theorem addTexts (h : v.Simulates R) : ∀ sources : List (String × String),
    R Unit (addTexts sources) (addTexts sources)
  | [] => h.pure _
  | (source, text) :: sources => h.bind (h.addText source text) fun _ => addTexts h sources

end View.Simulates

end Compilation

end PacketSchema
