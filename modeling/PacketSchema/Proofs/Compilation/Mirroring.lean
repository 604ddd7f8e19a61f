import PacketSchema.Proofs.Compilation.Composing
import PacketSchema.Proofs.Compilation.Recording
import PacketSchema.Proofs.Schema.Reprinting

/-! A recorded compilation comes to the same result and the same state as the plain one. How the
declarations are printed makes no difference either: the plain compilation of declarations in
another print comes to what the recorded one comes to, in that print. Other places alone are one
such print. -/

namespace PacketSchema

section

variable (r : Print)

theorem Statement.reprint_space (p : Position) (name : Ident) (body : Option Body) :
    (Statement.space p name body).reprint r =
      .space (p.reprint r) (name.reprint r) (body.map (Body.reprint r)) := by
  cases body <;> rfl

theorem Statement.reprint_type (p : Position) (name : Ident) (e : Option TypeExpr) :
    (Statement.type p name e).reprint r =
      .type (p.reprint r) (name.reprint r) (e.map (TypeExpr.reprint r)) := by
  cases e <;> rfl

theorem Statement.reprint_variant (p : Position) (name : Option Ident) (body : Option Body) :
    (Statement.variant p name body).reprint r =
      .variant (p.reprint r) (name.map (Ident.reprint r)) (body.map (Body.reprint r)) := by
  cases body <;> rfl

theorem Body.inside_reprint (body : Option Body) :
    Body.inside (body.map (Body.reprint r)) = reprintAll r (Body.inside body) := by
  obtain _ | ⟨_, _⟩ := body <;> rfl

theorem TypeExpr.inside?_reprint (e : Option TypeExpr) :
    TypeExpr.inside? (e.map (TypeExpr.reprint r)) = (TypeExpr.inside? e).map (reprintAll r) := by
  obtain _ | ⟨_, _, _⟩ | ⟨_, _⟩ := e <;> rfl

variable {r}

/-- A print that keeps a body keeps the statements of it. -/
theorem Body.inside_kept {body : Option Body} (h : body.map (Body.reprint r) = body) :
    reprintAll r (Body.inside body) = Body.inside body := by
  rw [← Body.inside_reprint, h]

theorem TypeExpr.inside?_kept {e : Option TypeExpr} (h : e.map (TypeExpr.reprint r) = e)
    {body : List Statement} (hbody : TypeExpr.inside? e = some body) :
    reprintAll r body = body := by
  have hinside := TypeExpr.inside?_reprint r e
  rw [h, hbody] at hinside
  exact (Option.some.inj hinside).symm

end

section

variable (r : Print)

def Event.reprint : Event → Event
  | source name => source (r.source name)
  | space p name => space (p.reprint r) name
  | type p name => type (p.reprint r) name
  | variant p path base => variant (p.reprint r) path base
  | field p name => field (p.reprint r) name
  | constraint p name value => constraint (p.reprint r) name value
  | cacheHit t id => cacheHit t id
  | cacheMiss t id => cacheMiss t id
  | finding p x => finding (p.reprint r) (x.reprint r)

def Compilation.reprint (c : Compilation) : Compilation :=
  { c with schema := c.schema.reprint r, log := c.log.map (Event.reprint r) }

end

theorem Event.reprint_same (e : Event) : e.reprint .same = e := by cases e <;> rfl

namespace Compilation

theorem reprint_same (c : Compilation) : c.reprint .same = c := by
  have hlog : c.log.map (Event.reprint .same) = c.log := List.map_id'' Event.reprint_same c.log
  rw [reprint, hlog, Schema.reprint_same]

theorem climb_reprint (r : Print) (source : Option ScopeId) (path : Option Path)
    (s : Schema) (dest : ScopeId) :
    climb source path ((s.reprint r).chain dest) = climb source path (s.chain dest) := by
  have hkind : ∀ scope : Scope, ∃ h, (scope.reprint r).kind = scope.kind.mapLayout h :=
    fun _ => ⟨_, rfl⟩
  rw [s.chain_reprint]
  exact climb_map_mapLink (g := Scope.reprint r) (fun _ => rfl) hkind source path _

theorem Anchor.reprint_kind (r : Print) (a : Anchor) (layout : Layout) :
    (a.kind layout).reprint r = a.kind (layout.reprint r) := by
  unfold kind
  cases a.path <;> rfl

/-- From declarations in another print the plain steps come to what the recorded ones come to. -/
def Mirrors {α β : Type} (r : Print) (value : α → β) (x : Recorded α) (y : Build β) :
    Prop :=
  Carries (fun record : Recording => record.current.reprint r) (SchemaError.reprint r) value x y

/-- The same argument, which resolves alike. -/
structure Argument.Mirrors (r : Print) (a : Argument Recorded) (b : Argument Build) :
    Prop where
  arg : b.arg = a.arg.reprint r
  resolve : Compilation.Mirrors r id a.resolve b.resolve

theorem Argument.Mirrors.position_eq {r : Print} {a : Argument Recorded}
    {b : Argument Build} (h : a.Mirrors r b) : b.position = a.position.reprint r := by
  unfold Argument.position
  rw [h.arg, TypeArg.position_reprint]

namespace Mirrors

variable {α β : Type} {r : Print}

theorem pure (value : α → β) (a : α) : Mirrors r value (pure a) (pure (value a)) :=
  Carries.pure a

theorem throw (value : α → β) (e : SchemaError) :
    Mirrors r value (throw e) (throw (e.reprint r)) :=
  Carries.throw e

theorem get : Mirrors r (reprint r) get get := fun _ => rfl

theorem modify {g h : Compilation → Compilation} (hg : ∀ c, h (c.reprint r) = (g c).reprint r) :
    Mirrors r id (modify g) (modify h) :=
  fun record => Prod.ext rfl (hg record.current)

theorem refuseIf {p q : Prop} [Decidable p] [Decidable q] (h : p ↔ q) (e : SchemaError) :
    Mirrors r id (refuseIf p e) (refuseIf q (e.reprint r)) := by
  unfold Compilation.refuseIf
  by_cases hp : p
  · rw [if_pos hp, if_pos (h.1 hp)]
    exact throw _ _
  · rw [if_neg hp, if_neg (mt h.2 hp)]
    exact pure _ _

theorem modifySchema {g h : Schema → Schema} (hg : ∀ s, (g s).reprint r = h (s.reprint r)) :
    Mirrors r id (modifySchema g) (modifySchema h) :=
  modify fun c => by simp [reprint, hg]

theorem report (e : Event) : Mirrors r id (report e) (report (e.reprint r)) :=
  modify fun c => by simp [reprint]

theorem addScope (scope : Scope) :
    Mirrors r id (addScope scope) (addScope (scope.reprint r)) := by
  refine get.bind fun c => ?_
  rw [show (c.reprint r).schema.nextId = c.schema.nextId from c.schema.nextId_reprint]
  exact (modifySchema fun s => s.reprint_addScope scope).bind fun _ => pure _ _

theorem bindName (dest : ScopeId) (name : String) (item : Item) :
    Mirrors r id (Compilation.bind dest name item) (Compilation.bind dest name item) :=
  modifySchema fun s => s.reprint_bind dest name item

theorem intern (t : ParamType) : Mirrors r id (intern t) (intern t) := by
  refine get.bind fun c => ?_
  have hreport : ∀ number, Mirrors r id
      (Compilation.report (if (c.schema.types.find? t).isSome then .cacheHit t number
        else .cacheMiss t number))
      (Compilation.report (if (c.schema.types.find? t).isSome then .cacheHit t number
        else .cacheMiss t number)) := by
    intro number
    split <;> exact report _
  rw [show (c.reprint r).schema.types = c.schema.types from rfl]
  refine (hreport _).bind fun _ => Carries.bind (modifySchema ?_) fun _ => pure _ _
  exact fun _ => rfl

theorem checkFree (dest : ScopeId) (name : Ident) :
    Mirrors r id (checkFree dest name) (checkFree dest (name.reprint r)) := by
  refine get.bind fun c => refuseIf ?_ _
  exact iff_of_eq (congrArg (·.isSome = true) (c.schema.getLocal?_reprint dest name.text).symm)

theorem anchor (dest : ScopeId) (name : Option String) (position : Position) :
    Mirrors r id (anchor dest name position) (anchor dest name (position.reprint r)) := by
  refine get.bind fun c => ?_
  rw [show climb none _ ((c.reprint r).schema.chain dest) = _ from
    climb_reprint r _ _ c.schema dest]
  split
  · exact pure _ _
  · exact throw _ _

theorem takeSnapshot (source : ScopeId) :
    Mirrors r (Layout.reprint r) (takeSnapshot source) (takeSnapshot source) := by
  refine Carries.bind (modify (g := fun c => { c with snapshotted := source :: c.snapshotted })
    fun _ => rfl) fun _ => get.bind fun c => ?_
  have hlayout : (((c.reprint r).schema.layout? source).map Layout.snapshot).getD {} =
      (((c.schema.layout? source).map Layout.snapshot).getD {}).reprint r := by
    rw [show (c.reprint r).schema.layout? source = _ from c.schema.layout?_reprint source]
    cases c.schema.layout? source <;> rfl
  rw [hlayout]
  exact pure _ _

theorem addBranch (base : ScopeId) (path : Path) (scope : ScopeId) (position : Position) :
    Mirrors r id (addBranch base path scope position)
      (addBranch base path scope (position.reprint r)) := by
  refine get.bind fun c => ?_
  rw [show (c.reprint r).schema.layout? base = _ from c.schema.layout?_reprint base]
  cases c.schema.layout? base with
  | none => exact throw _ _
  | some layout =>
    exact (refuseIf .rfl _).bind fun _ => modifySchema fun s =>
      s.reprint_modifyLayout base fun _ => rfl

theorem warnLate (dest : ScopeId) (name : Ident) :
    Mirrors r id (warnLate dest name) (warnLate dest (name.reprint r)) := by
  refine get.bind fun c => ?_
  rw [show (c.reprint r).schema.qualifiedName dest = _ from c.schema.qualifiedName_reprint dest]
  exact (report _).bind fun _ => modifySchema fun s => s.reprint_addWarning _

theorem addField (dest : ScopeId) (type : TypeRef) (name : Ident) :
    Mirrors r id (addField dest type name) (addField dest type (name.reprint r)) := by
  refine get.bind fun c => ?_
  rw [show (c.reprint r).schema.layout? dest = _ from c.schema.layout?_reprint dest]
  cases c.schema.layout? dest with
  | none => exact throw _ _
  | some layout =>
    refine (refuseIf ?_ _).bind fun _ => (modifySchema fun s =>
      s.reprint_modifyLayout dest fun l => ?_).bind fun _ => (report _).bind fun _ => ?_
    · exact iff_of_eq (congrArg (· = true) (layout.fields.contains_map _ name.text).symm)
    · exact congrArg (fun fields => Layout.mk fields _ _ _) (l.fields.insert_map _ _ _).symm
    · rw [show (c.reprint r).options = c.options from rfl,
        show (c.reprint r).snapshotted = c.snapshotted from rfl]
      split
      · exact warnLate dest name
      · exact pure _ _

theorem checkFits (layout : Layout) (position : Position) (name : String) (value : Literal) :
    Mirrors r id (checkFits layout position name value)
      (checkFits (layout.reprint r) (position.reprint r) name value) := by
  refine get.bind fun c => ?_
  rw [show (layout.reprint r).fields.find? name = _ from layout.fields.find?_map _ name]
  cases layout.fields.find? name with
  | none => exact pure _ _
  | some field =>
    dsimp only [Option.map_some]
    rw [show (c.reprint r).schema.typeName _ = _ from c.schema.typeName_reprint _]
    exact refuseIf .rfl _

theorem checkConsistent (layout : Layout) (position : Position) (name : String)
    (value : Literal) :
    Mirrors r id (checkConsistent layout position name value)
      (checkConsistent (layout.reprint r) (position.reprint r) name value) := by
  unfold Compilation.checkConsistent
  dsimp only [Layout.reprint]
  split
  · exact pure _ _
  · exact refuseIf .rfl _

theorem constrainedName (o : Operand) :
    Mirrors r id (constrainedName o) (constrainedName (o.reprint r)) := by
  obtain ⟨⟨head, _ | ⟨next, rest⟩⟩⟩ | v := o
  · exact pure _ _
  · exact throw _ _
  · exact throw _ _

theorem constrainingLiteral (o : Operand) :
    Mirrors r id (constrainingLiteral o) (constrainingLiteral (o.reprint r)) := by
  cases o
  · exact throw _ _
  · exact pure _ _

theorem addConstraint (dest : ScopeId) (position : Position) (left right : Operand) :
    Mirrors r id (addConstraint dest position left right)
      (addConstraint dest (position.reprint r) (left.reprint r) (right.reprint r)) := by
  refine get.bind fun c => ?_
  rw [show (c.reprint r).schema.layout? dest = _ from c.schema.layout?_reprint dest]
  cases c.schema.layout? dest with
  | none => exact throw _ _
  | some layout =>
    exact (constrainedName left).bind fun _ => (constrainingLiteral right).bind fun _ =>
      (checkFits _ _ _ _).bind fun _ => (checkConsistent _ _ _ _).bind fun _ =>
        (report _).bind fun _ => modifySchema fun s => s.reprint_modifyLayout dest fun _ => rfl

variable {a : Argument Recorded} {b : Argument Build}

theorem prefixedLength (h : a.Mirrors r b) (owner : Builtin) :
    Mirrors r id (a.prefixedLength owner) (b.prefixedLength owner) := by
  refine h.resolve.bind fun t => ?_
  rw [h.position_eq]
  dsimp only [id]
  split
  · split
    · exact pure _ _
    · exact throw _ _
  · exact throw _ _

theorem length (h : a.Mirrors r b) (owner : Builtin) :
    Mirrors r id (a.length owner) (b.length owner) := by
  have hp := prefixedLength h owner
  unfold Argument.length
  rw [h.arg]
  rcases a.arg with n | ⟨literal, _, p⟩ | e
  · dsimp only [TypeArg.reprint]
    rw [show (n.reprint r).text = n.text from rfl]
    split
    · split
      · exact pure _ _
      · exact throw _ _
    · exact hp
  · cases literal
    · dsimp only [TypeArg.reprint, Value.reprint]
      split
      · exact pure _ _
      · exact throw _ _
    · exact throw _ _
  · exact hp

theorem word (h : a.Mirrors r b) (owner : Builtin) :
    Mirrors r id (a.word owner) (b.word owner) := by
  unfold Argument.word
  rw [h.arg, h.position_eq]
  rcases a.arg with ⟨head, _ | ⟨next, rest⟩⟩ | ⟨literal, _, p⟩ | e
  · exact pure _ _
  · exact throw _ _
  · cases literal
    · exact throw _ _
    · exact pure _ _
  · exact throw _ _

theorem encoding {α : Type} (h : a.Mirrors r b) (owner : Builtin)
    (ofName? : String → Option α) :
    Mirrors r id (a.encoding owner ofName?) (b.encoding owner ofName?) := by
  refine (word h owner).bind fun w => ?_
  rw [h.position_eq]
  dsimp only [id]
  split
  · exact pure _ _
  · exact throw _ _

/-- A builtin takes arguments or does not take them on both sides. -/
theorem paramType? {as : List (Argument Recorded)} {bs : List (Argument Build)}
    (h : List.Forall₂ (Argument.Mirrors r) as bs) (b : Builtin) :
    Option.Rel (Mirrors r id) (paramType? b as) (paramType? b bs) := by
  unfold Compilation.paramType?
  cases h with
  | nil => cases b <;> first | exact .some (pure _ _) | exact .none
  | cons h₁ h =>
    cases h with
    | nil =>
      cases b
      case string => exact .some ((length h₁ _).bind fun _ => pure _ _)
      case bytes => exact .some ((length h₁ _).bind fun _ => pure _ _)
      case uuid => exact .some ((encoding h₁ _ _).bind fun _ => pure _ _)
      case boolOptional => exact .some (h₁.resolve.bind fun _ => pure _ _)
      all_goals exact .none
    | cons h₂ h =>
      cases h with
      | nil =>
        cases b
        case string =>
          exact .some ((length h₁ _).bind fun _ => (encoding h₂ _ _).bind fun _ => pure _ _)
        case array =>
          exact .some ((length h₁ _).bind fun _ => h₂.resolve.bind fun _ => pure _ _)
        all_goals exact .none
      | cons _ _ => exact .none

theorem apply {as : List (Argument Recorded)} {bs : List (Argument Build)}
    (h : List.Forall₂ (Argument.Mirrors r) as bs) (b : Builtin) (position : Position) :
    Mirrors r id (apply b position as) (apply b (position.reprint r) bs) := by
  have hempty : as.isEmpty = bs.isEmpty := by cases h <;> rfl
  have hp := paramType? h b
  unfold Compilation.apply
  revert hp
  rw [hempty]
  generalize Compilation.paramType? b as = x
  generalize Compilation.paramType? b bs = y
  intro hp
  cases hp with
  | some ht => exact ht.bind fun _ => intern _
  | none =>
    dsimp only
    split
    · exact throw _ _
    · exact pure _ _

theorem resolveName {as : List (Argument Recorded)} {bs : List (Argument Build)}
    (h : List.Forall₂ (Argument.Mirrors r) as bs) (dest : ScopeId) (name : Name)
    (position : Position) :
    Mirrors r id (resolveName dest name position as)
      (resolveName dest (name.reprint r) (position.reprint r) bs) := by
  have hempty : as.isEmpty = bs.isEmpty := by cases h <;> rfl
  unfold Compilation.resolveName
  rw [show (name.reprint r).text = name.text from rfl]
  split
  · exact apply h _ _
  · refine get.bind fun c => ?_
    rw [show (c.reprint r).schema.lookup? dest (name.reprint r).path = _ from
      c.schema.lookup?_reprint dest name.path, hempty]
    split
    · split
      · exact pure _ _
      · exact throw _ _
    · exact throw _ _

section

variable {inside : ScopeId → Recorded Unit} {inside' : ScopeId → Build Unit}

theorem addScopeWith (h : ∀ scope, Mirrors r id (inside scope) (inside' scope))
    (scope : Scope) :
    Mirrors r id (addScopeWith scope inside) (addScopeWith (scope.reprint r) inside') :=
  (addScope scope).bind fun added => (h added).bind fun _ => pure _ _

theorem addStruct (h : ∀ scope, Mirrors r id (inside scope) (inside' scope)) (dest : ScopeId)
    (name : Option String) (position : Position) :
    Mirrors r id (addStruct dest name position inside)
      (addStruct dest name (position.reprint r) inside') :=
  (addScopeWith h _).bind fun _ => pure _ _

theorem addSpace (h : ∀ scope, Mirrors r id (inside scope) (inside' scope)) (dest : ScopeId)
    (name : Ident) (position : Position) :
    Mirrors r id (addSpace dest name position inside)
      (addSpace dest (name.reprint r) (position.reprint r) inside') :=
  (checkFree dest name).bind fun _ => (report _).bind fun _ => (addScopeWith h _).bind fun _ =>
    bindName _ _ _

theorem addType {x : Recorded TypeRef} {y : Build TypeRef} (h : Mirrors r id x y)
    (dest : ScopeId) (name : Ident) (position : Position) :
    Mirrors r id (addType dest name position x)
      (addType dest (name.reprint r) (position.reprint r) y) :=
  (checkFree dest name).bind fun _ => (report _).bind fun _ => h.bind fun _ => bindName _ _ _

theorem forM {α β : Type} {value : α → β} {x : α → Recorded Unit} {y : β → Build Unit}
    (h : ∀ a, Mirrors r id (x a) (y (value a))) :
    ∀ as : List α, Mirrors r id (as.forM x) ((as.map value).forM y)
  | [] => pure id ()
  | a :: as => (h a).bind fun _ => forM h as

theorem forOption {α β : Type} {value : α → β} {x : α → Recorded Unit} {y : β → Build Unit}
    (h : ∀ a, Mirrors r id (x a) (y (value a))) :
    ∀ o : Option α, Mirrors r id (o.forM x) ((o.map value).forM y)
  | none => pure id ()
  | some a => h a

theorem addVariant (h : ∀ scope, Mirrors r id (inside scope) (inside' scope)) (dest : ScopeId)
    (name : Option Ident) (position : Position) :
    Mirrors r id (addVariant dest name position inside)
      (addVariant dest (name.map (Ident.reprint r)) (position.reprint r) inside') := by
  have htext : (name.map (Ident.reprint r)).map Ident.text = name.map Ident.text := by
    cases name <;> rfl
  unfold Compilation.addVariant
  rw [htext]
  refine (forOption (checkFree dest) name).bind fun _ => (anchor _ _ _).bind fun a =>
    (takeSnapshot _).bind fun layout => get.bind fun c => ?_
  rw [show (c.reprint r).schema.qualifiedName _ = _ from c.schema.qualifiedName_reprint _]
  refine (report _).bind fun _ => ?_
  dsimp only [id]
  rw [← Anchor.reprint_kind]
  refine (addScopeWith h _).bind fun added => ?_
  split
  · exact (bindName _ _ _).bind fun _ => addBranch _ _ _ _
  · exact pure id ()

end

/-- The declarations in the other print compile alike. -/
theorem closed : Cases (m := Recorded) (fun d e x => Mirrors r id x (resolve d (e.reprint r)))
    (fun d a x => Mirrors r id x (resolveArg d (a.reprint r)))
    (fun d as xs => List.Forall₂ (Argument.Mirrors r) xs (arguments d (reprintArgs r as)))
    (fun d st x => Mirrors r id x (declare d (st.reprint r)))
    (fun d body x => Mirrors r id x (declareAll d (reprintAll r body))) where
  applied hargs _ _ := by
    rw [TypeExpr.reprint, TypeArg.reprint, resolve_name]
    exact resolveName hargs _ _ _
  grouped he _ := by
    rw [TypeExpr.reprint, TypeArg.reprint, reprintArgs, resolve_grouped]
    exact he
  literal _ _ _ := by
    rw [TypeExpr.reprint, TypeArg.reprint, reprintArgs, resolve_literal]
    exact throw _ _
  headed {head} {params} hhead hparams _ _ := by
    rw [TypeExpr.reprint, resolve_of_params, TypeArg.position_reprint]
    · exact throw _ _
    · cases head <;> simp_all [TypeArg.reprint]
    · cases params <;> simp_all [reprintArgs]
  inline hbody _ _ := by
    rw [TypeExpr.reprint, Body.reprint, resolve_body]
    exact addStruct hbody _ _ _
  nameArg _ _ := by
    rw [TypeArg.reprint, resolveArg_name]
    exact resolveName .nil _ _ _
  literalArg _ _ := by
    rw [TypeArg.reprint, resolveArg_literal]
    exact throw _ _
  typeArg he := by
    rw [TypeArg.reprint, resolveArg_type]
    exact he
  noArgs _ := by
    rw [reprintArgs, arguments_nil]
    exact .nil
  moreArgs ha has := by
    rw [reprintArgs, arguments_cons]
    exact .cons ⟨rfl, ha⟩ has
  space hbody _ _ _ := by
    rw [Statement.reprint_space, declare_space, Body.inside_reprint]
    exact addSpace hbody _ _ _
  struct {e} {body} he hbody _ _ _ := by
    have hbody' : TypeExpr.inside? (e.map (TypeExpr.reprint r)) = some (reprintAll r body) := by
      rw [TypeExpr.inside?_reprint, he]
      rfl
    rw [Statement.reprint_type, declare_struct _ _ _ hbody']
    exact addType (addStruct hbody _ _ _) _ _ _
  synonym {_ e} he hresolve _ _ := by
    have he' : TypeExpr.inside? (some (e.reprint r)) = none := by
      rw [← Option.map_some, TypeExpr.inside?_reprint, he]
      rfl
    rw [Statement.reprint_type, Option.map_some, declare_synonym _ _ _ he']
    exact addType hresolve _ _ _
  variant hbody _ _ _ := by
    rw [Statement.reprint_variant, declare_variant, Body.inside_reprint]
    exact addVariant hbody _ _ _
  constraint _ _ _ _ := by
    rw [Statement.reprint, declare_constraint]
    exact addConstraint _ _ _ _
  fields he _ names := by
    rw [Statement.reprint, declare_fields]
    exact he.bind fun t => forM (addField _ t) names
  nil _ := by
    rw [reprintAll, declareAll_nil]
    exact pure id ()
  cons hst hsts := by
    rw [reprintAll, declareAll_cons]
    exact hst.bind fun _ => hsts

end Mirrors

/-! ## Texts -/

section

variable {m : Type → Type} [Monad m] [MonadStateOf Compilation m] [MonadExceptOf SchemaError m]

/-- Compiles what has been read from a text. -/
def addRead (source : String) (body : Except SchemaError Body) : m Unit := do
  report (.source source)
  match body with
  | .ok body => declareAll Schema.root body.statements
  | .error e => throw e

def addReads : List (String × Except SchemaError Body) → m Unit
  | [] => pure ()
  | (source, body) :: rest => do
    addRead source body
    addReads rest

end

/-- What is read from each text, in another print. -/
def reprints (r : Print) (sources : List (String × String)) :
    List (String × Except SchemaError Body) :=
  sources.map fun (source, text) =>
    (r.source source, reprintResult r (Body.reprint r) (Body.ofText source text))

theorem Mirrors.addText {r : Print} (source text : String) :
    Mirrors r id (addText source text)
      (addRead (r.source source) (reprintResult r (Body.reprint r) (Body.ofText source text))) := by
  refine (report _).bind fun _ => ?_
  cases Body.ofText source text with
  | error e => exact throw _ _
  | ok body =>
    obtain ⟨_, statements⟩ := body
    exact closed.declareAll _ statements

theorem Mirrors.addTexts {r : Print} : ∀ sources : List (String × String),
    Mirrors r id (addTexts sources) (addReads (reprints r sources))
  | [] => pure id ()
  | (source, text) :: sources => (addText source text).bind fun _ => addTexts sources

theorem addReads_reprints_same : ∀ sources : List (String × String),
    (addReads (reprints .same sources) : Build Unit) = addTexts sources
  | [] => rfl
  | (source, text) :: sources => by
    have hread := reprintResult_same Body.reprint_same (Body.ofText source text)
    show (addRead source (reprintResult .same (Body.reprint .same) (Body.ofText source text)) >>=
      fun _ => addReads (reprints .same sources) : Build Unit) = _
    rw [hread, addReads_reprints_same sources]
    rfl

/-- The compilation of what is read in another print comes to what the recorded one comes to. -/
theorem run_addReads_reprints (r : Print) (options : Options) (sources : List (String × String)) :
    (addReads (reprints r sources) : Build Unit).run (.start options) =
      (reprintResult r id (recorded options sources).1,
        (recorded options sources).2.current.reprint r) :=
  Mirrors.addTexts sources ⟨.start options, []⟩

/-- A schema is what the recorded compilation of its sources holds in the end. -/
theorem ofSources_eq_recorded (options : Options) (sources : List (String × String)) :
    Schema.ofSources options sources = match recorded options sources with
      | (.ok (), r) => .ok r.current.schema
      | (.error e, _) => .error e := by
  have hrun := run_addReads_reprints .same options sources
  rw [addReads_reprints_same, reprintResult_same fun _ => rfl, reprint_same] at hrun
  unfold Schema.ofSources addSources
  rw [hrun]
  rcases recorded options sources with ⟨e | ⟨⟩, r⟩ <;> rfl

theorem recorded_of_ok {options : Options} {sources : List (String × String)} {s : Schema}
    (h : Schema.ofSources options sources = .ok s) :
    ∃ r, recorded options sources = (.ok (), r) ∧ r.current.schema = s := by
  rw [ofSources_eq_recorded] at h
  rcases hrun : recorded options sources with ⟨e | ⟨⟩, r⟩
  · rw [hrun] at h
    cases h
  · rw [hrun] at h
    exact ⟨r, rfl, Except.ok.inj h⟩

/-- Sources that are read alike but for the print compile alike but for the print. -/
theorem ofSources_reprint {r r' : Print} {sources sources' : List (String × String)}
    (h : reprints r sources = reprints r' sources') (options : Options) :
    reprintResult r (Schema.reprint r) (Schema.ofSources options sources) =
      reprintResult r' (Schema.reprint r') (Schema.ofSources options sources') := by
  have hrun := run_addReads_reprints r options sources
  rw [h, run_addReads_reprints] at hrun
  obtain ⟨hresult, hstate⟩ := Prod.mk.inj hrun
  rw [ofSources_eq_recorded, ofSources_eq_recorded]
  generalize recorded options sources = x at hresult hstate
  generalize recorded options sources' = y at hresult hstate
  obtain ⟨_ | ⟨⟩, _⟩ := x <;> obtain ⟨_ | ⟨⟩, _⟩ := y
  · exact congrArg Except.error (Except.error.inj hresult).symm
  · cases hresult
  · cases hresult
  · exact congrArg (fun c => Except.ok c.schema) hstate.symm

/-! ## Other places -/

/-- What is read from each text, at other places. -/
abbrev readings (f : Place → Place) (sources : List (String × String)) :
    List (String × Except SchemaError Body) :=
  reprints (.places f) sources

abbrev relocate (f : Place → Place) (c : Compilation) : Compilation := c.reprint (.places f)

end Compilation

end PacketSchema
