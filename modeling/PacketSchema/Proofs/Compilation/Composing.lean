import PacketSchema.Compilation.Resolution

/-! Induction on what is compiled. What a declaration compiles to is put together from what the
parts of it compile to, one step of the compiler for each kind of node. A property that every step
keeps holds of all that is compiled. -/

namespace PacketSchema

/-- The name that a declaration binds. -/
def Statement.name? : Statement → Option Ident
  | .space _ name _ | .type _ name _ => some name
  | .variant _ name _ => name
  | .constraint _ _ _ | .fields _ _ _ => none

/-- The statements of a body, which may be left out. -/
def Body.inside : Option Body → List Statement
  | none => []
  | some body => body.statements

/-- The statements of a type that is declared as a struct. -/
def TypeExpr.inside? : Option TypeExpr → Option (List Statement)
  | none => some []
  | some (.body b) => some b.statements
  | some (.application _ _ _) => none

/-- The statements in the scope that a declaration opens. -/
def Statement.inside? : Statement → Option (List Statement)
  | .space _ _ body | .variant _ _ body => some (Body.inside body)
  | .type _ _ e => TypeExpr.inside? e
  | .constraint _ _ _ | .fields _ _ _ => none

/-- What is declared in a new scope stands in a body, if it is anything at all. -/
theorem Statement.inside?_cases {st : Statement} {body : List Statement}
    (h : st.inside? = some body) :
    body = [] ∨ ∃ p q, (∃ name, st = .space p name (some (.mk q body))) ∨
      (∃ name, st = .type p name (some (.body (.mk q body)))) ∨
      ∃ name, st = .variant p name (some (.mk q body)) := by
  cases st with
  | space p name o =>
    obtain _ | ⟨q, _⟩ := o <;> cases h
    · exact .inl rfl
    · exact .inr ⟨p, q, .inl ⟨name, rfl⟩⟩
  | type p name e =>
    obtain _ | ⟨_, _, _⟩ | ⟨q, _⟩ := e <;> cases h
    · exact .inl rfl
    · exact .inr ⟨p, q, .inr (.inl ⟨name, rfl⟩)⟩
  | variant p name o =>
    obtain _ | ⟨q, _⟩ := o <;> cases h
    · exact .inl rfl
    · exact .inr ⟨p, q, .inr (.inr ⟨name, rfl⟩)⟩
  | constraint _ _ _ | fields _ _ _ => cases h

namespace Compilation

variable {m : Type → Type} [Monad m] [MonadStateOf Compilation m] [MonadExceptOf SchemaError m]

/-! ## Steps -/

section

variable (d : ScopeId) (p : Position)

theorem resolve_name (n : Name) (params : List TypeArg) :
    (resolve d (.application p (.name n) params) : m TypeRef) =
      resolveName d n p (arguments d params) := by
  unfold resolve
  rfl

theorem resolve_grouped (e : TypeExpr) :
    (resolve d (.application p (.type e) []) : m TypeRef) = resolve d e := by
  rw [resolve]

theorem resolve_literal (v : Value) :
    (resolve d (.application p (.value v) []) : m TypeRef) =
      throw (.expected v.position .type) := by
  unfold resolve
  rfl

theorem resolve_of_params {head : TypeArg} (hhead : ∀ n, head ≠ .name n) {params : List TypeArg}
    (hparams : params ≠ []) : (resolve d (.application p head params) : m TypeRef) =
      throw (.expected head.position .typeNameBeforeArguments) := by
  cases params with
  | nil => exact absurd rfl hparams
  | cons a params =>
    cases head with
    | name n => exact absurd rfl (hhead n)
    | value _ | type _ =>
      unfold resolve
      rfl

theorem resolve_body (b : Body) : (resolve d (.body b) : m TypeRef) =
    addStruct d none b.position fun id => declareAll id b.statements := by
  cases b
  unfold resolve
  rfl

theorem resolveArg_name (n : Name) : (resolveArg d (.name n) : m TypeRef) =
    resolveName d n n.position [] := by
  unfold resolveArg
  rfl

theorem resolveArg_literal (v : Value) : (resolveArg d (.value v) : m TypeRef) =
    throw (.expected v.position .type) := by
  unfold resolveArg
  rfl

theorem resolveArg_type (e : TypeExpr) : (resolveArg d (.type e) : m TypeRef) = resolve d e := by
  unfold resolveArg
  rfl

theorem arguments_nil : (arguments d [] : List (Argument m)) = [] := by
  unfold arguments
  rfl

theorem arguments_cons (a : TypeArg) (as : List TypeArg) :
    (arguments d (a :: as) : List (Argument m)) = ⟨a, resolveArg d a⟩ :: arguments d as := by
  rw [arguments]

theorem map_arg_arguments (as : List TypeArg) :
    (arguments d as : List (Argument m)).map Argument.arg = as := by
  induction as with
  | nil => rw [arguments_nil, List.map_nil]
  | cons a as ih => rw [arguments_cons, List.map_cons, ih]

theorem declareAll_nil : (declareAll d [] : m Unit) = pure () := by
  unfold declareAll
  rfl

theorem declareAll_cons (st : Statement) (sts : List Statement) :
    (declareAll d (st :: sts) : m Unit) = declare d st >>= fun _ => declareAll d sts := by
  rw [declareAll]

theorem declare_space (name : Ident) (body : Option Body) :
    (declare d (.space p name body) : m Unit) =
      addSpace d name p fun id => declareAll id (Body.inside body) := by
  obtain _ | ⟨_, _⟩ := body <;> unfold declare
  · simp only [Body.inside, declareAll_nil]
  · rfl

theorem declare_struct (name : Ident) {e : Option TypeExpr} {body : List Statement}
    (h : TypeExpr.inside? e = some body) : (declare d (.type p name e) : m Unit) =
      addType d name p (addStruct d (some name.text) p fun id => declareAll id body) := by
  obtain _ | ⟨_, _, _⟩ | ⟨_, _⟩ := e <;> cases h <;> unfold declare
  · simp only [declareAll_nil]
  · rfl

theorem declare_synonym (name : Ident) {e : TypeExpr} (h : TypeExpr.inside? (some e) = none) :
    (declare d (.type p name (some e)) : m Unit) = addType d name p (resolve d e) := by
  cases e with
  | body _ => cases h
  | application _ _ _ =>
    unfold declare
    rfl

theorem declare_variant (name : Option Ident) (body : Option Body) :
    (declare d (.variant p name body) : m Unit) =
      addVariant d name p fun id => declareAll id (Body.inside body) := by
  obtain _ | ⟨_, _⟩ := body <;> unfold declare
  · simp only [Body.inside, declareAll_nil]
  · rfl

theorem declare_constraint (left right : Operand) :
    (declare d (.constraint p left right) : m Unit) = addConstraint d p left right := by
  unfold declare
  rfl

theorem declare_fields (names : List Ident) (e : TypeExpr) :
    (declare d (.fields p names e) : m Unit) =
      resolve d e >>= fun t => names.forM (addField d t) := by
  unfold declare
  rfl

end

/-! ## Induction -/

/-- The cases of an induction on what is compiled in a scope: a property for each kind of node and
what the node compiles to, and for each step of the compiler that it keeps them. -/
structure Cases (OfType : ScopeId → TypeExpr → m TypeRef → Prop)
    (OfArg : ScopeId → TypeArg → m TypeRef → Prop)
    (OfArgs : ScopeId → List TypeArg → List (Argument m) → Prop)
    (OfStatement : ScopeId → Statement → m Unit → Prop)
    (OfBody : ScopeId → List Statement → m Unit → Prop) : Prop where
  applied {d : ScopeId} {params : List TypeArg} (h : OfArgs d params (arguments d params))
      (p : Position) (n : Name) :
    OfType d (.application p (.name n) params) (resolveName d n p (arguments d params))
  grouped {d : ScopeId} {e : TypeExpr} (h : OfType d e (resolve d e)) (p : Position) :
    OfType d (.application p (.type e) []) (resolve d e)
  literal (d : ScopeId) (p : Position) (v : Value) :
    OfType d (.application p (.value v) []) (throw (.expected v.position .type))
  /-- Only a name takes parameters. -/
  headed {head : TypeArg} {params : List TypeArg} (hhead : ∀ n, head ≠ .name n)
      (hparams : params ≠ []) (d : ScopeId) (p : Position) :
    OfType d (.application p head params)
      (throw (.expected head.position .typeNameBeforeArguments))
  inline {body : List Statement} (h : ∀ id, OfBody id body (declareAll id body)) (d : ScopeId)
      (p : Position) :
    OfType d (.body (.mk p body)) (addStruct d none p fun id => declareAll id body)
  nameArg (d : ScopeId) (n : Name) : OfArg d (.name n) (resolveName d n n.position [])
  literalArg (d : ScopeId) (v : Value) : OfArg d (.value v) (throw (.expected v.position .type))
  typeArg {d : ScopeId} {e : TypeExpr} (h : OfType d e (resolve d e)) :
    OfArg d (.type e) (resolve d e)
  noArgs (d : ScopeId) : OfArgs d [] []
  moreArgs {d : ScopeId} {a : TypeArg} {as : List TypeArg} (h : OfArg d a (resolveArg d a))
      (has : OfArgs d as (arguments d as)) :
    OfArgs d (a :: as) (⟨a, resolveArg d a⟩ :: arguments d as)
  space {o : Option Body}
      (h : ∀ id, OfBody id (Body.inside o) (declareAll id (Body.inside o))) (d : ScopeId)
      (p : Position) (name : Ident) :
    OfStatement d (.space p name o)
      (addSpace d name p fun id => declareAll id (Body.inside o))
  struct {e : Option TypeExpr} {body : List Statement} (he : TypeExpr.inside? e = some body)
      (h : ∀ id, OfBody id body (declareAll id body)) (d : ScopeId) (p : Position)
      (name : Ident) :
    OfStatement d (.type p name e)
      (addType d name p (addStruct d (some name.text) p fun id => declareAll id body))
  synonym {d : ScopeId} {e : TypeExpr} (he : TypeExpr.inside? (some e) = none)
      (h : OfType d e (resolve d e)) (p : Position) (name : Ident) :
    OfStatement d (.type p name (some e)) (addType d name p (resolve d e))
  variant {o : Option Body}
      (h : ∀ id, OfBody id (Body.inside o) (declareAll id (Body.inside o))) (d : ScopeId)
      (p : Position) (name : Option Ident) :
    OfStatement d (.variant p name o)
      (addVariant d name p fun id => declareAll id (Body.inside o))
  constraint (d : ScopeId) (p : Position) (left right : Operand) :
    OfStatement d (.constraint p left right) (addConstraint d p left right)
  fields {d : ScopeId} {e : TypeExpr} (h : OfType d e (resolve d e)) (p : Position)
      (names : List Ident) :
    OfStatement d (.fields p names e) (resolve d e >>= fun t => names.forM (addField d t))
  nil (d : ScopeId) : OfBody d [] (pure ())
  cons {d : ScopeId} {st : Statement} {sts : List Statement}
      (h : OfStatement d st (declare d st)) (hs : OfBody d sts (declareAll d sts)) :
    OfBody d (st :: sts) (declare d st >>= fun _ => declareAll d sts)

namespace Cases

variable {OfType : ScopeId → TypeExpr → m TypeRef → Prop}
  {OfArg : ScopeId → TypeArg → m TypeRef → Prop}
  {OfArgs : ScopeId → List TypeArg → List (Argument m) → Prop}
  {OfStatement : ScopeId → Statement → m Unit → Prop}
  {OfBody : ScopeId → List Statement → m Unit → Prop}
  (h : Cases OfType OfArg OfArgs OfStatement OfBody)

include h

theorem empty (d : ScopeId) : OfBody d [] (declareAll d []) := by
  rw [declareAll_nil]
  exact h.nil d

mutual

theorem resolve (d : ScopeId) : ∀ e : TypeExpr, OfType d e (resolve d e)
  | .application p (.name n) params => by
    rw [resolve_name]
    exact h.applied (arguments d params) p n
  | .application p (.type e) [] => by
    rw [resolve_grouped]
    exact h.grouped (resolve d e) p
  | .application p (.value v) [] => by
    rw [resolve_literal]
    exact h.literal d p v
  | .application p (.value _) (_ :: _) | .application p (.type _) (_ :: _) => by
    rw [resolve_of_params]
    · exact h.headed (by simp) (by simp) d p
    all_goals simp
  | .body (.mk p body) => by
    rw [resolve_body]
    exact h.inline (fun id => declareAll id body) d p

theorem resolveArg (d : ScopeId) : ∀ a : TypeArg, OfArg d a (resolveArg d a)
  | .name n => by
    rw [resolveArg_name]
    exact h.nameArg d n
  | .value v => by
    rw [resolveArg_literal]
    exact h.literalArg d v
  | .type e => by
    rw [resolveArg_type]
    exact h.typeArg (resolve d e)

theorem arguments (d : ScopeId) : ∀ as : List TypeArg, OfArgs d as (arguments d as)
  | [] => by
    rw [arguments_nil]
    exact h.noArgs d
  | a :: as => by
    rw [arguments_cons]
    exact h.moreArgs (resolveArg d a) (arguments d as)

theorem declare (d : ScopeId) : ∀ st : Statement, OfStatement d st (declare d st)
  | .space p name none => by
    rw [declare_space]
    exact h.space (o := none) h.empty d p name
  | .space p name (some (.mk _ body)) => by
    rw [declare_space]
    exact h.space (o := some (.mk _ body)) (fun id => declareAll id body) d p name
  | .type p name none => by
    rw [declare_struct d p name rfl]
    exact h.struct rfl h.empty d p name
  | .type p name (some (.body (.mk _ body))) => by
    rw [declare_struct d p name rfl]
    exact h.struct rfl (fun id => declareAll id body) d p name
  | .type p name (some (.application q head params)) => by
    rw [declare_synonym d p name rfl]
    exact h.synonym rfl (resolve d (.application q head params)) p name
  | .variant p name none => by
    rw [declare_variant]
    exact h.variant (o := none) h.empty d p name
  | .variant p name (some (.mk _ body)) => by
    rw [declare_variant]
    exact h.variant (o := some (.mk _ body)) (fun id => declareAll id body) d p name
  | .constraint p left right => by
    rw [declare_constraint]
    exact h.constraint d p left right
  | .fields p names e => by
    rw [declare_fields]
    exact h.fields (resolve d e) p names

theorem declareAll (d : ScopeId) : ∀ body : List Statement, OfBody d body (declareAll d body)
  | [] => h.empty d
  | st :: body => by
    rw [declareAll_cons]
    exact h.cons (declare d st) (declareAll d body)

end

end Cases

end Compilation

end PacketSchema
