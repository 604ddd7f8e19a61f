import PacketSchema.Compilation.Event
import PacketSchema.Declaration.Basic
import PacketSchema.Error
import PacketSchema.Schema.Naming

/-! The state of a compilation and the single steps that change it. Each step leaves what it found
as it was when it fails. The steps are written for any monad that holds the state and can fail, of
which `Build` is the plain one. -/

namespace PacketSchema

structure Options where
  /-- A constraint's literal has to fit the type of its field. -/
  typedConstraints : Bool := true
  /-- Fields that come after a variant of their struct are warned about. -/
  lintLateFields : Bool := true
deriving DecidableEq, Repr

structure Compilation where
  options : Options
  schema : Schema
  /-- The scopes that a variant has taken fields from. -/
  snapshotted : List ScopeId
  log : List Event
deriving DecidableEq, Repr

namespace Compilation

def start (options : Options) : Compilation := ⟨options, .empty, [], []⟩

abbrev Build := ExceptT SchemaError (StateM Compilation)

variable {m : Type → Type} [Monad m] [MonadStateOf Compilation m] [MonadExceptOf SchemaError m]

def report (e : Event) : m Unit := modify fun c => { c with log := c.log ++ [e] }

def modifySchema (f : Schema → Schema) : m Unit :=
  modify fun c => { c with schema := f c.schema }

def addScope (scope : Scope) : m ScopeId := do
  let id := (← get).schema.nextId
  modifySchema (·.addScope scope)
  return id

def bind (dest : ScopeId) (name : String) (item : Item) : m Unit :=
  modifySchema (·.bind dest name item)

/-- The reference to an applied type. -/
def intern (t : ParamType) : m TypeRef := do
  let c ← get
  let (id, types) := c.schema.types.intern t
  report (if (c.schema.types.find? t).isSome then .cacheHit t id else .cacheMiss t id)
  modifySchema fun s => { s with types := types }
  return .param id

def refuseIf (p : Prop) [Decidable p] (e : SchemaError) : m Unit := if p then throw e else pure ()

def checkFree (dest : ScopeId) (name : Ident) : m Unit := do
  refuseIf ((← get).schema.getLocal? dest name.text).isSome
    (.duplicate name.position .name name.text)

/-- Where a variant belongs: the struct that it is a branch of, the scope whose fields it takes
over, and its path as a branch, which a proxy does not have. -/
structure Anchor where
  base : ScopeId
  source : ScopeId
  path : Option Path
deriving DecidableEq, Repr

/-- Climbs to the nearest struct or variant. The nearest proxy on the way is where fields come from,
and every namespace on the way adds its name to the path; a variant without a name cannot stand in
a namespace. -/
def climb (source : Option ScopeId) (path : Option Path) :
    List (ScopeId × Scope) → Option Anchor
  | [] => none
  | (id, scope) :: outer =>
    match scope.kind with
    | .struct _ | .variant _ _ _ => some ⟨id, source.getD id, path⟩
    | .proxy _ _ => climb (source.or (some id)) path outer
    | .space =>
      match scope.name, path with
      | some name, some path => climb source (some (name :: path)) outer
      | _, _ => none

def anchor (dest : ScopeId) (name : Option String) (position : Position) : m Anchor := do
  match climb none (name.map ([·])) ((← get).schema.chain dest) with
  | some a => return a
  | none => throw (.unresolvedBranch position (.noEnclosingStruct name))

/-- A variant without a path is a proxy. -/
def Anchor.kind (a : Anchor) (layout : Layout) : ScopeKind :=
  match a.path with
  | some path => .variant layout a.base path
  | none => .proxy layout a.base

/-- Marks the fields of a scope as taken over. -/
def takeSnapshot (source : ScopeId) : m Layout := do
  modify fun c => { c with snapshotted := source :: c.snapshotted }
  return (((← get).schema.layout? source).map Layout.snapshot).getD {}

def addBranch (base : ScopeId) (path : Path) (id : ScopeId) (position : Position) : m Unit := do
  match (← get).schema.layout? base with
  | none => throw (.unresolvedBranch position (.noBranches path))
  | some layout =>
    refuseIf (layout.branches.contains path) (.duplicate position .branch path.text)
    modifySchema (·.modifyLayout base (·.addBranch path id))

/-- Warns about a field that its struct gets too late for a variant. -/
def warnLate (dest : ScopeId) (name : Ident) : m Unit := do
  let finding : Finding :=
    ⟨name.position.place, .lateField name.text ((← get).schema.qualifiedName dest).text⟩
  report (.finding name.position finding)
  modifySchema (·.addWarning finding)

def addField (dest : ScopeId) (type : TypeRef) (name : Ident) : m Unit := do
  let c ← get
  match c.schema.layout? dest with
  | none => throw (.misplaced name.position .field)
  | some layout =>
    refuseIf (layout.fields.contains name.text) (.duplicate name.position .field name.text)
    modifySchema (·.modifyLayout dest (·.addField name.text ⟨type, name.position⟩))
    report (.field name.position name.text)
    if c.options.lintLateFields && c.snapshotted.contains dest then warnLate dest name
    else pure ()

/-- Whether a literal is a value of a type. -/
def literalFits (s : Schema) : TypeRef → Literal → Bool
  | .builtin b, .number n =>
    b.isFloat || b.intRange?.any fun range => decide (range.1 ≤ n ∧ n ≤ range.2)
  | .param id, .text _ => (s.param? id).any fun t => t.constructor == .string
  | _, _ => false

/-- Refuses a literal that does not fit the type of the field with its name. -/
def checkFits (layout : Layout) (position : Position) (name : String) (value : Literal) :
    m Unit := do
  let c ← get
  match layout.fields.find? name with
  | none => return
  | some field =>
    refuseIf (c.options.typedConstraints && !literalFits c.schema field.type value)
      (.constraintType position name value (c.schema.typeName field.type))

/-- Refuses a literal other than the one that the name already stands for. -/
def checkConsistent (layout : Layout) (position : Position) (name : String) (value : Literal) :
    m Unit := do
  match layout.constraints.find? name with
  | none => return
  | some existing =>
    refuseIf (existing ≠ value) (.inconsistentConstraint position name existing value)

def constrainedName : Operand → m String
  | .name ⟨name, []⟩ => return name.text
  | other => throw (.expected other.position .constrainedName)

def constrainingLiteral : Operand → m Literal
  | .value v => return v.literal
  | other => throw (.expected other.position .constrainingLiteral)

def addConstraint (dest : ScopeId) (position : Position) (left right : Operand) : m Unit := do
  match (← get).schema.layout? dest with
  | none => throw (.misplaced position .constraint)
  | some layout =>
    let name ← constrainedName left
    let value ← constrainingLiteral right
    checkFits layout position name value
    checkConsistent layout position name value
    report (.constraint position name value)
    modifySchema (·.modifyLayout dest (·.addConstraint name value))

end Compilation

end PacketSchema
