import PacketSchema.Compilation.Basic
import PacketSchema.Declaration.Reading

/-! Compiling declarations into a scope, in the order of the text. A name is bound only when what it
stands for is complete, so nothing can refer to itself. Type names mean builtins first, and
otherwise what they are bound to around the place where they stand. -/

namespace PacketSchema.Compilation

/-- An argument of a type application and the way to the type that it denotes. -/
structure Argument (m : Type → Type) where
  arg : TypeArg
  resolve : m TypeRef

def Argument.position {m : Type → Type} (a : Argument m) : Position := a.arg.position

variable {m : Type → Type} [Monad m] [MonadStateOf Compilation m] [MonadExceptOf SchemaError m]

namespace Argument

/-- A length that is given by the integer type of a count in front. -/
def prefixedLength (a : Argument m) (owner : Builtin) : m Length := do
  match ← a.resolve with
  | .builtin b =>
    if b.isInteger then return .prefixed b
    else throw (.badArguments a.position owner.name .lengthExpected)
  | _ => throw (.badArguments a.position owner.name .lengthExpected)

/-- A count, an integer type, or for bytes the word for everything that is left. -/
def length (a : Argument m) (owner : Builtin) : m Length := do
  match a.arg with
  | .value ⟨.number n, _, p⟩ =>
    if 0 ≤ n then return .fixed n.toNat
    else throw (.badArguments p owner.name (.negativeLength n))
  | .value ⟨.text _, _, p⟩ => throw (.badArguments p owner.name .lengthExpected)
  | .name name =>
    if name.text = Length.remaining.name then
      if owner = .bytes then return .remaining
      else throw (.badArguments name.position owner.name .remainingOutsideBytes)
    else a.prefixedLength owner
  | .type _ => a.prefixedLength owner

/-- A single word, as a name or in quotes. -/
def word (a : Argument m) (owner : Builtin) : m String := do
  match a.arg with
  | .name ⟨name, []⟩ => return name.text
  | .value ⟨.text s, _, _⟩ => return .ofList (s.toList.map Char.toLower)
  | _ => throw (.badArguments a.position owner.name .encodingExpected)

def encoding {α : Type} (a : Argument m) (owner : Builtin) (ofName? : String → Option α) :
    m α := do
  let word ← a.word owner
  match ofName? word with
  | some e => return e
  | none => throw (.badArguments a.position owner.name (.unknownEncoding word))

end Argument

/-- The applied type that a builtin forms from arguments, if it takes as many. -/
def paramType? (b : Builtin) : List (Argument m) → Option (m ParamType)
  | [] =>
    match b with
    | .string => some (return .string (.prefixed .varint) .utf8)
    | .bytes => some (return .bytes (.prefixed .varint))
    | .uuid => some (return .uuid .binary)
    | _ => none
  | [a] =>
    match b with
    | .string => some do return .string (← a.length b) .utf8
    | .bytes => some do return .bytes (← a.length b)
    | .uuid => some do return .uuid (← a.encoding b UuidEncoding.ofName?)
    | .boolOptional => some do return .boolOptional (← a.resolve)
    | _ => none
  | [l, e] =>
    match b with
    | .string => some do return .string (← l.length b) (← e.encoding b StringEncoding.ofName?)
    | .array => some do return .array (← l.length b) (← e.resolve)
    | _ => none
  | _ => none

/-- Applies a builtin to arguments. -/
def apply (b : Builtin) (position : Position) (args : List (Argument m)) : m TypeRef := do
  match paramType? b args with
  | some t => intern (← t)
  | none =>
    if b.isParameterized || !args.isEmpty then throw (.badArguments position b.name (.usage b))
    else return .builtin b

def resolveName (dest : ScopeId) (name : Name) (position : Position) (args : List (Argument m)) :
    m TypeRef := do
  match Builtin.ofName? name.text with
  | some b => apply b position args
  | none =>
    match ((← get).schema.lookup? dest name.path).bind Item.type? with
    | some t =>
      if args.isEmpty then return t
      else throw (.badArguments position name.text .userType)
    | none => throw (.unknownType name.position name.text)

/-- Compiles the inside of a new scope. -/
def addScopeWith (scope : Scope) (inside : ScopeId → m Unit) : m ScopeId := do
  let id ← addScope scope
  inside id
  return id

def addStruct (dest : ScopeId) (name : Option String) (position : Position)
    (inside : ScopeId → m Unit) : m TypeRef := do
  let id ← addScopeWith ⟨name, some dest, some position, .struct {}, {}⟩ inside
  return .struct id

def addSpace (dest : ScopeId) (name : Ident) (position : Position)
    (inside : ScopeId → m Unit) : m Unit := do
  checkFree dest name
  report (.space position name.text)
  let id ← addScopeWith ⟨some name.text, some dest, some position, .space, {}⟩ inside
  bind dest name.text (.space id)

def addType (dest : ScopeId) (name : Ident) (position : Position) (resolve : m TypeRef) :
    m Unit := do
  checkFree dest name
  report (.type position name.text)
  let t ← resolve
  bind dest name.text (.type t)

def addVariant (dest : ScopeId) (name : Option Ident) (position : Position)
    (inside : ScopeId → m Unit) : m Unit := do
  name.forM (checkFree dest)
  let text := name.map Ident.text
  let anchor ← anchor dest text position
  let layout ← takeSnapshot anchor.source
  report (.variant position anchor.path ((← get).schema.qualifiedName anchor.base))
  let id ← addScopeWith ⟨text, some dest, some position, anchor.kind layout, {}⟩ inside
  match text, anchor.path with
  | some text, some path =>
    bind dest text (.type (.struct id))
    addBranch anchor.base path id position
  | _, _ => pure ()

mutual

def resolve (dest : ScopeId) : TypeExpr → m TypeRef
  | .application position (.name name) params =>
    resolveName dest name position (arguments dest params)
  | .application _ (.value v) [] => throw (.expected v.position .type)
  | .application _ (.type e) [] => resolve dest e
  | .application _ head (_ :: _) => throw (.expected head.position .typeNameBeforeArguments)
  | .body (.mk position statements) =>
    addStruct dest none position fun id => declareAll id statements

def resolveArg (dest : ScopeId) : TypeArg → m TypeRef
  | .name name => resolveName dest name name.position []
  | .value v => throw (.expected v.position .type)
  | .type e => resolve dest e

def arguments (dest : ScopeId) : List TypeArg → List (Argument m)
  | [] => []
  | a :: rest => ⟨a, resolveArg dest a⟩ :: arguments dest rest

def declare (dest : ScopeId) : Statement → m Unit
  | .space position name none => addSpace dest name position fun _ => pure ()
  | .space position name (some (.mk _ statements)) =>
    addSpace dest name position fun id => declareAll id statements
  | .type position name none =>
    addType dest name position (addStruct dest (some name.text) position fun _ => pure ())
  | .type position name (some (.body (.mk _ statements))) =>
    addType dest name position
      (addStruct dest (some name.text) position fun id => declareAll id statements)
  | .type position name (some (.application p head params)) =>
    addType dest name position (resolve dest (.application p head params))
  | .variant position name none => addVariant dest name position fun _ => pure ()
  | .variant position name (some (.mk _ statements)) =>
    addVariant dest name position fun id => declareAll id statements
  | .constraint position left right => addConstraint dest position left right
  | .fields _ names type => do
    let t ← resolve dest type
    names.forM (addField dest t)

def declareAll (dest : ScopeId) : List Statement → m Unit
  | [] => pure ()
  | s :: rest => do
    declare dest s
    declareAll dest rest

end

/-- Compiles a source text into the root namespace. -/
def addText (source text : String) : m Unit := do
  report (.source source)
  match Body.ofText source text with
  | .ok body => declareAll Schema.root body.statements
  | .error e => throw e

def addSource (source text : String) : Build Unit := addText source text

end PacketSchema.Compilation
