import PacketSchema.Schema.Outline
import PacketSchema.Schema.Walk

/-! Reading a schema without any guard. The number of a scope or of an applied type is used as it
is, and what recurses along parents, elements and links goes on for as many rounds as it is given. A
number that is out of range has no result here, and neither has what needs more rounds. -/

namespace PacketSchema.Unguarded

open Schema Outline

/-- With enough rounds a reader comes to its result. -/
def Ends {α : Type} (read : Nat → Option α) (a : α) : Prop :=
  ∃ enough, ∀ rounds, enough ≤ rounds → read rounds = some a

/-! ## Scopes -/

def namesOwner (s : Schema) : (rounds : Nat) → ScopeId → Option ScopeId
  | 0, _ => none
  | rounds + 1, id => do
    let scope ← s.scope? id
    if scope.isProxy then
      match scope.parent with
      | some parent => namesOwner s rounds parent
      | none => return id
    else return id

def getLocal? (s : Schema) (rounds : Nat) (id : ScopeId) (name : String) :
    Option (Option Item) := do
  let scope ← s.scope? (← namesOwner s rounds id)
  return scope.names.find? name

def lookupLocal? (s : Schema) (rounds : Nat) (id : ScopeId) : Path → Option (Option Item)
  | [] => return none
  | [name] => getLocal? s rounds id name
  | name :: rest => do
    match (← getLocal? s rounds id name).bind Item.scope? with
    | some inner => lookupLocal? s rounds inner rest
    | none => return none

def lookup? (s : Schema) : (rounds : Nat) → ScopeId → Path → Option (Option Item)
  | 0, _, _ => none
  | rounds + 1, id, path => do
    match ← lookupLocal? s rounds id path with
    | some item => return some item
    | none =>
      match (← s.scope? id).parent with
      | some parent => lookup? s rounds parent path
      | none => return none

/-- The names of a scope and the scopes around it, in front of those that have been met. -/
def namesAround (s : Schema) : (rounds : Nat) → ScopeId → Path → Option Path
  | 0, _, _ => none
  | rounds + 1, id, inner => do
    let scope ← s.scope? id
    let names := scope.name.toList ++ inner
    match scope.parent with
    | some parent => namesAround s rounds parent names
    | none => return names

def qualifiedName (s : Schema) (rounds : Nat) (id : ScopeId) : Option Path :=
  namesAround s rounds id []

/-! ## Types -/

def structName (s : Schema) (rounds : Nat) (id : ScopeId) : Option String := do
  match ← qualifiedName s rounds id with
  | [] => return s!"<struct #{id.index}>"
  | path => return path.text

def typeName (s : Schema) : (rounds : Nat) → TypeRef → Option String
  | 0, _ => none
  | _ + 1, .builtin b => return b.name
  | rounds + 1, .struct id => structName s rounds id
  | rounds + 1, .param id => do
    match ← s.param? id with
    | .string length encoding => return s!"string {length.name} {encoding.name}"
    | .bytes length => return s!"bytes {length.name}"
    | .uuid encoding => return s!"uuid {encoding.name}"
    | .array length elem =>
      let name ← typeName s rounds elem
      return s!"array {length.name} ({name})"
    | .boolOptional elem =>
      let name ← typeName s rounds elem
      return s!"bool_optional ({name})"

/-! ## Walks -/

def links (s : Schema) : Node → Option (List Link)
  | .space _ => return [.names]
  | .type (.struct id) => do
    match (← s.scope? id).layout? with
    | none => return [.names]
    | some _ => return [.fields, .names, .branches]
  | .type (.param _) => return [.child "length", .child "elem"]
  | .type (.builtin _) => return []

def follow (s : Schema) (link : Link) : Node → Option (List (String × Node))
  | .space id | .type (.struct id) => do return followScope (← s.scope? id) link
  | .type (.param id) => do return followParam (← s.param? id) link
  | .type (.builtin _) => return []

def children (s : Schema) (n : Node) : Option (List (String × Node)) := do
  return (← (← links s n).mapM fun link => follow s link n).flatten

def run (s : Schema) : (rounds : Nat) → Walker → Option (List (List String × TypeRef))
  | 0, _ => none
  | rounds + 1, w => do
    match w.stack with
    | [] => return []
    | (path, n) :: rest =>
      if Walker.isNew w.visited n then
        let below ← children s n
        let fresh := below.filter fun child => Walker.isNew (n :: w.visited) child.2
        let later ← run s rounds
          ⟨fresh.map (fun child => (path ++ [child.1], child.2)) ++ rest, n :: w.visited⟩
        return (n.type?.map fun t => (path, t)).toList ++ later
      else run s rounds { w with stack := rest }

def walkFrom (s : Schema) (rounds : Nat) (n : Node) : Option (List (List String × TypeRef)) :=
  run s rounds (.start n)

/-! ## Outlines -/

def memberLines (s : Schema) (rounds depth : Nat) (l : Layout) : Option (List Line) := do
  let fields ← l.fields.entries.mapM fun entry => do
    return Line.field depth entry.1 (← typeName s rounds entry.2.type)
  return fields ++ l.constraints.entries.map fun (name, value) => .constraint depth name value

mutual

/-- The lines for the names that a scope binds. -/
def nameLines (s : Schema) : (rounds depth : Nat) → ScopeId → Option (List Line)
  | 0, _, _ => none
  | rounds + 1, depth, id => do
    let scope ← s.scope? id
    let lines ← scope.names.entries.mapM fun entry => do
      match entry.2 with
      | .space child => scopeLines s rounds depth child entry.1
      | .type (.struct child) =>
        let found ← s.scope? child
        if found.name = some entry.1 then
          if found.kind.path?.isNone then scopeLines s rounds depth child entry.1 else return []
        else return [.typeAlias depth entry.1 (← typeName s rounds (.struct child))]
      | .type t => return [.typeAlias depth entry.1 (← typeName s rounds t)]
    return lines.flatten

/-- A scope and everything below it. -/
def scopeLines (s : Schema) : (rounds depth : Nat) → ScopeId → String → Option (List Line)
  | 0, _, _, _ => none
  | rounds + 1, depth, id, name => do
    let scope ← s.scope? id
    let layout := scope.layout?.getD {}
    let members ← memberLines s rounds (depth + 1) layout
    let names ← nameLines s rounds (depth + 1) id
    let branches ← layout.order.mapM fun
      | .branch path child => scopeLines s rounds (depth + 1) child path.text
      | .field _ | .constraint _ _ => return []
    return .scope depth id scope.kind.word name :: (members ++ names ++ branches.flatten)

end

def outline (s : Schema) (rounds : Nat) : Option (List Line) := nameLines s rounds 0 root

def outlineOf (s : Schema) (rounds : Nat) (id : ScopeId) : Option (List Line) := do
  let scope ← s.scope? id
  scopeLines s rounds 0 id (scope.name.getD "_")

end PacketSchema.Unguarded
