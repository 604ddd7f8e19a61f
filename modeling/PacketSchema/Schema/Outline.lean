import PacketSchema.Schema.Naming

/-! Schemas as an outline, one line for each thing that they hold. A struct is spelled out where it
is bound to its own name, and is an alias under any other name; a variant is spelled out below the
struct that it branches from. -/

namespace PacketSchema

def ScopeKind.word : ScopeKind → String
  | space => "namespace"
  | struct _ => "struct"
  | variant _ _ _ => "variant"
  | proxy _ _ => "proxy"

namespace Outline

inductive Line where
  | scope (depth : Nat) (id : ScopeId) (word name : String)
  | field (depth : Nat) (name type : String)
  | constraint (depth : Nat) (name : String) (value : Literal)
  | typeAlias (depth : Nat) (name type : String)
deriving DecidableEq, Repr

namespace Line

def depth : Line → Nat
  | scope depth _ _ _ | field depth _ _ | constraint depth _ _ | typeAlias depth _ _ => depth

def words : Line → String
  | scope _ _ word name => s!"{word} {name}"
  | field _ name t => s!"field {name}: {t}"
  | constraint _ name value => s!"constraint {name} = {value.display}"
  | typeAlias _ name t => s!"type {name} = {t}"

/-- Two spaces for each level of depth. -/
def text (l : Line) : String := .ofList (List.replicate (2 * l.depth) ' ') ++ l.words ++ "\n"

end Line

def layoutLines (s : Schema) (depth : Nat) (l : Layout) : List Line :=
  (l.fields.entries.map fun (name, field) => .field depth name (s.typeName field.type)) ++
    l.constraints.entries.map fun (name, value) => .constraint depth name value

/-- The lines for a bound name, where a scope that is spelled out is left to the argument. -/
def itemLines (s : Schema) (spell : ScopeId → String → List Line) (depth : Nat) (name : String) :
    Item → List Line
  | .space id => spell id name
  | .type t =>
    match t with
    | .struct id =>
      match s.scope? id with
      | none => []
      | some scope =>
        if scope.name = some name then
          if scope.kind.path?.isNone then spell id name else []
        else [.typeAlias depth name (s.typeName t)]
    | _ => [.typeAlias depth name (s.typeName t)]

def nameLines (s : Schema) (spell : ScopeId → String → List Line) (depth : Nat) (scope : Scope) :
    List Line :=
  scope.names.entries.flatMap fun (name, item) => itemLines s spell depth name item

def branchLines (spell : ScopeId → String → List Line) (l : Layout) : List Line :=
  l.order.flatMap fun
    | .branch path id => spell id path.text
    | .field _ | .constraint _ _ => []

/-- A scope and everything below it, down to a number of levels. -/
def scopeLines (s : Schema) : (levels : Nat) → (depth : Nat) → ScopeId → String → List Line
  | 0, _, _, _ => []
  | levels + 1, depth, id, name =>
    match s.scope? id with
    | none => []
    | some scope =>
      let spell := scopeLines s levels (depth + 1)
      .scope depth id scope.kind.word name ::
        ((scope.layout?.map (layoutLines s (depth + 1))).getD [] ++
          nameLines s spell (depth + 1) scope ++
          (scope.layout?.map (branchLines spell)).getD [])

def text (lines : List Line) : String := String.join (lines.map Line.text)

end Outline

namespace Schema

open Outline

/-- No scope lies below itself, so there are at most as many levels as scopes. -/
def outline (s : Schema) : List Line :=
  ((s.scope? root).map (nameLines s (scopeLines s s.scopes.length 0) 0)).getD []

def outlineOf (s : Schema) (id : ScopeId) : List Line :=
  scopeLines s s.scopes.length 0 id (((s.scope? id).bind Scope.name).getD "_")

end Schema

end PacketSchema
