import PacketSchema.Literal.Basic
import PacketSchema.Position
import PacketSchema.Text.Basic

/-! The declarations of a schema text, as they are written. Every node holds the position of its
first token. A space is a namespace. -/

namespace PacketSchema

structure Ident where
  text : String
  position : Position
deriving DecidableEq, Repr

/-- One or more identifiers with dots between them. -/
structure Name where
  head : Ident
  tail : List String
deriving DecidableEq, Repr

namespace Name

def path (n : Name) : Path := n.head.text :: n.tail

def text (n : Name) : String := n.path.text

def position (n : Name) : Position := n.head.position

def isLocal (n : Name) : Bool := n.tail.isEmpty

end Name

/-- A literal and the token that it was read from. -/
structure Value where
  literal : Literal
  token : String
  position : Position
deriving DecidableEq, Repr

/-- One side of a constraint. -/
inductive Operand where
  | name (name : Name)
  | value (value : Value)
deriving DecidableEq, Repr

def Operand.position : Operand → Position
  | name n => n.position
  | value v => v.position

mutual

inductive TypeArg where
  | name (name : Name)
  | value (value : Value)
  | type (expr : TypeExpr)

/-- A type name with its arguments, or the body of a struct. -/
inductive TypeExpr where
  | application (position : Position) (head : TypeArg) (params : List TypeArg)
  | body (body : Body)

inductive Body where
  | mk (position : Position) (statements : List Statement)

inductive Statement where
  | space (position : Position) (name : Ident) (body : Option Body)
  | type (position : Position) (name : Ident) (expr : Option TypeExpr)
  | variant (position : Position) (name : Option Ident) (body : Option Body)
  | constraint (position : Position) (left right : Operand)
  | fields (position : Position) (names : List Ident) (type : TypeExpr)

end

def Operand.toArg : Operand → TypeArg
  | name n => .name n
  | value v => .value v

def Body.position : Body → Position
  | mk p _ => p

def Body.statements : Body → List Statement
  | mk _ s => s

def TypeExpr.position : TypeExpr → Position
  | application p _ _ => p
  | body b => b.position

def TypeArg.position : TypeArg → Position
  | name n => n.position
  | value v => v.position
  | type e => e.position

def Statement.position : Statement → Position
  | space p _ _ | type p _ _ | variant p _ _ | constraint p _ _ | fields p _ _ => p

end PacketSchema
