import PacketSchema.Literal.Basic
import PacketSchema.Position
import PacketSchema.Schema.Table
import PacketSchema.Style.Finding
import PacketSchema.Text.Basic
import PacketSchema.WireType.Basic

/-! Compiled schemas. All scopes stand in one list and refer to each other by their numbers in it;
number 0 is the root namespace. A space is a namespace. A proxy groups variants without a name of
its own: it binds no names, and what is declared in it is bound in the scope around it. -/

namespace PacketSchema

/-- What a name is bound to. -/
inductive Item where
  | space (id : ScopeId)
  | type (type : TypeRef)
deriving DecidableEq, Repr

namespace Item

/-- The scope in which a dotted path goes on. -/
def scope? : Item → Option ScopeId
  | space id | type (.struct id) => some id
  | type _ => none

def type? : Item → Option TypeRef
  | space _ => none
  | type t => some t

end Item

structure Field where
  type : TypeRef
  position : Position
deriving DecidableEq, Repr

inductive Entry where
  | field (name : String)
  | constraint (name : String) (value : Literal)
  | branch (path : Path) (scope : ScopeId)
deriving DecidableEq, Repr

/-- What a struct, a variant or a proxy holds. The entries tell what it declares itself, in the
order of the text, while the tables also have what it took over. -/
structure Layout where
  fields : Table String Field := {}
  constraints : Table String Literal := {}
  branches : Table Path ScopeId := {}
  order : List Entry := []
deriving DecidableEq, Repr

namespace Layout

/-- What a variant takes over from the scope around it. -/
def snapshot (l : Layout) : Layout := { fields := l.fields, constraints := l.constraints }

def addField (l : Layout) (name : String) (field : Field) : Layout :=
  { l with fields := l.fields.insert name field, order := l.order ++ [.field name] }

def addConstraint (l : Layout) (name : String) (value : Literal) : Layout :=
  { l with
    constraints := l.constraints.insert name value
    order := l.order ++ [.constraint name value] }

def addBranch (l : Layout) (path : Path) (id : ScopeId) : Layout :=
  { l with branches := l.branches.insert path id, order := l.order ++ [.branch path id] }

end Layout

inductive ScopeKind where
  | space
  | struct (layout : Layout)
  | variant (layout : Layout) (base : ScopeId) (path : Path)
  | proxy (layout : Layout) (base : ScopeId)
deriving DecidableEq, Repr

namespace ScopeKind

def layout? : ScopeKind → Option Layout
  | space => none
  | struct layout | variant layout _ _ | proxy layout _ => some layout

def mapLayout (f : Layout → Layout) : ScopeKind → ScopeKind
  | space => space
  | struct layout => struct (f layout)
  | variant layout base path => variant (f layout) base path
  | proxy layout base => proxy (f layout) base

/-- The struct that a variant or a proxy branches from. -/
def base? : ScopeKind → Option ScopeId
  | space | struct _ => none
  | variant _ base _ | proxy _ base => some base

def path? : ScopeKind → Option Path
  | variant _ _ path => some path
  | space | struct _ | proxy _ _ => none

def isProxy : ScopeKind → Bool
  | proxy _ _ => true
  | space | struct _ | variant _ _ _ => false

end ScopeKind

structure Scope where
  name : Option String
  parent : Option ScopeId
  position : Option Position
  kind : ScopeKind
  names : Table String Item := {}
deriving DecidableEq, Repr

namespace Scope

def layout? (s : Scope) : Option Layout := s.kind.layout?

def isStruct (s : Scope) : Bool := s.layout?.isSome

def isProxy (s : Scope) : Bool := s.kind.isProxy

end Scope

structure Schema where
  scopes : List Scope
  types : TypeCache := {}
  warnings : List Finding := []
deriving DecidableEq, Repr

namespace Schema

def root : ScopeId := ⟨0⟩

def empty : Schema :=
  { scopes := [{ name := none, parent := none, position := none, kind := .space }] }

def scope? (s : Schema) (id : ScopeId) : Option Scope := s.scopes[id.index]?

def layout? (s : Schema) (id : ScopeId) : Option Layout := (s.scope? id).bind Scope.layout?

def param? (s : Schema) (id : ParamId) : Option ParamType := s.types.get? id

def nextId (s : Schema) : ScopeId := ⟨s.scopes.length⟩

def addScope (s : Schema) (scope : Scope) : Schema := { s with scopes := s.scopes ++ [scope] }

def modifyScope (s : Schema) (id : ScopeId) (f : Scope → Scope) : Schema :=
  { s with scopes := s.scopes.modify id.index f }

def modifyLayout (s : Schema) (id : ScopeId) (f : Layout → Layout) : Schema :=
  s.modifyScope id fun scope => { scope with kind := scope.kind.mapLayout f }

def addWarning (s : Schema) (f : Finding) : Schema := { s with warnings := s.warnings ++ [f] }

end Schema

end PacketSchema
