import PacketSchema.Schema.Basic

/-! Finding what a name is bound to. A dotted path is looked up as a whole: in a scope it goes on
only within what its first names are bound to, and where it does not resolve it is tried again in
the scope around. -/

namespace PacketSchema.Schema

/-- A scope and the scopes around it, from the inside outwards. A scope is younger than the one
that it stands in. -/
def chain (s : Schema) (id : ScopeId) : List (ScopeId × Scope) :=
  match s.scope? id with
  | none => []
  | some scope =>
    (id, scope) ::
      match scope.parent with
      | none => []
      | some parent => if parent.index < id.index then s.chain parent else []
termination_by id.index

/-- The scope that binds the names declared in a scope: the nearest one that is no proxy. -/
def namesOwner (s : Schema) (id : ScopeId) : ScopeId :=
  (((s.chain id).find? fun link => !link.2.isProxy).map Prod.fst).getD id

def names (s : Schema) (id : ScopeId) : Table String Item :=
  ((s.scope? (s.namesOwner id)).map Scope.names).getD {}

def getLocal? (s : Schema) (id : ScopeId) (name : String) : Option Item := (s.names id).find? name

def bind (s : Schema) (id : ScopeId) (name : String) (item : Item) : Schema :=
  s.modifyScope (s.namesOwner id) fun scope => { scope with names := scope.names.insert name item }

/-- Looks a path up within a scope. -/
def lookupLocal? (s : Schema) (id : ScopeId) : Path → Option Item
  | [] => none
  | [name] => s.getLocal? id name
  | name :: rest =>
    ((s.getLocal? id name).bind Item.scope?).bind fun inner => s.lookupLocal? inner rest

/-- Looks a path up in the nearest scope in which all of it resolves. -/
def lookup? (s : Schema) (id : ScopeId) (path : Path) : Option Item :=
  (s.chain id).findSome? fun link => s.lookupLocal? link.1 path

def get? (s : Schema) (path : Path) : Option Item := s.lookupLocal? root path

def getStruct? (s : Schema) (path : Path) : Option ScopeId :=
  match s.get? path with
  | some (.type (.struct id)) => some id
  | _ => none

/-- The names of a scope and the scopes around it, from the root on. Nameless scopes leave no
trace. -/
def qualifiedName (s : Schema) (id : ScopeId) : Path :=
  ((s.chain id).filterMap fun link => link.2.name).reverse

end PacketSchema.Schema
