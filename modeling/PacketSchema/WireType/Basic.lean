import PacketSchema.Schema.Table
import PacketSchema.WireType.Builtin

/-! Types as a compiled schema refers to them: builtins, structs by the number of their scope, and
builtins applied to arguments by their number in the cache of applied types. -/

namespace PacketSchema

structure ScopeId where
  index : Nat
deriving DecidableEq, Repr

structure ParamId where
  index : Nat
deriving DecidableEq, Repr

inductive TypeRef where
  | builtin (builtin : Builtin)
  | param (id : ParamId)
  | struct (id : ScopeId)
deriving DecidableEq, Repr

inductive Length where
  | fixed (count : Nat)
  | prefixed (builtin : Builtin)
  | remaining
deriving DecidableEq, Repr

def Length.name : Length → String
  | fixed count => toString count
  | prefixed builtin => builtin.name
  | remaining => "remaining"

inductive StringEncoding where
  | utf8
  | utf16
deriving DecidableEq, Repr

namespace StringEncoding

def name : StringEncoding → String
  | utf8 => "utf8"
  | utf16 => "utf16"

def ofName? (name : String) : Option StringEncoding :=
  if name = "utf8" then some utf8 else if name = "utf16" then some utf16 else none

end StringEncoding

inductive UuidEncoding where
  | binary
  | hex
  | hyphenated
deriving DecidableEq, Repr

namespace UuidEncoding

def name : UuidEncoding → String
  | binary => "binary"
  | hex => "hex"
  | hyphenated => "hyphenated"

/-- Two encodings have a second name. -/
def ofName? (name : String) : Option UuidEncoding :=
  if name = "binary" ∨ name = "bin" then some binary
  else if name = "hex" then some hex
  else if name = "hyphenated" ∨ name = "rfc" then some hyphenated
  else none

end UuidEncoding

/-- A builtin applied to its arguments. -/
inductive ParamType where
  | string (length : Length) (encoding : StringEncoding)
  | bytes (length : Length)
  | uuid (encoding : UuidEncoding)
  | array (length : Length) (elem : TypeRef)
  /-- At most one element, which a bool in front announces. -/
  | boolOptional (elem : TypeRef)
deriving DecidableEq, Repr

namespace ParamType

def constructor : ParamType → Builtin
  | string _ _ => .string
  | bytes _ => .bytes
  | uuid _ => .uuid
  | array _ _ => .array
  | boolOptional _ => .boolOptional

def length? : ParamType → Option Length
  | string length _ | bytes length | array length _ => some length
  | boolOptional _ => some (.prefixed .bool)
  | uuid _ => none

def elem? : ParamType → Option TypeRef
  | array _ elem | boolOptional elem => some elem
  | string _ _ | bytes _ | uuid _ => none

def encoding? : ParamType → Option String
  | string _ encoding => some encoding.name
  | uuid encoding => some encoding.name
  | bytes _ | array _ _ | boolOptional _ => none

end ParamType

/-- Applied types in the order of their numbers, each of them once, and an index that finds the
number of a type. -/
structure TypeCache where
  types : List ParamType := []
  index : Table ParamType ParamId := {}
deriving DecidableEq, Repr

namespace TypeCache

def size (c : TypeCache) : Nat := c.types.length

def get? (c : TypeCache) (id : ParamId) : Option ParamType := c.types[id.index]?

def find? (c : TypeCache) (t : ParamType) : Option ParamId := c.index.find? t

/-- The number of a type, a new one if the cache does not hold the type yet. -/
def intern (c : TypeCache) (t : ParamType) : ParamId × TypeCache :=
  match c.find? t with
  | some id => (id, c)
  | none => (⟨c.size⟩, ⟨c.types ++ [t], c.index.insert t ⟨c.size⟩⟩)

end TypeCache

end PacketSchema
