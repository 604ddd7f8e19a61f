/-! The builtin types. The last five take arguments and stand in a schema only as applied types. -/

namespace PacketSchema

inductive Builtin where
  | bool
  | varint
  | varlong
  | byte
  | ubyte
  | short
  | ushort
  | int
  | uint
  | long
  | ulong
  | float
  | double
  | position
  | angle
  | metadata
  | nbt
  | slot
  | string
  | bytes
  | uuid
  | array
  | boolOptional
deriving DecidableEq, Repr

namespace Builtin

def all : List Builtin :=
  [bool, varint, varlong, byte, ubyte, short, ushort, int, uint, long, ulong, float, double,
    position, angle, metadata, nbt, slot, string, bytes, uuid, array, boolOptional]

def name : Builtin → String
  | bool => "bool"
  | varint => "varint"
  | varlong => "varlong"
  | byte => "byte"
  | ubyte => "ubyte"
  | short => "short"
  | ushort => "ushort"
  | int => "int"
  | uint => "uint"
  | long => "long"
  | ulong => "ulong"
  | float => "float"
  | double => "double"
  | position => "position"
  | angle => "angle"
  | metadata => "metadata"
  | nbt => "nbt"
  | slot => "slot"
  | string => "string"
  | bytes => "bytes"
  | uuid => "uuid"
  | array => "array"
  | boolOptional => "bool_optional"

def ofName? (name : String) : Option Builtin := all.find? fun b => b.name == name

def isFloat (b : Builtin) : Bool := b == float || b == double

def isParameterized (b : Builtin) : Bool :=
  [string, bytes, uuid, array, boolOptional].contains b

theorem isParameterized_eq_false_iff {b : Builtin} :
    b.isParameterized = false ↔ b ∉ [string, bytes, uuid, array, boolOptional] := by
  rw [isParameterized, List.contains_eq_mem, decide_eq_false_iff_not]

/-- The least and the greatest value an integer type carries. Literals have 64 bits with a sign, so
the upper half of the unsigned 64-bit range is out of reach. -/
def intRange? : Builtin → Option (Int × Int)
  | bool => some (0, 1)
  | byte => some (-0x80, 0x7f)
  | ubyte => some (0, 0xff)
  | short => some (-0x8000, 0x7fff)
  | ushort => some (0, 0xffff)
  | int | varint => some (-0x80000000, 0x7fffffff)
  | uint => some (0, 0xffffffff)
  | long | varlong => some (-0x8000000000000000, 0x7fffffffffffffff)
  | ulong => some (0, 0x7fffffffffffffff)
  | _ => none

def isInteger (b : Builtin) : Bool := b.intRange?.isSome

end Builtin

end PacketSchema
