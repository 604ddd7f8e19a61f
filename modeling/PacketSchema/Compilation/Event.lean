import PacketSchema.Schema.Basic

/-! What a compilation reports on its way, and the text of each report. -/

namespace PacketSchema

inductive Level where
  | debug
  | trace
  | warn
deriving DecidableEq, Repr

inductive Event where
  | source (name : String)
  | space (position : Position) (name : String)
  | type (position : Position) (name : String)
  /-- A variant without a path is a proxy. -/
  | variant (position : Position) (path : Option Path) (base : Path)
  | field (position : Position) (name : String)
  | constraint (position : Position) (name : String) (value : Literal)
  | cacheHit (type : ParamType) (id : ParamId)
  | cacheMiss (type : ParamType) (id : ParamId)
  | finding (position : Position) (finding : Finding)
deriving DecidableEq, Repr

/-- The name of a builtin with a capital at every word. -/
def Builtin.title : Builtin → String
  | bool => "Bool"
  | varint => "Varint"
  | varlong => "Varlong"
  | byte => "Byte"
  | ubyte => "UByte"
  | short => "Short"
  | ushort => "UShort"
  | int => "Int"
  | uint => "UInt"
  | long => "Long"
  | ulong => "ULong"
  | float => "Float"
  | double => "Double"
  | position => "Position"
  | angle => "Angle"
  | metadata => "Metadata"
  | nbt => "Nbt"
  | slot => "Slot"
  | string => "String"
  | bytes => "Bytes"
  | uuid => "Uuid"
  | array => "Array"
  | boolOptional => "BoolOptional"

def ParamId.report (id : ParamId) : String := s!"ParamId({id.index})"

def TypeRef.report : TypeRef → String
  | builtin b => s!"Builtin({b.title})"
  | param id => s!"Param({id.report})"
  | struct id => s!"Struct(ScopeId({id.index}))"

def Length.report : Length → String
  | fixed count => s!"Fixed({count})"
  | prefixed b => s!"Prefixed({b.title})"
  | remaining => "Remaining"

def StringEncoding.report : StringEncoding → String
  | utf8 => "Utf8"
  | utf16 => "Utf16"

def UuidEncoding.report : UuidEncoding → String
  | binary => "Binary"
  | hex => "Hex"
  | hyphenated => "Hyphenated"

namespace ParamType

def arguments : ParamType → List (String × String)
  | string length encoding => [("length", length.report), ("encoding", encoding.report)]
  | bytes length => [("length", length.report)]
  | uuid encoding => [("encoding", encoding.report)]
  | array length elem => [("length", length.report), ("elem", elem.report)]
  | boolOptional elem => [("elem", elem.report)]

/-- The constructor and its arguments by name. -/
def report (t : ParamType) : String :=
  let inner := ", ".intercalate (t.arguments.map fun (name, value) => s!"{name}: {value}")
  t.constructor.title ++ " \x7b " ++ inner ++ " \x7d"

end ParamType

namespace Event

def level : Event → Level
  | source _ | space _ _ | type _ _ | variant _ _ _ | field _ _ | constraint _ _ _ => .debug
  | cacheHit _ _ | cacheMiss _ _ => .trace
  | finding _ _ => .warn

def text : Event → String
  | source name => s!"compiling {name}"
  | space p name => s!"{p.text}: namespace {name}"
  | type p name => s!"{p.text}: type {name}"
  | variant p (some path) base => s!"{p.text}: variant {path.text} of {base.text}"
  | variant p none base => s!"{p.text}: variant <proxy> of {base.text}"
  | field p name => s!"{p.text}: field {name}"
  | constraint p name value => s!"{p.text}: constraint {name} = {value.display}"
  | cacheHit t id => s!"type cache hit: {t.report} -> {id.report}"
  | cacheMiss t id => s!"type cache miss: {t.report} -> {id.report}"
  | finding p f => s!"{p.text}: {f.message}"

end Event

end PacketSchema
