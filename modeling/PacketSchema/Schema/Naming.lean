import PacketSchema.Schema.Lookup

/-! The name of a type as a reader would write it. A struct without any name goes by the number of
its scope. The element of an applied type is older than the type itself. -/

namespace PacketSchema.Schema

def structName (s : Schema) (id : ScopeId) : String :=
  match s.qualifiedName id with
  | [] => s!"<struct #{id.index}>"
  | path => path.text

/-- Applied types rank by age, above all other types. -/
def rank : TypeRef → Nat
  | .builtin _ | .struct _ => 0
  | .param id => id.index + 1

def typeName (s : Schema) (type : TypeRef) : String :=
  match type with
  | .builtin b => b.name
  | .struct id => s.structName id
  | .param id =>
    match s.param? id with
    | none => ""
    | some (.string length encoding) => s!"string {length.name} {encoding.name}"
    | some (.bytes length) => s!"bytes {length.name}"
    | some (.uuid encoding) => s!"uuid {encoding.name}"
    | some (.array length elem) =>
      let name := if rank elem < rank (.param id) then s.typeName elem else ""
      s!"array {length.name} ({name})"
    | some (.boolOptional elem) =>
      let name := if rank elem < rank (.param id) then s.typeName elem else ""
      s!"bool_optional ({name})"
termination_by rank type

end PacketSchema.Schema
