import PacketSchema.Compilation.Resolution

/-! Schemas from source texts and from files. The path of a file is the name of its source. -/

namespace PacketSchema

namespace Compilation

variable {m : Type → Type} [Monad m] [MonadStateOf Compilation m] [MonadExceptOf SchemaError m]

def addTexts : List (String × String) → m Unit
  | [] => pure ()
  | (source, text) :: rest => do
    addText source text
    addTexts rest

def addSources (sources : List (String × String)) : Build Unit := addTexts sources

end Compilation

namespace Schema

/-- Compiles named sources in turn into one schema. -/
def ofSources (options : Options) (sources : List (String × String)) :
    Except SchemaError Schema :=
  match (Compilation.addSources sources).run (.start options) with
  | (.ok (), c) => .ok c.schema
  | (.error e, _) => .error e

def ofText (source text : String) : Except SchemaError Schema := ofSources {} [(source, text)]

def ofFile {m : Type → Type} [Monad m] (access : FileAccess m) (path : String) :
    m (Except SchemaError Schema) := do
  match ← access.readText path with
  | .ok text => return ofText path text
  | .error cause => return .error (.unreadable path cause)

end Schema

end PacketSchema
