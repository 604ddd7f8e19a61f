import PacketSchema.Files.Access
import PacketSchema.Schema.Table
import PacketSchema.Text.Basic

/-! One directory that holds nothing but plain files, as the working directory of a program. -/

namespace PacketSchema

structure Directory where
  files : Table String ByteArray

namespace Directory

/-- The greatest length of a part of a path, in bytes. -/
def maxPart : Nat := 255

/-- The greatest length of a path, in bytes. -/
def maxPath : Nat := 4095

/-- The file that the parts of a path, the texts between its slashes, lead to. Above the directory
only other directories are known. -/
def follow (d : Directory) (inside : Bool) : List String → Except ReadFailure String
  | [] => .error .isDirectory
  | part :: rest =>
    if part = "" ∨ part = "." then d.follow inside rest
    else if part = ".." then d.follow false rest
    else if part.utf8ByteSize > maxPart then .error .nameTooLong
    else if inside && d.files.contains part then
      if rest.isEmpty then .ok part else .error .notDirectory
    else .error .missing

/-- The file that a path names. -/
def resolve (d : Directory) (path : String) : Except ReadFailure String :=
  if path.toList.contains '\x00' then .error .nulInPath
  else if path = "" then .error .missing
  else if path.utf8ByteSize > maxPath then .error .nameTooLong
  else d.follow (path.toList.head? != some '/') ((Text.splitAll '/' path.toList).map .ofList)

def read (d : Directory) (path : String) : Except ReadFailure ByteArray := do
  match d.files.find? (← d.resolve path) with
  | some bytes => .ok bytes
  | none => .error .missing

/-- Replaces what the file that a path names holds. -/
def write (d : Directory) (path : String) (bytes : ByteArray) : Directory :=
  match d.resolve path with
  | .ok name => ⟨d.files.insert name bytes⟩
  | .error _ => d

def access : FileAccess (StateM Directory) where
  read path := do return (← get).read path
  write path bytes := modify (·.write path bytes)

end Directory

end PacketSchema
