import PacketSchema.CommandLine

/-! The program: the command line on the files and the streams of the system. -/

namespace PacketSchema.Program

/-- The number of a failure, which the system reports with either sign. -/
def number (code : UInt32) : UInt32 := if code < 0x80000000 then code else 0 - code

def failureOf : IO.Error → ReadFailure
  | .noFileOrDirectory _ _ _ => .missing
  | .inappropriateType _ code _ => if number code = 21 then .isDirectory else .notDirectory
  | e@(.invalidArgument _ code _) =>
    if number code = 36 then .nameTooLong else .other (toString e)
  | e => .other (toString e)

def files : FileAccess IO where
  read path := do
    try return .ok (← IO.FS.readBinFile path)
    catch e => return .error (failureOf e)
  write path bytes := IO.FS.writeBinFile path bytes

partial def readAll (stream : IO.FS.Stream) (bytes : ByteArray) : IO ByteArray := do
  let chunk ← stream.read 65536
  if chunk.isEmpty then return bytes else readAll stream (bytes ++ chunk)

def input : IO ByteArray := do readAll (← IO.getStdin) .empty

def run (args : List String) : IO CommandLine.Outcome := CommandLine.run files input args

end PacketSchema.Program

def main (args : List String) : IO UInt32 := do
  let outcome ← PacketSchema.Program.run args
  IO.print outcome.stdout
  IO.eprint outcome.stderr
  return outcome.exit.toUInt32
