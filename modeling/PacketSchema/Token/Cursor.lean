import PacketSchema.Error
import PacketSchema.Token.Spot

/-! Reading a text token by token. A cursor looks at one token at a time, which is found only when
it is asked for and then stays current until it is consumed. A character that starts no token is
an error every time the cursor looks at it. -/

namespace PacketSchema

structure Cursor where
  source : String
  text : List Char
  /-- Behind the current token, if there is one. -/
  spot : Spot
  current : Option Token
deriving DecidableEq, Repr

namespace Cursor

def ofText (source text : String) : Cursor :=
  ⟨source, text.toList, ⟨.start, text.toList⟩, none⟩

/-- The position behind everything that has been looked at. -/
def here (c : Cursor) : Position := ⟨c.source, c.spot.place⟩

def restart (c : Cursor) : Cursor := { c with spot := ⟨.start, c.text⟩, current := none }

abbrev Reader := ExceptT SchemaError (StateM Cursor)

/-- The current token; none at the end of the text. -/
def peek : Reader (Option Token) := do
  let c ← get
  match c.current with
  | some t => return some t
  | none =>
    match c.spot.next c.source with
    | .token t after =>
      set { c with spot := after, current := some t }
      return some t
    | .finish spot =>
      set { c with spot := spot }
      return none
    | .unexpected ch spot =>
      set { c with spot := spot }
      throw (.lexical ⟨c.source, spot.place⟩ (.unexpected ch))

def drop : Reader Unit := modify fun c => { c with current := none }

def advance : Reader (Option Token) := do
  let t ← peek
  drop
  return t

/-- Advances, and gives up the rest of the text at an error. -/
def next : Reader (Option Token) :=
  tryCatch advance fun e => do
    modify fun c => { c with spot := { c.spot with rest := [] } }
    throw e

def position : Reader Position := do
  match ← peek with
  | some t => return t.position
  | none => return (← get).here

def test (p : Token → Bool) : Reader Bool := do return (← peek).any p

def isAt (text : String) : Reader Bool := test (·.is text)

def atKind (kind : TokenKind) : Reader Bool := test (·.kind == kind)

def atLiteral : Reader Bool := test (·.isLiteral)

def atEnd : Reader Bool := do return (← peek).isNone

/-- Consumes the current token if it is the one with this text outside quotes. -/
def accept (text : String) : Reader Bool := do
  if ← isAt text then
    drop
    return true
  else return false

def expect (text : String) : Reader Unit := do
  unless ← accept text do
    throw (.expected (← position) (.token text))

end Cursor

end PacketSchema
