import PacketSchema.Error
import PacketSchema.Literal.Radix
import PacketSchema.Token.Basic

/-! The values of number and string tokens. -/

namespace PacketSchema.Literal

/-- Digits with at most one sign of their own. -/
def signed? (r : Radix) : List Char → Option Int
  | '+' :: digits => (r.value? digits).map Int.ofNat
  | '-' :: digits => (r.value? digits).map fun n => -Int.ofNat n
  | digits => (r.value? digits).map Int.ofNat

/-- The integer behind an optional minus sign, a radix mark and digits. The digits may carry one
more sign. -/
def integer? : List Char → Option Int
  | '-' :: cs => (signed? (Radix.split cs).1 (Radix.split cs).2).map Neg.neg
  | cs => signed? (Radix.split cs).1 (Radix.split cs).2

def number? (cs : List Char) : Option Int := (integer? cs).filter fun n => decide (InRange n)

def shortEscape? : Char → Option Char
  | 'n' => some '\n'
  | 't' => some '\t'
  | 'r' => some '\r'
  | '0' => some '\x00'
  | '\\' => some '\\'
  | '"' => some '"'
  | '\'' => some '\''
  | _ => none

/-- The character with the code that two hexadecimal digits give. A plus sign may stand in the
place of the first digit. -/
def hexPair? (a b : Char) : Option Char :=
  match if a = '+' then some 0 else Radix.hexadecimal.digit? a, Radix.hexadecimal.digit? b with
  | some high, some low => some (Char.ofNat (16 * high + low))
  | _, _ => none

/-- What the characters between the quotes of a string stand for. An escape that has no meaning is
kept as it is written. -/
def unescape : List Char → List Char
  | [] => []
  | '\\' :: 'x' :: a :: b :: rest =>
    match hexPair? a b with
    | some c => c :: unescape rest
    | none => '\\' :: 'x' :: unescape (a :: b :: rest)
  | '\\' :: c :: rest =>
    match shortEscape? c with
    | some d => d :: unescape rest
    | none => '\\' :: c :: unescape rest
  | c :: rest => c :: unescape rest

/-- The value of a string token, whose first and last characters are its quotes. -/
def unquote (token : List Char) : List Char := unescape (token.drop 1).dropLast

/-- The literal that a token of a given kind and text stands for. -/
def ofToken (kind : TokenKind) (text : String) (position : Position) :
    Except SchemaError Literal :=
  match kind with
  | .number =>
    match number? text.toList with
    | some n => .ok (.number n)
    | none => .error (.lexical position (.outOfRange text))
  | .string => .ok (.text (.ofList (unquote text.toList)))
  | _ => .error (.expected position .literal)

end PacketSchema.Literal
