/-! The four ways to write the digits of a number: a zero and the letter x, o or b before
hexadecimal, octal or binary digits, and decimal digits without a mark. Letters count in both
cases. -/

namespace PacketSchema

inductive Radix where
  | hexadecimal
  | octal
  | binary
  | decimal
deriving DecidableEq, Repr

namespace Radix

def base : Radix → Nat
  | hexadecimal => 16
  | octal => 8
  | binary => 2
  | decimal => 10

def ofLetter? (c : Char) : Option Radix :=
  match c.toLower with
  | 'x' => some hexadecimal
  | 'o' => some octal
  | 'b' => some binary
  | _ => none

/-- The value of a digit or letter, in either case; none for other characters. -/
def digitValue? (c : Char) : Option Nat :=
  if c.isDigit then some (c.toNat - '0'.toNat)
  else if 'a' ≤ c ∧ c ≤ 'f' then some (c.toNat - 'a'.toNat + 10)
  else if 'A' ≤ c ∧ c ≤ 'F' then some (c.toNat - 'A'.toNat + 10)
  else none

def digit? (r : Radix) (c : Char) : Option Nat := (digitValue? c).filter (· < r.base)

def isDigit (r : Radix) (c : Char) : Bool := (r.digit? c).isSome

/-- The radix that a mark at the head announces, and what follows the mark. -/
def split : List Char → Radix × List Char
  | '0' :: letter :: rest =>
    match ofLetter? letter with
    | some r => (r, rest)
    | none => (decimal, '0' :: letter :: rest)
  | cs => (decimal, cs)

def foldDigits (r : Radix) : Nat → List Char → Option Nat
  | n, [] => some n
  | n, c :: cs => (r.digit? c).bind fun d => foldDigits r (n * r.base + d) cs

/-- The number that a nonempty run of digits stands for. -/
def value? (r : Radix) (digits : List Char) : Option Nat :=
  if digits.isEmpty then none else r.foldDigits 0 digits

end Radix

end PacketSchema
