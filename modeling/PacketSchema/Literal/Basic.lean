import PacketSchema.Text.Quoted

/-! Literal values. A number is a signed integer of 64 bits; the range is checked where a number is
read, so the values themselves are plain integers. -/

namespace PacketSchema

inductive Literal where
  | number (value : Int)
  | text (value : String)
deriving DecidableEq, Repr

namespace Literal

def minNumber : Int := -0x8000000000000000

def maxNumber : Int := 0x7fffffffffffffff

def InRange (n : Int) : Prop := minNumber ≤ n ∧ n ≤ maxNumber

instance (n : Int) : Decidable (InRange n) := inferInstanceAs (Decidable (_ ∧ _))

/-- A number in decimal, a text in double quotes. -/
def display : Literal → String
  | .number n => toString n
  | .text s => Text.quoted s

end Literal

end PacketSchema
