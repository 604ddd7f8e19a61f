import PacketSchema.Text.Basic
import PacketSchema.Token.Lexeme

/-! The code in one line: what is neither between quotes nor in a comment. A quote that is not closed
reaches to the end of the line. -/

namespace PacketSchema.Style

open Lexeme (isQuote)

/-- Where a character stands with respect to quotes. -/
inductive Quoting where
  | outside
  | inside (quote : Char)
  | escaped (quote : Char)
deriving DecidableEq, Repr

namespace Quoting

/-- Where the character behind stands. -/
def next : Quoting → Char → Quoting
  | outside, c => if isQuote c then inside c else outside
  | inside quote, c =>
    if c = '\\' then escaped quote else if c = quote then outside else inside quote
  | escaped quote, _ => inside quote

def isCode (q : Quoting) (c : Char) : Bool := q == outside && !isQuote c

end Quoting

/-- The characters outside quotes, without the quotes. -/
def codeFrom : Quoting → List Char → List Char
  | _, [] => []
  | q, c :: cs => if q.isCode c then c :: codeFrom (q.next c) cs else codeFrom (q.next c) cs

/-- What stands before the first number sign outside quotes, if there is one. -/
def beforeComment? : Quoting → List Char → Option (List Char)
  | _, [] => none
  | q, c :: cs =>
    if q.isCode c && c == '#' then some [] else (beforeComment? (q.next c) cs).map (c :: ·)

/-- A line without its comment and the white space in front of that. -/
def content (line : List Char) : List Char :=
  match beforeComment? .outside line with
  | some front => Text.trimEnd front
  | none => line

def countCode (cs : List Char) (c : Char) : Nat := (codeFrom .outside cs).count c

/-- How much deeper the next line stands. Depths are plain integers. A brace changes the depth by
one, so a counter of 32 bits holds all depths of a text of fewer than 2 ^ 31 characters, and the
differences of `tabs` too; on longer texts such a counter could overflow. -/
def braceBalance (cs : List Char) : Int := (countCode cs '{' : Int) - countCode cs '}'

/-- The closing braces that a line starts with. -/
def leadingClosers (cs : List Char) : Nat :=
  (cs.takeWhile fun c => c == '}' || Text.isBlank c).count '}'

/-- The tabs that belong in front of a line. The closing braces are part of the text, so the
difference is bounded by its length as the depth is. -/
def tabs (depth : Int) (content : List Char) : Nat := (depth - leadingClosers content).toNat

end PacketSchema.Style
