import PacketSchema.Text.Shown

/-! Texts and characters in quotes. Tab, carriage return, line feed, NUL, the backslash and the
enclosing quote have short escapes; a character that is not shown is written by its code in
lower-case hexadecimal; every other character stands for itself. -/

namespace PacketSchema.Text

/-- The code of a character in lower-case hexadecimal without leading zeros. -/
def hexCode (c : Char) : List Char := Nat.toDigits 16 c.toNat

def escape (quote c : Char) : List Char :=
  if c = '\t' then ['\\', 't']
  else if c = '\r' then ['\\', 'r']
  else if c = '\n' then ['\\', 'n']
  else if c = '\x00' then ['\\', '0']
  else if c = '\\' then ['\\', '\\']
  else if c = quote then ['\\', quote]
  else if isShown c then [c]
  else ['\\', 'u', '{'] ++ hexCode c ++ ['}']

def quoteWith (quote : Char) (cs : List Char) : List Char :=
  quote :: cs.flatMap (escape quote) ++ [quote]

def quoted (s : String) : String := .ofList (quoteWith '"' s.toList)

def quotedChar (c : Char) : String := .ofList (quoteWith '\'' [c])

end PacketSchema.Text
