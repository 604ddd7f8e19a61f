/-! Texts as lists of characters: trimming, cutting into pieces and joining the pieces again. White
space is what has the Unicode property White_Space. -/

namespace PacketSchema

namespace Text

/-! ## White space -/

/-- Inclusive ranges of code points. -/
abbrev Ranges := List (Nat × Nat)

def Ranges.covers (ranges : Ranges) (c : Char) : Bool :=
  ranges.any fun range => decide (range.1 ≤ c.toNat) && decide (c.toNat ≤ range.2)

def blankRanges : Ranges :=
  [(0x09, 0x0d), (0x20, 0x20), (0x85, 0x85), (0xa0, 0xa0), (0x1680, 0x1680),
    (0x2000, 0x200a), (0x2028, 0x2029), (0x202f, 0x202f), (0x205f, 0x205f), (0x3000, 0x3000)]

def isBlank (c : Char) : Bool := blankRanges.covers c

def trimStart (cs : List Char) : List Char := cs.dropWhile isBlank

def trimEnd (cs : List Char) : List Char := (cs.reverse.dropWhile isBlank).reverse

def trim (cs : List Char) : List Char := trimEnd (trimStart cs)

/-- The length of a text in the UTF-8 encoding. -/
def utf8Length (cs : List Char) : Nat := cs.foldr (fun c n => c.utf8Size + n) 0

/-! ## Pieces -/

/-- Cuts a text at every occurrence of a separator. The empty text is one empty piece. -/
def splitAll (separator : Char) : List Char → List (List Char)
  | [] => [[]]
  | c :: cs =>
    if c = separator then [] :: splitAll separator cs
    else
      match splitAll separator cs with
      | [] => [[c]]
      | piece :: others => (c :: piece) :: others

def join (separator : Char) (pieces : List (List Char)) : List Char :=
  List.intercalate [separator] pieces

/-- The lines of a text. A line ends at a line feed, and a carriage return right before that line
feed belongs to the ending. A text that ends with a line feed has no empty line after it; a last
line without a line feed keeps all its characters. -/
def lines : List Char → List (List Char)
  | [] => []
  | '\n' :: rest => [] :: lines rest
  | '\r' :: '\n' :: rest => [] :: lines rest
  | c :: rest =>
    match lines rest with
    | [] => [[c]]
    | line :: others => (c :: line) :: others

def unlines (ls : List (List Char)) : List Char := join '\n' ls ++ ['\n']

end Text

/-! ## Paths -/

/-- A dotted path of names. Its text has a dot between neighbouring names, so a text is read as a
path by cutting it at every dot. -/
abbrev Path := List String

namespace Path

def text (p : Path) : String := .ofList (Text.join '.' (p.map String.toList))

def ofText (s : String) : Path := (Text.splitAll '.' s.toList).map .ofList

end Path

end PacketSchema
