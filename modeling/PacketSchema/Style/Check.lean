import PacketSchema.Style.Code
import PacketSchema.Style.Finding

/-! The style of a schema text: one tab for each level of depth and no spaces in front of a line, no
white space at its end, and one statement on it. Depth goes by the braces outside quotes and
comments; a line that starts with closing braces stands at the depth outside of them. -/

namespace PacketSchema.Style

open Text

def trailingBlankFindings (number : Nat) (line : List Char) : List Finding :=
  if line = trimEnd line then []
  else [⟨⟨number, utf8Length (trimEnd line) + 1⟩, .trailingBlank⟩]

def tabsOnlyFindings (number : Nat) (leading : List Char) : List Finding :=
  if leading.contains ' ' then [⟨⟨number, 1⟩, .tabsOnly⟩] else []

/-- Empty lines and lines that are all comment may stand at any depth. -/
def depthFindings (number : Nat) (depth : Int) (leading trimmed : List Char) : List Finding :=
  let expected := tabs depth (content trimmed)
  let found := leading.count '\t'
  if trimmed.isEmpty || trimmed.head? == some '#' || found == expected then []
  else [⟨⟨number, 1⟩, .depth expected found⟩]

def statementFindings (number : Nat) (content : List Char) : List Finding :=
  let semicolons := countCode content ';'
  if semicolons > 1 then [⟨⟨number, 1⟩, .oneStatement semicolons⟩] else []

def lineFindings (number : Nat) (depth : Int) (line : List Char) : List Finding :=
  let leading := line.takeWhile isBlank
  let trimmed := trimStart line
  trailingBlankFindings number line ++ tabsOnlyFindings number leading ++
    depthFindings number depth leading trimmed ++ statementFindings number (content trimmed)

/-- The findings of lines from this number and this depth on. The depth is not bounded: see
`braceBalance`. -/
def findingsFrom (number : Nat) (depth : Int) : List (List Char) → List Finding
  | [] => []
  | line :: rest =>
    lineFindings number depth line ++
      findingsFrom (number + 1) (depth + braceBalance (content (trimStart line))) rest

/-- The findings in the order of the lines. -/
def findings (text : String) : List Finding := findingsFrom 1 0 (lines text.toList)

/-- Lines with tabs by depth in front and no white space at the end. The depth is not bounded, as in
`findingsFrom`. -/
def indented (depth : Int) : List (List Char) → List (List Char)
  | [] => []
  | line :: rest =>
    let trimmed := trim line
    if trimmed.isEmpty then [] :: indented depth rest
    else
      (List.replicate (tabs depth (content trimmed)) '\t' ++ trimmed) ::
        indented (depth + braceBalance (content trimmed)) rest

/-- A text with its lines indented by depth. -/
def fixed (text : String) : String := .ofList (unlines (indented 0 (lines text.toList)))

end PacketSchema.Style
