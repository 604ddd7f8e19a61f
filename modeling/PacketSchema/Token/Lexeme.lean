import PacketSchema.Literal.Radix
import PacketSchema.Token.Basic

/-! The shapes of tokens: how far the token at the head of a text reaches. Each shape is known from
its first character, and takes as many characters as it can. -/

namespace PacketSchema

/-- A token's characters and the text behind them. -/
structure Lexeme where
  kind : TokenKind
  chars : List Char
  rest : List Char
deriving DecidableEq, Repr

namespace Lexeme

def isSymbol (c : Char) : Bool := ['{', '}', '(', ')', ';', ':', ',', '=', '.'].contains c

def isIdentStart (c : Char) : Bool := c.isAlpha || c == '_'

def isIdentChar (c : Char) : Bool := c.isAlphanum || c == '_'

def isQuote (c : Char) : Bool := c == '"' || c == '\''

/-- The characters up to the closing quote and with it, and the text behind. A backslash takes the
character after it along; without a closing quote there is no string. -/
def splitQuoted (quote : Char) : List Char → Option (List Char × List Char)
  | [] => none
  | '\\' :: [] => none
  | '\\' :: c :: rest => (splitQuoted quote rest).map fun (body, rest) => ('\\' :: c :: body, rest)
  | c :: rest =>
    if c = quote then some ([c], rest)
    else (splitQuoted quote rest).map fun (body, rest) => (c :: body, rest)

/-- A nonempty run of digits in front of the text behind it. -/
def splitDigits (r : Radix) (cs : List Char) : Option (List Char × List Char) :=
  if (cs.takeWhile r.isDigit).isEmpty then none
  else some (cs.takeWhile r.isDigit, cs.dropWhile r.isDigit)

/-- Digits behind the mark of their radix. Where no digit of that radix follows the mark, the zero
of the mark is a decimal number of its own. -/
def splitUnsigned : List Char → Option (List Char × List Char)
  | '0' :: letter :: rest =>
    match (Radix.ofLetter? letter).bind (splitDigits · rest) with
    | some (digits, rest) => some ('0' :: letter :: digits, rest)
    | none => splitDigits .decimal ('0' :: letter :: rest)
  | cs => splitDigits .decimal cs

def splitNumber : List Char → Option (List Char × List Char)
  | '-' :: cs => (splitUnsigned cs).map fun (digits, rest) => ('-' :: digits, rest)
  | cs => splitUnsigned cs

def first? : List Char → Option Lexeme
  | [] => none
  | c :: rest =>
    if isSymbol c then some ⟨.symbol, [c], rest⟩
    else if isIdentStart c then
      some ⟨.ident, c :: rest.takeWhile isIdentChar, rest.dropWhile isIdentChar⟩
    else if isQuote c then
      (splitQuoted c rest).map fun (body, rest) => ⟨.string, c :: body, rest⟩
    else (splitNumber (c :: rest)).map fun (number, rest) => ⟨.number, number, rest⟩

private theorem split_of_map (front : List Char)
    {f : Option (List Char × List Char)} {chars rest cs : List Char}
    (h : f.map (fun (body, rest) => (front ++ body, rest)) = some (chars, rest))
    (hf : ∀ body, f = some (body, rest) → body ++ rest = cs ∧ body ≠ []) :
    chars ++ rest = front ++ cs ∧ chars ≠ [] := by
  obtain ⟨⟨body, r⟩, hb, heq⟩ := Option.map_eq_some_iff.1 h
  simp only [Prod.mk.injEq] at heq
  obtain ⟨rfl, rfl⟩ := heq
  obtain ⟨happ, hne⟩ := hf body hb
  exact ⟨by simp [happ], by simp [hne]⟩

theorem splitQuoted_split {quote : Char} {cs body rest : List Char}
    (h : splitQuoted quote cs = some (body, rest)) : body ++ rest = cs ∧ body ≠ [] := by
  fun_induction splitQuoted quote cs generalizing body with
  | case1 | case2 => simp at h
  | case3 c cs ih => exact split_of_map ['\\', c] h fun _ hb => ih hb
  | case4 cs =>
    cases h
    exact ⟨rfl, by simp⟩
  | case5 c cs _ _ _ ih => exact split_of_map [c] h fun _ hb => ih hb

theorem splitDigits_split {r : Radix} {cs digits rest : List Char}
    (h : splitDigits r cs = some (digits, rest)) : digits ++ rest = cs ∧ digits ≠ [] := by
  unfold splitDigits at h
  split at h
  · nomatch h
  · rename_i hne
    cases h
    exact ⟨List.takeWhile_append_dropWhile, by simpa using hne⟩

theorem splitUnsigned_split {cs digits rest : List Char}
    (h : splitUnsigned cs = some (digits, rest)) : digits ++ rest = cs ∧ digits ≠ [] := by
  unfold splitUnsigned at h
  split at h
  · rename_i letter behind
    split at h
    · rename_i digits' rest' hd
      cases h
      obtain ⟨r, _, hr⟩ := Option.bind_eq_some_iff.1 hd
      exact ⟨by simp [(splitDigits_split hr).1], by simp⟩
    · exact splitDigits_split h
  · exact splitDigits_split h

theorem splitNumber_split {cs number rest : List Char}
    (h : splitNumber cs = some (number, rest)) : number ++ rest = cs ∧ number ≠ [] := by
  unfold splitNumber at h
  split at h
  · exact split_of_map ['-'] h fun _ hb => splitUnsigned_split hb
  · exact splitUnsigned_split h

/-- A lexeme is a nonempty piece at the head of the text. -/
theorem first?_split {cs : List Char} {l : Lexeme} (h : first? cs = some l) :
    l.chars ++ l.rest = cs ∧ l.chars ≠ [] := by
  unfold first? at h
  split at h
  · nomatch h
  · rename_i c rest
    split at h
    · cases h
      exact ⟨rfl, by simp⟩
    · split at h
      · cases h
        exact ⟨by simp, by simp⟩
      · split at h
        · obtain ⟨⟨body, behind⟩, hb, rfl⟩ := Option.map_eq_some_iff.1 h
          exact ⟨by simp [(splitQuoted_split hb).1], by simp⟩
        · obtain ⟨⟨number, behind⟩, hb, rfl⟩ := Option.map_eq_some_iff.1 h
          exact splitNumber_split hb

end Lexeme

end PacketSchema
