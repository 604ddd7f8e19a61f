import PacketSchema.Proofs.Literal.Numeral

/-! The shapes of tokens: what the characters of a token look like, whatever stands around it. Every
token has the shape of its kind, and a text of such a shape is found as a token wherever nothing
follows that could go on with it. -/

namespace PacketSchema

namespace Lexeme

/-! ## Runs of characters -/

section

variable {p : Char → Bool} {cs rest : List Char}

theorem takeWhile_run (hcs : ∀ c ∈ cs, p c = true) (hrest : ∀ c ∈ rest.head?, p c = false) :
    (cs ++ rest).takeWhile p = cs ∧ (cs ++ rest).dropWhile p = rest := by
  rw [List.takeWhile_append_of_pos hcs, List.dropWhile_append_of_pos hcs]
  cases rest with
  | nil => simp
  | cons c rest =>
    have hc : p c = false := hrest c rfl
    simp [hc]

end

/-- No character that could continue a word or a number stands at the head. -/
def Apart (rest : List Char) : Prop := ∀ c ∈ rest.head?, isIdentChar c = false

theorem apart_nil : Apart [] := by simp [Apart]

theorem apart_space (rest : List Char) : Apart (' ' :: rest) := by
  rintro _ ⟨⟩
  rfl

theorem of_isSymbol {P : Char → Prop}
    (h : ∀ c ∈ ['{', '}', '(', ')', ';', ':', ',', '=', '.'], P c) {c : Char}
    (hc : isSymbol c = true) : P c :=
  h c (List.contains_iff_mem.1 hc)

/-! ## Shapes -/

/-- What may stand between two quotes: other characters, and backslashes with any character behind
each of them. -/
inductive Enclosed (quote : Char) : List Char → Prop
  | nil : Enclosed quote []
  | plain {c : Char} {cs : List Char} (hc : c ≠ '\\') (hquote : c ≠ quote) (h : Enclosed quote cs) :
      Enclosed quote (c :: cs)
  | escape {c : Char} {cs : List Char} (h : Enclosed quote cs) : Enclosed quote ('\\' :: c :: cs)

/-- The characters of a token. Keywords are words like others. -/
inductive Shape : TokenKind → List Char → Prop
  | symbol {c : Char} (hc : isSymbol c = true) : Shape .symbol [c]
  | word {c : Char} {cs : List Char} (hc : isIdentStart c = true)
      (hcs : ∀ x ∈ cs, isIdentChar x = true) : Shape .ident (c :: cs)
  | string {quote : Char} {cs : List Char} (hquote : isQuote quote = true)
      (hcs : Enclosed quote cs) : Shape .string (quote :: (cs ++ [quote]))
  | number {cs : List Char} {x : Numeral} (hcs : x.Spells cs) : Shape .number cs

/-! ## Strings -/

section

variable {quote : Char} {cs body rest : List Char}

theorem splitQuoted_enclosed (hquote : quote ≠ '\\') (h : Enclosed quote cs) (rest : List Char) :
    splitQuoted quote (cs ++ quote :: rest) = some (cs ++ [quote], rest) := by
  induction h with
  | nil => exact splitQuoted_closing hquote rest
  | plain hc hne _ ih =>
    rw [List.cons_append, splitQuoted_cons hc hne, ih]
    rfl
  | escape _ ih =>
    rw [List.cons_append, List.cons_append, splitQuoted_escaped, ih]
    rfl

theorem exists_enclosed (h : splitQuoted quote cs = some (body, rest)) :
    ∃ inner, body = inner ++ [quote] ∧ Enclosed quote inner := by
  fun_induction splitQuoted quote cs generalizing body with
  | case1 | case2 => cases h
  | case3 c cs ih =>
    obtain ⟨⟨body', rest'⟩, hbody, heq⟩ := Option.map_eq_some_iff.1 h
    cases heq
    obtain ⟨inner, rfl, hinner⟩ := ih hbody
    exact ⟨'\\' :: c :: inner, rfl, .escape hinner⟩
  | case4 cs =>
    cases h
    exact ⟨[], rfl, .nil⟩
  | case5 c cs hend hescape hquote ih =>
    obtain ⟨⟨body', rest'⟩, hbody, heq⟩ := Option.map_eq_some_iff.1 h
    cases heq
    obtain ⟨inner, rfl, hinner⟩ := ih hbody
    exact ⟨c :: inner, rfl, .plain (no_backslash hend hescape) hquote hinner⟩

end

/-! ## Numbers -/

section

variable {x : Numeral} {cs rest : List Char}

theorem exists_digits_splitDigits {r : Radix} {cs digits rest : List Char}
    (h : splitDigits r cs = some (digits, rest)) :
    ∃ ds : List Nat, digits.map Char.toLower = ds.map Nat.digitChar ∧ ds ≠ [] ∧
      ∀ d ∈ ds, d < r.base := by
  obtain ⟨hne, hall⟩ := splitDigits_isDigit h
  obtain ⟨ds, hmap, hds⟩ := Radix.exists_digits hall
  refine ⟨ds, hmap, ?_, hds⟩
  rintro rfl
  exact hne (List.map_eq_nil_iff.1 hmap)

theorem exists_unsigned {cs chars rest : List Char} (h : splitUnsigned cs = some (chars, rest))
    (negative : Bool) : ∃ x : Numeral, x.negative = negative ∧ x.Unsigned chars := by
  have hdecimal : splitDigits .decimal cs = some (chars, rest) →
      ∃ x : Numeral, x.negative = negative ∧ x.Unsigned chars := by
    intro hsplit
    obtain ⟨ds, hmap, hne, hds⟩ := exists_digits_splitDigits hsplit
    exact ⟨⟨negative, .decimal, ds, hne, hds⟩, rfl, hmap⟩
  unfold splitUnsigned at h
  split at h
  · rename_i letter behind
    split at h
    · rename_i digits rest' hd
      cases h
      obtain ⟨r, hr, hsplit⟩ := Option.bind_eq_some_iff.1 hd
      obtain ⟨ds, hmap, hne, hds⟩ := exists_digits_splitDigits hsplit
      refine ⟨⟨negative, r, ds, hne, hds⟩, rfl, ?_⟩
      simp [Numeral.Unsigned, Radix.mark_of_ofLetter? hr, hmap]
    · exact hdecimal h
  · exact hdecimal h

/-- What is split off as a number is a numeral. -/
theorem exists_spells {cs chars rest : List Char} (h : splitNumber cs = some (chars, rest)) :
    ∃ x : Numeral, x.Spells chars := by
  unfold splitNumber at h
  split at h
  · obtain ⟨⟨digits, rest'⟩, hdigits, heq⟩ := Option.map_eq_some_iff.1 h
    cases heq
    obtain ⟨x, hneg, hx⟩ := exists_unsigned hdigits true
    refine ⟨x, ?_⟩
    unfold Numeral.Unsigned at hx
    simp [Numeral.Spells, Numeral.chars, hneg, hx]
  · obtain ⟨x, hneg, hx⟩ := exists_unsigned h false
    exact ⟨x, by simpa [Numeral.Spells, Numeral.chars, hneg, Numeral.Unsigned] using hx⟩

theorem splitDigits_run {r : Radix} (hne : cs ≠ []) (hcs : ∀ c ∈ cs, r.isDigit c = true)
    (hrest : Apart rest) : splitDigits r (cs ++ rest) = some (cs, rest) := by
  have hdigit : ∀ c ∈ rest.head?, r.isDigit c = false := fun c hc =>
    Bool.eq_false_iff.2 fun h => by simpa [hrest c hc] using isIdentChar_of_isDigit h
  obtain ⟨htake, hdrop⟩ := takeWhile_run hcs hdigit
  rw [splitDigits, htake, hdrop, if_neg (by simpa using hne)]

theorem isIdentChar_of_ofLetter? {r : Radix} {c : Char} (h : Radix.ofLetter? c = some r) :
    isIdentChar c = true := by
  rw [← toLower_invariant (P := isIdentChar) (by decide +kernel) c]
  have hmark := Radix.mark_of_ofLetter? h
  cases r <;> simp_all [Radix.mark] <;> rw [← hmark] <;> rfl

/-- Digits of a decimal number announce no other radix. -/
theorem Unmarked.of_isDigit (hcs : ∀ c ∈ cs, Radix.decimal.isDigit c = true) (hrest : Apart rest) :
    Unmarked (cs ++ rest) := by
  intro letter behind heq
  match cs with
  | [] =>
    have hzero : rest = '0' :: letter :: behind := heq
    cases hrest '0' (by rw [hzero]; rfl)
  | [_] =>
    obtain ⟨-, rfl⟩ := List.cons.inj heq
    refine Option.eq_none_iff_forall_ne_some.2 fun r hr => ?_
    simpa [hrest letter rfl] using isIdentChar_of_ofLetter? hr
  | _ :: d :: _ =>
    obtain ⟨-, htail⟩ := List.cons.inj heq
    obtain ⟨rfl, -⟩ := List.cons.inj htail
    exact Radix.ofLetter?_of_isDigit (hcs d (.tail _ (.head _)))

theorem splitUnsigned_numeral (h : x.Unsigned cs) (hrest : Apart rest) :
    splitUnsigned (cs ++ rest) = some (cs, rest) := by
  have hrun : ∀ {ds}, ds.map Char.toLower = x.digits.map Nat.digitChar →
      splitDigits x.radix (ds ++ rest) = some (ds, rest) := by
    intro ds hdigits
    refine splitDigits_run ?_ (Radix.isDigit_of_digits hdigits x.lt_base) hrest
    rintro rfl
    exact x.digits_ne_nil (List.map_eq_nil_iff.1 hdigits.symm)
  obtain ⟨letter, ds, rfl, hmark, hdigits⟩ | ⟨hradix, hdigits⟩ := Numeral.unsigned_cases h
  · rw [List.cons_append, List.cons_append, splitUnsigned_zero, hmark, Option.bind_some,
      hrun hdigits]
    rfl
  · have hall := Radix.isDigit_of_digits hdigits x.lt_base
    rw [splitUnsigned_of_unmarked (.of_isDigit (hradix ▸ hall) hrest), ← hradix, hrun hdigits]

theorem splitNumber_numeral (h : x.Spells cs) (hrest : Apart rest) :
    splitNumber (cs ++ rest) = some (cs, rest) := by
  obtain ⟨ds, -, rfl, hunsigned⟩ | ⟨-, hunsigned⟩ := Numeral.spells_cases h
  · rw [List.cons_append, splitNumber, splitUnsigned_numeral hunsigned hrest]
    rfl
  · obtain ⟨c, ds, rfl, hdigit⟩ := Numeral.head_of_unsigned hunsigned
    have hminus : c ≠ '-' := by
      rintro rfl
      cases hdigit
    rw [List.cons_append, splitNumber_of_ne hminus, ← List.cons_append,
      splitUnsigned_numeral hunsigned hrest]

/-- Numbers consist of the characters of words, but for their sign. -/
theorem isIdentChar_of_spells (h : x.Spells cs) :
    ∀ c ∈ cs, isIdentChar c = true ∨ c = '-' := by
  have hunsigned : ∀ {cs}, x.Unsigned cs → ∀ c ∈ cs, isIdentChar c = true := by
    intro cs hcs
    have hdigits : ∀ {ds : List Char}, ds.map Char.toLower = x.digits.map Nat.digitChar →
        ∀ c ∈ ds, isIdentChar c = true :=
      fun hds c hc => isIdentChar_of_isDigit (Radix.isDigit_of_digits hds x.lt_base c hc)
    obtain ⟨letter, ds, rfl, hletter, hds⟩ | ⟨-, hds⟩ := Numeral.unsigned_cases hcs
    · exact List.forall_mem_cons.2 ⟨rfl, List.forall_mem_cons.2
        ⟨isIdentChar_of_ofLetter? hletter, hdigits hds⟩⟩
    · exact hdigits hds
  obtain ⟨ds, -, rfl, hds⟩ | ⟨-, hcs⟩ := Numeral.spells_cases h
  · exact List.forall_mem_cons.2 ⟨.inr rfl, fun c hc => .inl (hunsigned hds c hc)⟩
  · exact fun c hc => .inl (hunsigned hcs c hc)

/-- A number starts like no other token. -/
theorem first?_numeral (h : x.Spells cs) (hrest : Apart rest) :
    first? (cs ++ rest) = some ⟨.number, cs, rest⟩ := by
  have hhead : ∃ c ds, cs = c :: ds ∧
      isSymbol c = false ∧ isIdentStart c = false ∧ isQuote c = false := by
    obtain ⟨ds, -, rfl, -⟩ | ⟨-, hunsigned⟩ := Numeral.spells_cases h
    · exact ⟨'-', ds, rfl, rfl, rfl, rfl⟩
    · obtain ⟨c, ds, rfl, hdigit⟩ := Numeral.head_of_unsigned hunsigned
      exact ⟨c, ds, rfl, ascii_forall (P := fun c => Radix.decimal.isDigit c = true →
          isSymbol c = false ∧ isIdentStart c = false ∧ isQuote c = false) (by decide +kernel)
        (isIdentChar_lt (isIdentChar_of_isDigit hdigit)) hdigit⟩
  have hnumber := splitNumber_numeral h hrest
  obtain ⟨c, ds, rfl, hsymbol, hstart, hquote⟩ := hhead
  rw [List.cons_append] at hnumber ⊢
  simp [first?, hsymbol, hstart, hquote, hnumber]

end

theorem shape_spelling (r : Radix) (n : Int) : Shape .number (r.spelling n) := by
  obtain ⟨x, hx, -⟩ := r.exists_spells n
  exact .number hx

/-! ## Tokens -/

variable {kind : TokenKind} {chars rest : List Char}

/-- Every token has its shape. -/
theorem shape_of_first? {cs : List Char} {l : Lexeme} (h : first? cs = some l) :
    Shape l.kind l.chars := by
  unfold first? at h
  split at h
  · cases h
  · rename_i c cs
    split at h
    · rename_i hsymbol
      cases h
      exact .symbol hsymbol
    · split at h
      · rename_i hstart
        cases h
        exact .word hstart fun x hx => List.all_eq_true.1 List.all_takeWhile x hx
      · split at h
        · rename_i hquote
          obtain ⟨⟨body, rest⟩, hbody, rfl⟩ := Option.map_eq_some_iff.1 h
          obtain ⟨inner, rfl, hinner⟩ := exists_enclosed hbody
          exact .string hquote hinner
        · obtain ⟨⟨number, rest⟩, hnumber, rfl⟩ := Option.map_eq_some_iff.1 h
          obtain ⟨x, hx⟩ := exists_spells hnumber
          exact .number hx

/-- Where nothing continues it, a token's shape is all that it takes to find it. -/
theorem Shape.first? (h : Shape kind chars) (hrest : Apart rest) :
    first? (chars ++ rest) = some ⟨kind, chars, rest⟩ := by
  cases h with
  | symbol hc => simp [Lexeme.first?, hc]
  | @word c cs hc hcs =>
    have hsymbol : isSymbol c = false :=
      ascii_forall (P := fun c => isIdentStart c = true → isSymbol c = false) (by decide +kernel)
        (isIdentChar_lt (isIdentChar_of_isIdentStart hc)) hc
    obtain ⟨htake, hdrop⟩ := takeWhile_run hcs hrest
    simp [Lexeme.first?, hsymbol, hc, htake, hdrop]
  | @string quote cs hquote hcs =>
    have hne : quote ≠ '\\' := of_isQuote (P := (· ≠ '\\')) (by decide) (by decide) hquote
    exact first?_string hquote (splitQuoted_enclosed hne hcs []) rest
  | number hcs => exact first?_numeral hcs hrest

/-- A word keeps its shape in lower case. -/
theorem Shape.toLower (h : Shape kind chars) (hkind : kind.isLiteral = false) :
    Shape kind (chars.map Char.toLower) := by
  cases h with
  | symbol hc => exact .symbol (by rwa [toLower_invariant (P := isSymbol) (by decide +kernel)])
  | word hc hcs =>
    refine .word (by rwa [toLower_invariant (P := isIdentStart) (by decide +kernel)]) ?_
    intro x hx
    obtain ⟨y, hy, rfl⟩ := List.mem_map.1 hx
    exact isIdentChar_toLower (hcs y hy)
  | string => cases hkind
  | number => cases hkind

end Lexeme

/-! ## Texts -/

namespace Token

variable {kind : TokenKind} {chars : List Char}

/-- The characters that the token was found as have a shape. -/
def Shaped (t : Token) : Prop :=
  ∃ kind chars p, Lexeme.Shape kind chars ∧ t = .ofChars kind chars p

/-- Literals keep the characters that they were found as. -/
theorem Shaped.literal {t : Token} (h : t.Shaped) (hkind : t.kind = kind)
    (hliteral : kind.isLiteral = true) : Lexeme.Shape kind t.text.toList := by
  obtain ⟨kind', chars, p, hshape, rfl⟩ := h
  cases hword : kind'.isLiteral with
  | true =>
    rw [ofChars_literal hword] at hkind ⊢
    obtain rfl : kind' = kind := hkind
    rwa [String.toList_ofList]
  | false =>
    rw [ofChars_word hword] at hkind
    subst hkind
    dsimp only at hliteral
    split at hliteral
    · cases hliteral
    · rw [hword] at hliteral
      cases hliteral

end Token

namespace TokenStream

theorem shaped_ofText (source text : String) : ∀ t ∈ (ofText source text).tokens, t.Shaped :=
  forall_tokens (fun _ _ hl p => ⟨_, _, p, Lexeme.shape_of_first? hl, rfl⟩) source
    ⟨.start, text.toList⟩

/-- A text that has the shape of a token is that token. -/
theorem ofText_shape {kind : TokenKind} {chars : List Char} (h : Lexeme.Shape kind chars)
    (source : String) : ofText source (.ofList chars) =
      ⟨[.ofChars kind chars ⟨source, .start⟩], .finished ⟨source, Place.start.after chars⟩⟩ := by
  have hfirst := h.first? Lexeme.apart_nil
  rw [List.append_nil] at hfirst
  rw [ofText, String.toList_ofList, ofSpot_lexeme source .start hfirst, ofSpot_nil]
  rfl

end TokenStream

end PacketSchema
