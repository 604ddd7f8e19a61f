import PacketSchema.Proofs.Token.Shapes

/-! What the escapes of a string stand for, as rules that read a text from left to right. Reading a
string follows the rules but for one thing: the first digit of a code may be a plus sign, and then
one character is read where the rules leave four. -/

namespace PacketSchema.Literal

/-! ## The rules -/

/-- The escapes of one character and what they stand for. -/
def shortEscapes : List (Char × Char) :=
  [('n', '\n'), ('t', '\t'), ('r', '\r'), ('0', '\x00'), ('\\', '\\'), ('"', '"'), ('\'', '\'')]

/-- Two hexadecimal digits and the code that they give. -/
def HexCode (a b : Char) (n : Nat) : Prop :=
  ∃ high low, Radix.hexadecimal.Stands a high ∧ Radix.hexadecimal.Stands b low ∧
    n = 16 * high + low

/-- Two hexadecimal digits, or a plus sign and one. -/
def SignedCode (a b : Char) (n : Nat) : Prop :=
  HexCode a b n ∨ a = '+' ∧ Radix.hexadecimal.Stands b n

/-- An escape without its backslash, what it stands for, and the text behind it. Which pairs of
characters give a code is a parameter. -/
inductive Escape (code : Char → Char → Nat → Prop) : List Char → List Char → List Char → Prop
  | short {c d : Char} {rest : List Char} (h : (c, d) ∈ shortEscapes) :
      Escape code (c :: rest) [d] rest
  | code {a b : Char} {n : Nat} {rest : List Char} (h : code a b n) :
      Escape code ('x' :: a :: b :: rest) [Char.ofNat n] rest
  /-- Any other character is kept, and its backslash too. -/
  | kept {c : Char} {rest : List Char} (hshort : ∀ d, (c, d) ∉ shortEscapes)
      (hcode : c = 'x' → ∀ a b behind n, rest = a :: b :: behind → ¬ code a b n) :
      Escape code (c :: rest) ['\\', c] rest
  | lone : Escape code [] ['\\'] []

/-- What a text stands for, read from left to right. -/
inductive Decodes (code : Char → Char → Nat → Prop) : List Char → List Char → Prop
  | done : Decodes code [] []
  | plain {c : Char} {cs ds : List Char} (hc : c ≠ '\\') (h : Decodes code cs ds) :
      Decodes code (c :: cs) (c :: ds)
  | escape {cs meaning rest ds : List Char} (hescape : Escape code cs meaning rest)
      (h : Decodes code rest ds) : Decodes code ('\\' :: cs) (meaning ++ ds)

theorem shortEscape?_eq_some_iff {c d : Char} :
    shortEscape? c = some d ↔ (c, d) ∈ shortEscapes := by
  constructor
  · intro h
    unfold shortEscape? at h
    split at h <;> cases h <;> simp [shortEscapes]
  · intro h
    simp only [shortEscapes, List.mem_cons, Prod.mk.injEq, List.not_mem_nil, or_false] at h
    rcases h with ⟨rfl, rfl⟩ | ⟨rfl, rfl⟩ | ⟨rfl, rfl⟩ | ⟨rfl, rfl⟩ | ⟨rfl, rfl⟩ | ⟨rfl, rfl⟩ |
      ⟨rfl, rfl⟩ <;> rfl

theorem shortEscape?_eq_none_iff {c : Char} :
    shortEscape? c = none ↔ ∀ d, (c, d) ∉ shortEscapes := by
  simp only [Option.eq_none_iff_forall_ne_some, ne_eq, shortEscape?_eq_some_iff]

theorem ne_of_stands {r : Radix} {c : Char} {d : Nat} (h : r.Stands c d) : c ≠ '+' ∧ c ≠ '\\' := by
  refine ⟨?_, ?_⟩ <;> rintro rfl
  · exact Nat.digitChar_ne '+' rfl h.2.symm
  · exact Nat.digitChar_ne '\\' rfl h.2.symm

theorem HexCode.unique (a b : Char) (m n : Nat) (h : HexCode a b m) (h' : HexCode a b n) :
    m = n := by
  obtain ⟨high, low, ha, hb, rfl⟩ := h
  obtain ⟨high', low', ha', hb', rfl⟩ := h'
  rw [ha.unique ha', hb.unique hb']

section

variable {code : Char → Char → Nat → Prop} {cs ds ds' meaning meaning' rest rest' : List Char}

theorem shortEscapes_x (d : Char) : ('x', d) ∉ shortEscapes :=
  shortEscape?_eq_none_iff.1 rfl d

theorem Escape.unique (hcode : ∀ a b m n, code a b m → code a b n → m = n)
    (h : Escape code cs meaning rest) (h' : Escape code cs meaning' rest') :
    meaning = meaning' ∧ rest = rest' := by
  cases h with
  | short hd =>
    cases h' with
    | short hd' =>
      have heq := (shortEscape?_eq_some_iff.2 hd).symm.trans (shortEscape?_eq_some_iff.2 hd')
      exact ⟨by rw [Option.some.inj heq], rfl⟩
    | code => exact absurd hd (shortEscapes_x _)
    | kept hshort => exact absurd hd (hshort _)
  | code hn =>
    cases h' with
    | short hd => exact absurd hd (shortEscapes_x _)
    | code hn' => exact ⟨by rw [hcode _ _ _ _ hn hn'], rfl⟩
    | kept _ hnone => exact absurd hn (hnone rfl _ _ _ _ rfl)
  | kept hshort hnone =>
    cases h' with
    | short hd => exact absurd hd (hshort _)
    | code hn => exact absurd hn (hnone rfl _ _ _ _ rfl)
    | kept => exact ⟨rfl, rfl⟩
  | lone =>
    cases h'
    exact ⟨rfl, rfl⟩

theorem Decodes.unique (hcode : ∀ a b m n, code a b m → code a b n → m = n)
    (h : Decodes code cs ds) (h' : Decodes code cs ds') : ds = ds' := by
  induction h generalizing ds' with
  | done =>
    cases h'
    rfl
  | plain hc _ ih =>
    cases h' with
    | plain _ h' => rw [ih h']
    | escape => exact absurd rfl hc
  | escape hescape _ ih =>
    cases h' with
    | plain hc => exact absurd rfl hc
    | escape hescape' h' =>
      obtain ⟨rfl, rfl⟩ := hescape.unique hcode hescape'
      rw [ih h']

theorem exists_escape (code : Char → Char → Nat → Prop) (cs : List Char) :
    ∃ meaning rest, Escape code cs meaning rest ∧ rest.length ≤ cs.length := by
  cases cs with
  | nil => exact ⟨_, _, .lone, Nat.le_refl _⟩
  | cons c rest =>
    by_cases hshort : ∃ d, (c, d) ∈ shortEscapes
    · obtain ⟨d, hd⟩ := hshort
      exact ⟨_, _, .short hd, Nat.le_succ _⟩
    · by_cases hcode : ∃ a b behind n, c = 'x' ∧ rest = a :: b :: behind ∧ code a b n
      · obtain ⟨a, b, behind, n, rfl, rfl, hn⟩ := hcode
        exact ⟨_, _, .code hn, by simp; omega⟩
      · refine ⟨_, _, .kept (not_exists.1 hshort) ?_, Nat.le_succ _⟩
        exact fun hx a b behind n hrest hn => hcode ⟨a, b, behind, n, hx, hrest, hn⟩

theorem exists_decodes (code : Char → Char → Nat → Prop) (cs : List Char) :
    ∃ ds, Decodes code cs ds := by
  induction hn : cs.length using Nat.strongRecOn generalizing cs with
  | ind n ih =>
    subst hn
    cases cs with
    | nil => exact ⟨_, .done⟩
    | cons c cs =>
      by_cases hc : c = '\\'
      · subst hc
        obtain ⟨meaning, rest, hescape, hle⟩ := exists_escape code cs
        obtain ⟨ds, hds⟩ := ih rest.length (Nat.lt_succ_of_le hle) rest rfl
        exact ⟨_, .escape hescape hds⟩
      · obtain ⟨ds, hds⟩ := ih cs.length (Nat.lt_succ_self _) cs rfl
        exact ⟨_, .plain hc hds⟩

end

/-! ## Reading -/

section

variable {c d a b : Char} {n : Nat} {cs ds meaning rest : List Char}

theorem hexPair?_eq_some_iff :
    hexPair? a b = some c ↔ ∃ n, SignedCode a b n ∧ c = Char.ofNat n := by
  constructor
  · intro h
    unfold hexPair? at h
    split at h
    · rename_i high low hhigh hlow
      cases h
      have hb := Radix.digit?_eq_some_iff.1 hlow
      split at hhigh
      · cases hhigh
        exact ⟨low, .inr ⟨‹_›, hb⟩, by simp⟩
      · exact ⟨_, .inl ⟨high, low, Radix.digit?_eq_some_iff.1 hhigh, hb, rfl⟩, rfl⟩
    · cases h
  · rintro ⟨n, ⟨high, low, ha, hb, rfl⟩ | ⟨rfl, hb⟩, rfl⟩
    · simp [hexPair?, (ne_of_stands ha).1, Radix.digit?_eq_some_iff.2 ha,
        Radix.digit?_eq_some_iff.2 hb]
    · simp [hexPair?, Radix.digit?_eq_some_iff.2 hb]

theorem unescape_plain (hc : c ≠ '\\') : unescape (c :: rest) = c :: unescape rest := by
  simp [unescape, hc]

theorem unescape_short (h : shortEscape? c = some d) :
    unescape ('\\' :: c :: rest) = d :: unescape rest := by
  have hx : c ≠ 'x' := by
    rintro rfl
    cases h
  simp [unescape, h, hx]

theorem unescape_code (h : hexPair? a b = some c) :
    unescape ('\\' :: 'x' :: a :: b :: rest) = c :: unescape rest := by
  simp [unescape, h]

theorem unescape_kept (h : shortEscape? c = none)
    (hcode : c = 'x' → ∀ a b behind, rest = a :: b :: behind → hexPair? a b = none) :
    unescape ('\\' :: c :: rest) = '\\' :: c :: unescape rest := by
  by_cases hx : c = 'x' ∧ ∃ a b behind, rest = a :: b :: behind
  · obtain ⟨rfl, a, b, behind, rfl⟩ := hx
    simp [unescape, hcode rfl a b behind rfl]
  · rw [unescape, h]
    exact fun a b behind hx' hrest => hx ⟨hx', a, b, behind, hrest⟩

/-- An escape is read as what it stands for, if a plus sign may stand for a digit. -/
theorem unescape_escape (h : Escape SignedCode cs meaning rest) :
    unescape ('\\' :: cs) = meaning ++ unescape rest := by
  cases h with
  | short hd => exact unescape_short (shortEscape?_eq_some_iff.2 hd)
  | code hn => exact unescape_code (hexPair?_eq_some_iff.2 ⟨_, hn, rfl⟩)
  | kept hshort hcode =>
    refine unescape_kept (shortEscape?_eq_none_iff.2 hshort) fun hx a b behind hrest => ?_
    refine Option.eq_none_iff_forall_ne_some.2 fun c hc => ?_
    obtain ⟨n, hn, -⟩ := hexPair?_eq_some_iff.1 hc
    exact hcode hx a b behind n hrest hn
  | lone => rfl

theorem Decodes.eq_unescape (h : Decodes SignedCode cs ds) : ds = unescape cs := by
  induction h with
  | done => rfl
  | plain hc _ ih => rw [ih, unescape_plain hc]
  | escape hescape _ ih => rw [ih, unescape_escape hescape]

theorem decodes_unescape (cs : List Char) : Decodes SignedCode cs (unescape cs) := by
  obtain ⟨ds, hds⟩ := exists_decodes SignedCode cs
  exact hds.eq_unescape ▸ hds

end

/-! ## Codes with a sign -/

/-- Among the escapes of a text there is a code with a plus sign for its first digit. -/
inductive HasSignedCode : List Char → Prop
  | here {b : Char} {n : Nat} {rest : List Char} (hb : Radix.hexadecimal.Stands b n) :
      HasSignedCode ('\\' :: 'x' :: '+' :: b :: rest)
  | plain {c : Char} {cs : List Char} (hc : c ≠ '\\') (h : HasSignedCode cs) :
      HasSignedCode (c :: cs)
  | escape {cs meaning rest : List Char} (hescape : Escape HexCode cs meaning rest)
      (h : HasSignedCode rest) : HasSignedCode ('\\' :: cs)

section

variable {c : Char} {cs ds meaning rest : List Char}

theorem hasSignedCode_plain_iff (hc : c ≠ '\\') : HasSignedCode (c :: cs) ↔ HasSignedCode cs := by
  refine ⟨fun h => ?_, .plain hc⟩
  cases h with
  | here | escape => exact absurd rfl hc
  | plain _ h => exact h

/-- By the rules a plus sign is no digit. -/
theorem escape_plus (rest : List Char) :
    Escape HexCode ('x' :: '+' :: rest) ['\\', 'x'] ('+' :: rest) := by
  refine .kept shortEscapes_x fun _ a b behind n heq hn => ?_
  obtain ⟨rfl, -⟩ := List.cons.inj heq
  obtain ⟨high, low, hplus, -⟩ := hn
  exact (ne_of_stands hplus).1 rfl

/-- An escape means the same whether codes may have a sign or not, unless it is such a code. -/
theorem Escape.signed (h : Escape HexCode cs meaning rest) :
    Escape SignedCode cs meaning rest ∧ (HasSignedCode ('\\' :: cs) ↔ HasSignedCode rest) ∨
      ∃ b n behind, cs = 'x' :: '+' :: b :: behind ∧ Radix.hexadecimal.Stands b n ∧
        meaning = ['\\', 'x'] ∧ rest = '+' :: b :: behind := by
  by_cases hsigned : ∃ b n behind, cs = 'x' :: '+' :: b :: behind ∧
      Radix.hexadecimal.Stands b n
  · obtain ⟨b, n, behind, rfl, hb⟩ := hsigned
    obtain ⟨hmeaning, hrest⟩ := h.unique HexCode.unique (escape_plus _)
    exact .inr ⟨b, n, behind, rfl, hb, hmeaning, hrest⟩
  · refine .inl ⟨?_, fun hhas => ?_, .escape h⟩
    · cases h with
      | short hd => exact .short hd
      | code hn => exact .code (.inl hn)
      | kept hshort hcode =>
        refine .kept hshort fun hx a b behind n hrest hn => ?_
        obtain hn | ⟨rfl, hb⟩ := hn
        · exact hcode hx a b behind n hrest hn
        · exact hsigned ⟨b, n, behind, by rw [hx, hrest], hb⟩
      | lone => exact .lone
    · cases hhas with
      | here hb => exact absurd ⟨_, _, _, rfl, hb⟩ hsigned
      | plain hc => exact absurd rfl hc
      | escape h' hrest =>
        obtain ⟨-, rfl⟩ := h.unique HexCode.unique h'
        exact hrest

/-- A code with a sign is read as one character, but stands for the four that it is written with. -/
theorem Decodes.compare (h : Decodes HexCode cs ds) :
    (unescape cs).length ≤ ds.length ∧ (HasSignedCode cs → (unescape cs).length < ds.length) ∧
      (¬ HasSignedCode cs → unescape cs = ds) := by
  induction h with
  | done => exact ⟨Nat.le_refl _, fun h => (by cases h), fun _ => rfl⟩
  | plain hc _ ih =>
    obtain ⟨hle, hlt, heq⟩ := ih
    rw [unescape_plain hc, hasSignedCode_plain_iff hc]
    exact ⟨Nat.succ_le_succ hle, fun h => Nat.succ_lt_succ (hlt h), fun h => by rw [heq h]⟩
  | escape hescape _ ih =>
    obtain ⟨hle, hlt, heq⟩ := ih
    obtain ⟨hsame, hiff⟩ | ⟨b, n, behind, rfl, hb, rfl, rfl⟩ := hescape.signed
    · -- The same escape on both sides: what is behind it decides.
      rw [unescape_escape hsame, hiff, List.length_append, List.length_append]
      exact ⟨Nat.add_le_add_left hle _, fun h => Nat.add_lt_add_left (hlt h) _,
        fun h => by rw [heq h]⟩
    · -- The rules go on at the plus sign, and pass over it and the digit as they stand.
      have hplus : '+' ≠ '\\' := by decide
      have hread : unescape ('\\' :: 'x' :: '+' :: b :: behind) =
          [Char.ofNat n] ++ unescape behind :=
        unescape_escape (.code (.inr ⟨rfl, hb⟩))
      rw [unescape_plain hplus, unescape_plain (ne_of_stands hb).2] at hle
      simp only [List.length_cons] at hle
      have hlength : (unescape ('\\' :: 'x' :: '+' :: b :: behind)).length =
          (unescape behind).length + 1 := by
        rw [hread, List.length_append, List.length_singleton, Nat.add_comm]
      simp only [List.length_append, List.length_cons, List.length_nil, hlength]
      exact ⟨by omega, fun _ => by omega, fun h => absurd (.here hb) h⟩

/-- The text that is read is what the rules say exactly if no code has a sign. -/
theorem Decodes.unescape_eq_iff (h : Decodes HexCode cs ds) :
    unescape cs = ds ↔ ¬ HasSignedCode cs := by
  obtain ⟨-, hlt, heq⟩ := h.compare
  refine ⟨fun hsame hhas => ?_, heq⟩
  exact Nat.lt_irrefl _ (hsame ▸ hlt hhas)

end

/-! ## Strings -/

/-- What the strings of a text are read as. Between the quotes stands a text that the rules give one
meaning, and this is the value of the string exactly if no code in it has a sign. In any case the
value is what the rules say if a plus sign may stand for the first digit of a code. -/
theorem strings_decoded (source text : String) :
    ∀ t ∈ (TokenStream.ofText source text).tokens, t.kind = .string →
      ∃ quote inner meaning read, Lexeme.isQuote quote = true ∧ Lexeme.Enclosed quote inner ∧
        t.text.toList = quote :: (inner ++ [quote]) ∧
        Decodes HexCode inner meaning ∧ (∀ ds, Decodes HexCode inner ds → ds = meaning) ∧
        Decodes SignedCode inner read ∧
        ofToken t.kind t.text t.position = .ok (.text (.ofList read)) ∧
        (read = meaning ↔ ¬ HasSignedCode inner) := by
  intro t ht hkind
  obtain ⟨quote, inner, hquote, hinner, htext⟩ : ∃ quote inner, Lexeme.isQuote quote = true ∧
      Lexeme.Enclosed quote inner ∧ t.text.toList = quote :: (inner ++ [quote]) := by
    have hshape := (TokenStream.shaped_ofText source text t ht).literal hkind rfl
    generalize t.text.toList = chars at hshape ⊢
    cases hshape with
    | string hquote hinner => exact ⟨_, _, hquote, hinner, rfl⟩
  obtain ⟨meaning, hmeaning⟩ := exists_decodes HexCode inner
  have hread : ofToken t.kind t.text t.position = .ok (.text (.ofList (unescape inner))) := by
    rw [hkind, ofToken, htext]
    simp [unquote]
  exact ⟨quote, inner, meaning, unescape inner, hquote, hinner, htext, hmeaning,
    fun ds hds => hds.unique HexCode.unique hmeaning, decodes_unescape inner, hread,
    hmeaning.unescape_eq_iff⟩

/-- A tab, a code that lacks a digit, and a code. -/
theorem strings_decoded_mixed :
    ⟨.string, "'\\t\\x4g\\x4a'", ⟨"t", ⟨1, 3⟩⟩⟩ ∈
        (TokenStream.ofText "t" "k '\\t\\x4g\\x4a'").tokens ∧
      Decodes HexCode ['\\', 't', '\\', 'x', '4', 'g', '\\', 'x', '4', 'a']
        ['\t', '\\', 'x', '4', 'g', 'J'] ∧
      ofToken .string "'\\t\\x4g\\x4a'" ⟨"t", ⟨1, 3⟩⟩ = .ok (.text "\t\\x4gJ") ∧
      ¬ HasSignedCode ['\\', 't', '\\', 'x', '4', 'g', '\\', 'x', '4', 'a'] := by
  have htoken : ⟨.string, "'\\t\\x4g\\x4a'", ⟨"t", ⟨1, 3⟩⟩⟩ ∈
      (TokenStream.ofText "t" "k '\\t\\x4g\\x4a'").tokens := by decide +kernel
  have hvalue : ofToken .string "'\\t\\x4g\\x4a'" ⟨"t", ⟨1, 3⟩⟩ = .ok (.text "\t\\x4gJ") := by
    decide +kernel
  have hdecodes : Decodes HexCode ['\\', 't', '\\', 'x', '4', 'g', '\\', 'x', '4', 'a']
      (['\t'] ++ (['\\', 'x'] ++ '4' :: 'g' :: ([Char.ofNat 74] ++ []))) := by
    refine .escape (.short (by decide)) (.escape (.kept shortEscapes_x fun _ a b _ n heq hn => ?_)
      (.plain (by decide) (.plain (by decide) (.escape (.code ?_) .done))))
    · cases heq
      obtain ⟨high, low, -, hg, -⟩ := hn
      cases Radix.digit?_eq_some_iff.2 hg
    · exact ⟨4, 10, by unfold Radix.Stands; decide, by unfold Radix.Stands; decide, rfl⟩
  obtain ⟨quote, inner, meaning, read, -, -, htext, -, hunique, -, hread, hiff⟩ :=
    strings_decoded "t" _ _ htoken rfl
  have hchars : "'\\t\\x4g\\x4a'".toList =
      '\'' :: (['\\', 't', '\\', 'x', '4', 'g', '\\', 'x', '4', 'a'] ++ ['\'']) := by decide
  obtain ⟨rfl, hinner⟩ := List.cons.inj (hchars.symm.trans htext)
  obtain rfl := List.append_cancel_right hinner
  have hsame : String.ofList read = "\t\\x4gJ" := by
    injection hread.symm.trans hvalue with htexts
    injection htexts
  refine ⟨htoken, hdecodes, hvalue, hiff.1 ?_⟩
  rw [← hunique _ hdecodes, ← String.toList_ofList (l := read), hsame]
  decide

/-- The plus sign in the place of the first digit is no hexadecimal digit, so the escape should be
kept as it is written. It is read as a code of one digit. -/
theorem signed_code_misread :
    ⟨.string, "\"\\x+5\"", ⟨"t", ⟨1, 1⟩⟩⟩ ∈ (TokenStream.ofText "t" "\"\\x+5\"").tokens ∧
      "\"\\x+5\"".toList = '"' :: (['\\', 'x', '+', '5'] ++ ['"']) ∧
      Decodes HexCode ['\\', 'x', '+', '5'] ['\\', 'x', '+', '5'] ∧
      ofToken .string "\"\\x+5\"" ⟨"t", ⟨1, 1⟩⟩ = .ok (.text "\x05") ∧
      "\x05".toList ≠ ['\\', 'x', '+', '5'] := by
  have hdecodes : Decodes HexCode ['\\', 'x', '+', '5'] (['\\', 'x'] ++ ['+', '5']) :=
    .escape (escape_plus _) (.plain (by decide) (.plain (by decide) .done))
  exact ⟨by decide +kernel, by decide, hdecodes, by decide +kernel, by decide⟩

end PacketSchema.Literal
