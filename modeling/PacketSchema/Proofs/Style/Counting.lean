import PacketSchema.Proofs.Style.Indenting
import PacketSchema.Proofs.Token.Shapes

/-! The code in a line is that of its tokens. Looking for what stands outside quotes and in front of
a comment, and reading token by token, agree about quotes, backslashes and number signs. So what is
counted in a line are its symbols. -/

namespace PacketSchema

namespace Token

/-- Whether the token is the symbol that this character is. -/
def isSymbol (c : Char) (t : Token) : Bool := t.kind == .symbol && t.text == .singleton c

theorem isSymbol_of_kind {kind : TokenKind} (h : kind ≠ .symbol) (chars : List Char)
    (p : Position) (c : Char) : (ofChars kind chars p).isSymbol c = false := by
  have hkind : (ofChars kind chars p).kind ≠ .symbol := by
    unfold ofChars
    split
    · exact h
    · dsimp only
      split
      · decide
      · exact h
  simp [isSymbol, hkind]

/-- A symbol is neither a keyword nor of two cases. -/
theorem isSymbol_ofChars {d : Char} (hd : Lexeme.isSymbol d = true) (p : Position) (c : Char) :
    (ofChars .symbol [d] p).isSymbol c = (d == c) := by
  have hlower : d.toLower = d := Lexeme.of_isSymbol (P := fun d => d.toLower = d) (by simp) hd
  have hkeyword : keywords.contains (.ofList [d]) = false := by
    simp [keywords, ← String.toList_inj]
  rw [ofChars_word rfl, List.map_singleton, hlower, hkeyword]
  simp [isSymbol, ← String.toList_inj]

end Token

namespace Style

open Lexeme (Shape Enclosed isSymbol isIdentChar isQuote of_isQuote of_isSymbol)
open Text

/-! ## Comments -/

/-- A line without its comment, with the white space in front of that. -/
def uncommented (line : List Char) : List Char := (beforeComment? .outside line).getD line

theorem sameCode_uncommented (line : List Char) : SameCode (content line) (uncommented line) := by
  unfold content uncommented
  cases beforeComment? .outside line with
  | none => exact ⟨fun _ _ => rfl, rfl⟩
  | some front =>
    obtain ⟨b, heq, hb⟩ := trimEnd_split front
    have hcount : ∀ c, isBlank c = false → countCode (trimEnd front ++ b) c =
        countCode (trimEnd front) c := fun _ => countCode_append_blank hb _
    have hclosers := leadingClosers_append_blank hb (trimEnd front)
    rw [← heq] at hcount hclosers
    exact ⟨fun c hc => (hcount c hc).symm, hclosers.symm⟩

theorem beforeComment?_append {q : Quoting} {cs : List Char} (h : '#' ∉ codeFrom q cs)
    (ds : List Char) :
    beforeComment? q (cs ++ ds) = (beforeComment? (q.after cs) ds).map (cs ++ ·) := by
  induction cs generalizing q with
  | nil => exact (congrFun Option.map_id _).symm
  | cons c cs ih =>
    have hmark : (q.isCode c && c == '#') = false := by
      by_cases hcode : q.isCode c = true
      · simp only [codeFrom, hcode, if_true, List.mem_cons, not_or] at h
        simpa [hcode] using Ne.symm h.1
      · simp [hcode]
    have hrest : '#' ∉ codeFrom (q.next c) cs := by
      unfold codeFrom at h
      split at h
      · exact fun hmem => h (.tail _ hmem)
      · exact h
    rw [List.cons_append, beforeComment?, hmark, if_neg Bool.false_ne_true, ih hrest,
      Option.map_map]
    rfl

/-! ## Tokens -/

/-- A piece of a line that starts and ends outside of quotes and has no comment in it. -/
structure Closed (cs : List Char) : Prop where
  after : Quoting.outside.after cs = .outside
  comment : '#' ∉ codeFrom .outside cs

theorem Closed.uncommented_append {cs : List Char} (h : Closed cs) (ds : List Char) :
    uncommented (cs ++ ds) = cs ++ uncommented ds := by
  unfold uncommented
  rw [beforeComment?_append h.comment, h.after]
  cases beforeComment? .outside ds <;> rfl

theorem Closed.codeFrom_append {cs : List Char} (h : Closed cs) (ds : List Char) :
    codeFrom .outside (cs ++ ds) = codeFrom .outside cs ++ codeFrom .outside ds := by
  rw [Style.codeFrom_append, h.after]

/-- Where there is no quote, everything is code. -/
theorem codeFrom_unquoted {cs : List Char} (h : ∀ c ∈ cs, isQuote c = false) :
    codeFrom .outside cs = cs ∧ Quoting.outside.after cs = .outside := by
  induction cs with
  | nil => exact ⟨rfl, rfl⟩
  | cons c cs ih =>
    obtain ⟨hc, hcs⟩ := List.forall_mem_cons.1 h
    obtain ⟨hcode, hafter⟩ := ih hcs
    have hnext : Quoting.outside.next c = .outside := by simp [Quoting.next, hc]
    have hcons : Quoting.outside.isCode c = true := by simp [Quoting.isCode, hc]
    refine ⟨?_, ?_⟩
    · rw [codeFrom, if_pos hcons, hnext, hcode]
    · rw [Quoting.after, List.foldl_cons, hnext]
      exact hafter

/-- Between quotes there is no code, whatever is escaped there. -/
theorem codeFrom_enclosed {quote : Char} {cs : List Char} (h : Enclosed quote cs)
    (ds : List Char) : codeFrom (.inside quote) (cs ++ ds) = codeFrom (.inside quote) ds ∧
      (Quoting.inside quote).after (cs ++ ds) = (Quoting.inside quote).after ds := by
  induction h with
  | nil => exact ⟨rfl, rfl⟩
  | @plain c cs hc hquote _ ih =>
    have hnext : (Quoting.inside quote).next c = .inside quote := by
      simp [Quoting.next, hc, hquote]
    simpa [codeFrom, Quoting.isCode, Quoting.after, hnext] using ih
  | @escape c cs _ ih =>
    have hbackslash : (Quoting.inside quote).next '\\' = .escaped quote := rfl
    have hnext : (Quoting.escaped quote).next c = .inside quote := rfl
    simpa [codeFrom, Quoting.isCode, Quoting.after, hbackslash, hnext] using ih

theorem codeFrom_string {quote : Char} {cs : List Char} (hquote : isQuote quote = true)
    (h : Enclosed quote cs) : codeFrom .outside (quote :: (cs ++ [quote])) = [] ∧
      Quoting.outside.after (quote :: (cs ++ [quote])) = .outside := by
  obtain ⟨hcode, hafter⟩ := codeFrom_enclosed h [quote]
  have hopen : Quoting.outside.next quote = .inside quote := if_pos hquote
  have hnone : Quoting.outside.isCode quote = false := by simp [Quoting.isCode, hquote]
  have hbackslash : quote ≠ '\\' := of_isQuote (P := (· ≠ '\\')) (by decide) (by decide) hquote
  have hclose : (Quoting.inside quote).next quote = .outside := by
    simp [Quoting.next, hbackslash]
  refine ⟨?_, ?_⟩
  · rw [codeFrom, hnone, if_neg Bool.false_ne_true, hopen, hcode]
    rfl
  · rw [Quoting.after, List.foldl_cons, hopen]
    exact hafter.trans hclose

/-- Words and numbers have neither quotes nor comments nor symbols in them. -/
theorem code_of_plain {cs : List Char} (h : ∀ c ∈ cs, isIdentChar c = true ∨ c = '-') :
    Closed cs ∧ ∀ {c}, isSymbol c = true → countCode cs c = 0 := by
  have hcode : ∀ c ∈ cs, isQuote c = false ∧ isSymbol c = false ∧ c ≠ '#' := by
    intro c hc
    obtain hident | rfl := h c hc
    · exact ascii_forall (P := fun c => isIdentChar c = true →
        isQuote c = false ∧ isSymbol c = false ∧ c ≠ '#') (by decide +kernel)
        (Lexeme.isIdentChar_lt hident) hident
    · decide
  obtain ⟨hall, hafter⟩ := codeFrom_unquoted fun c hc => (hcode c hc).1
  refine ⟨⟨hafter, fun hmem => ?_⟩, fun {c} hc => ?_⟩
  · rw [hall] at hmem
    exact (hcode _ hmem).2.2 rfl
  · rw [countCode, hall]
    refine List.count_eq_zero.2 fun hmem => ?_
    rw [(hcode c hmem).2.1] at hc
    cases hc

/-- A token is a piece of its own. Its code are the symbols that it is. -/
theorem code_of_shape {kind : TokenKind} {chars : List Char} (h : Shape kind chars) :
    Closed chars ∧ ∀ {c}, isSymbol c = true → ∀ p,
      countCode chars c = [Token.ofChars kind chars p].countP (Token.isSymbol c) := by
  have hother : kind ≠ .symbol → ∀ {c p},
      [Token.ofChars kind chars p].countP (Token.isSymbol c) = 0 := by
    intro hkind c p
    rw [List.countP_singleton, Token.isSymbol_of_kind hkind]
    rfl
  cases h with
  | @symbol d hd =>
    obtain ⟨hquote, hmark⟩ := of_isSymbol (P := fun d => isQuote d = false ∧ d ≠ '#')
      (by simp [isQuote]) hd
    have hplain : ∀ c ∈ [d], isQuote c = false := by simpa using hquote
    obtain ⟨hall, hafter⟩ := codeFrom_unquoted hplain
    refine ⟨⟨hafter, by simpa [hall] using hmark.symm⟩, fun {c} _ p => ?_⟩
    simp [countCode, hall, Token.isSymbol_ofChars hd, List.count_singleton, List.countP_cons]
  | word hc hcs =>
    obtain ⟨hclosed, hnone⟩ := code_of_plain (List.forall_mem_cons.2
      ⟨.inl (Lexeme.isIdentChar_of_isIdentStart hc), fun c hc => .inl (hcs c hc)⟩)
    exact ⟨hclosed, fun hc p => (hnone hc).trans (hother (by decide)).symm⟩
  | string hquote hcs =>
    obtain ⟨hall, hafter⟩ := codeFrom_string hquote hcs
    refine ⟨⟨hafter, by simp [hall]⟩, fun _ p => ?_⟩
    rw [countCode, hall, hother (by decide)]
    rfl
  | number hcs =>
    obtain ⟨hclosed, hnone⟩ := code_of_plain (Lexeme.isIdentChar_of_spells hcs)
    exact ⟨hclosed, fun hc p => (hnone hc).trans (hother (by decide)).symm⟩

/-- A token does not start with white space, and with a closing brace only if it is one. -/
theorem head_of_shape {kind : TokenKind} {chars : List Char} (h : Shape kind chars) :
    ∃ c cs, chars = c :: cs ∧ isBlank c = false ∧
      (c = '}' → kind = .symbol ∧ cs = []) := by
  have hfirst := h.first? Lexeme.apart_nil
  rw [List.append_nil] at hfirst
  cases chars with
  | nil => cases hfirst
  | cons c cs =>
    refine ⟨c, cs, rfl, Bool.eq_false_iff.2 fun hblank => ?_, ?_⟩
    · rw [Lexeme.first?_of_isBlank hblank] at hfirst
      cases hfirst
    · rintro rfl
      cases hfirst
      exact ⟨rfl, rfl⟩

theorem isSymbol_of_head {kind : TokenKind} {c d : Char} {cs : List Char}
    (h : Shape kind (c :: cs)) (hne : c ≠ d) (p : Position) :
    (Token.ofChars kind (c :: cs) p).isSymbol d = false := by
  by_cases hkind : kind = .symbol
  · subst hkind
    cases h with
    | symbol hc =>
      rw [Token.isSymbol_ofChars hc]
      exact beq_false_of_ne hne
  · exact Token.isSymbol_of_kind hkind _ p d

/-! ## Lines -/

/-- A piece of a line that consists of these tokens, with white space around them. -/
inductive Laid : List Char → List Token → Prop
  | nil : Laid [] []
  | space {c : Char} {cs : List Char} {ts : List Token} (hc : Spot.isSpace c = true)
      (h : Laid cs ts) : Laid (c :: cs) ts
  | token {kind : TokenKind} {chars cs : List Char} {ts : List Token}
      (hshape : Shape kind chars) (p : Position) (h : Laid cs ts) :
      Laid (chars ++ cs) (.ofChars kind chars p :: ts)

theorem closed_space {c : Char} (hc : Spot.isSpace c = true) :
    Closed [c] ∧ ∀ d, isSymbol d = true → countCode [c] d = 0 := by
  have hblank := isBlank_of_isSpace hc
  have hne : ∀ {d : Char}, isBlank d = false → c ≠ d := by
    rintro d hd rfl
    rw [hblank] at hd
    cases hd
  have hquote : ∀ d ∈ [c], isQuote d = false := by
    refine List.forall_mem_singleton.2 (Bool.eq_false_iff.2 fun h => ?_)
    exact of_isQuote (P := (isBlank · ≠ true)) (by decide) (by decide) h hblank
  obtain ⟨hall, hafter⟩ := codeFrom_unquoted hquote
  refine ⟨⟨hafter, by simpa [hall] using (hne rfl).symm⟩, fun d hd => ?_⟩
  obtain ⟨_, _, ⟨rfl, rfl⟩, hsymbol, -⟩ := head_of_shape (.symbol hd)
  rw [countCode, hall, List.count_singleton, if_neg (by simpa using hne hsymbol)]

theorem Closed.countCode_append {cs : List Char} (h : Closed cs) (ds : List Char) (c : Char) :
    countCode (cs ++ ds) c = countCode cs c + countCode ds c := by
  unfold countCode
  rw [h.codeFrom_append, List.count_append]

theorem Laid.countCode_eq {cs : List Char} {ts : List Token} (h : Laid cs ts) {c : Char}
    (hc : isSymbol c = true) : countCode cs c = ts.countP (Token.isSymbol c) := by
  induction h with
  | nil => rfl
  | @space d cs ts hd _ ih =>
    obtain ⟨hclosed, hnone⟩ := closed_space hd
    rw [← List.singleton_append, hclosed.countCode_append, hnone c hc, Nat.zero_add, ih]
  | @token kind chars cs ts hshape p _ ih =>
    obtain ⟨hclosed, hcount⟩ := code_of_shape hshape
    rw [hclosed.countCode_append, hcount hc p, ih, ← List.countP_append, List.singleton_append]

theorem Laid.leadingClosers_eq {cs : List Char} {ts : List Token} (h : Laid cs ts) :
    leadingClosers cs = (ts.takeWhile (Token.isSymbol '}')).length := by
  unfold leadingClosers
  induction h with
  | nil => rfl
  | @space d cs ts hd _ ih =>
    have hblank := isBlank_of_isSpace hd
    have hne : d ≠ '}' := by
      rintro rfl
      cases hblank
    simpa [hblank, hne] using ih
  | @token kind chars cs ts hshape p _ ih =>
    obtain ⟨c, rest, rfl, hblank, hclosing⟩ := head_of_shape hshape
    by_cases hc : c = '}'
    · obtain ⟨rfl, rfl⟩ := hclosing hc
      subst hc
      have hsymbol := Token.isSymbol_ofChars (d := '}') rfl p '}'
      simpa [hsymbol] using ih
    · simp [hblank, hc, isSymbol_of_head hshape hc]

/-- What a line has in front of its comment are its tokens. -/
theorem laid_uncommented {source : String} {p : Place} {cs : List Char} (hline : '\n' ∉ cs)
    (hreads : (TokenStream.ofSpot source ⟨p, cs⟩).stop.error? = none) :
    Laid (uncommented cs) (TokenStream.ofSpot source ⟨p, cs⟩).tokens := by
  -- A whole token is passed at a time, so the induction is on the number of characters left.
  induction hn : cs.length using Nat.strongRecOn generalizing p cs with
  | ind n ih =>
    cases hl : Lexeme.first? cs with
    | some l =>
      have hsplit := (Lexeme.first?_split hl).1
      have hshape := Lexeme.shape_of_first? hl
      rw [TokenStream.ofSpot_lexeme source p hl] at hreads ⊢
      rw [← hsplit, (code_of_shape hshape).1.uncommented_append]
      rw [← hsplit, List.mem_append, not_or] at hline
      exact .token hshape _ (ih _ (hn ▸ Lexeme.length_rest_lt hl) hline.2 hreads rfl)
    | none =>
      cases cs with
      | nil =>
        rw [TokenStream.ofSpot_nil]
        exact .nil
      | cons c cs =>
        rw [List.mem_cons, not_or] at hline
        by_cases hspace : Spot.isSpace c = true
        · rw [TokenStream.ofSpot_space source p hspace] at hreads ⊢
          rw [← List.singleton_append, (closed_space hspace).1.uncommented_append]
          exact .space hspace (ih _ (hn ▸ Nat.lt_succ_self _) hline.2 hreads rfl)
        · by_cases hhash : c = '#'
          · subst hhash
            have hend : ∀ c ∈ ([] : List Char).head?, c = '\n' := by simp
            obtain ⟨q, hq⟩ := TokenStream.ofSpot_comment source p hline.2 hend
            rw [List.append_nil] at hq
            rw [hq, TokenStream.ofSpot_nil]
            exact .nil
          · have hnext := Spot.next_of_none hl (by simpa using hspace) hhash source p
            rw [TokenStream.ofSpot_of_unexpected hnext] at hreads
            cases hreads

/-- What is counted in a line are its tokens: braces by how many more of them open than close,
semicolons, and the closing braces in front. -/
theorem content_of_tokens (source text : String) (hline : '\n' ∉ text.toList)
    (hreads : (TokenStream.ofText source text).stop.error? = none) :
    braceBalance (content text.toList) =
        ((TokenStream.ofText source text).tokens.countP (Token.isSymbol '{') : Int) -
          (TokenStream.ofText source text).tokens.countP (Token.isSymbol '}') ∧
      countCode (content text.toList) ';' =
        (TokenStream.ofText source text).tokens.countP (Token.isSymbol ';') ∧
      leadingClosers (content text.toList) =
        ((TokenStream.ofText source text).tokens.takeWhile (Token.isSymbol '}')).length := by
  have hlaid := laid_uncommented hline hreads
  have hsame := sameCode_uncommented text.toList
  refine ⟨?_, ?_, ?_⟩
  · rw [hsame.braceBalance_eq, braceBalance, hlaid.countCode_eq rfl, hlaid.countCode_eq rfl]
    rfl
  · rw [hsame.count ';' rfl, hlaid.countCode_eq rfl]
    rfl
  · rw [hsame.closers, hlaid.leadingClosers_eq]
    rfl

/-- Closing braces in front, both sorts of quotes with escaped ones and number signs between them,
and quotes and braces in the comment. -/
theorem content_of_tokens_quotes :
    braceBalance (content "\x7d \x7d;'#\\'\x7b\"' \x7b\"\\\";#\"; # \x7d ' \" ;".toList) = -1 ∧
      countCode (content "\x7d \x7d;'#\\'\x7b\"' \x7b\"\\\";#\"; # \x7d ' \" ;".toList) ';' = 2 ∧
      leadingClosers
        (content "\x7d \x7d;'#\\'\x7b\"' \x7b\"\\\";#\"; # \x7d ' \" ;".toList) = 2 := by
  obtain ⟨hbalance, hstatements, hclosers⟩ := content_of_tokens "t"
    "\x7d \x7d;'#\\'\x7b\"' \x7b\"\\\";#\"; # \x7d ' \" ;" (by decide) (by decide +kernel)
  rw [hbalance, hstatements, hclosers]
  decide +kernel

end Style

end PacketSchema
