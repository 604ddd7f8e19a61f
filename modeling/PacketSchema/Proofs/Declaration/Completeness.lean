import PacketSchema.Proofs.Declaration.Returning
import PacketSchema.Proofs.Token.Words

/-! What derives from the grammar is read. The token behind a phrase tells a reader where the phrase
ends, and the fuel is enough as long as it exceeds the number of tokens in the phrase. -/

namespace PacketSchema

namespace Token

variable {t : Token} {text other : String}

theorem Reads.is_eq_false (h : t.Reads text) (hne : text ≠ other) : t.is other = false := by
  simp [is, h.2, hne]

/-- The token of an identifier or a literal is no symbol and no keyword. -/
theorem Proper.is_eq_false (h : t.Proper) (ht : t.kind = .ident ∨ t.isLiteral = true)
    (hmem : text ∈ reserved) : t.is text = false := by
  unfold is
  obtain hk | hliteral := ht
  · have hne : t.text ≠ text := fun heq => h.not_reserved hk (heq ▸ hmem)
    simp [hne]
  · simp [hliteral]

/-- A symbol or a keyword is neither an identifier nor a literal. -/
theorem Proper.not_operand (h : t.Proper) (ht : t.Reads text) (hmem : text ∈ reserved) :
    (t.kind == .ident) = false ∧ t.isLiteral = false := by
  refine ⟨?_, ht.1⟩
  simp only [beq_eq_false_iff_ne]
  exact fun hk => h.not_reserved hk (ht.2 ▸ hmem)

/-- What can stand behind an operand or a type and belong to the same statement. -/
def goesOn (t : Token) : Bool :=
  t.kind == .ident || t.isLiteral || ["\x7b", "(", ".", ":", "=", ","].any t.is

/-- What a statement can start with, or what stands in the place of an empty one. -/
def opensStatement (t : Token) : Bool :=
  t.kind == .ident || t.isLiteral || [";", "variant", "namespace", "type"].any t.is

theorem Proper.goesOn_eq_false (h : t.Proper) (ht : t.Reads text)
    (htext : text ∈ [";", ")", "\x7d"]) : t.goesOn = false := by
  have hreserved : ∀ text ∈ [";", ")", "\x7d"], text ∈ reserved := by decide
  have hother : ∀ text ∈ [";", ")", "\x7d"], ∀ other ∈ ["\x7b", "(", ".", ":", "=", ","],
      text ≠ other := by decide
  obtain ⟨hident, hliteral⟩ := h.not_operand ht (hreserved text htext)
  have hnone : ∀ other ∈ ["\x7b", "(", ".", ":", "=", ","], t.is other = false :=
    fun other hmem => ht.is_eq_false (hother text htext other hmem)
  simpa [goesOn, hident, hliteral] using hnone

theorem Proper.opensStatement_eq_false (h : t.Proper) (ht : t.Reads "\x7d") :
    t.opensStatement = false := by
  obtain ⟨hident, hliteral⟩ := h.not_operand ht (by decide)
  have hother : ∀ other ∈ [";", "variant", "namespace", "type"], "\x7d" ≠ other := by decide
  have hnone : ∀ other ∈ [";", "variant", "namespace", "type"], t.is other = false :=
    fun other hmem => ht.is_eq_false (hother other hmem)
  simpa [opensStatement, hident, hliteral] using hnone

theorem goesOn_of_is (h : t.is text = true)
    (hmem : text ∈ ["\x7b", "(", ".", ":", "=", ","]) : t.goesOn = true := by
  simp only [goesOn, Bool.or_eq_true, List.any_eq_true]
  exact .inr ⟨text, hmem, h⟩

theorem opensStatement_of_is (h : t.is text = true)
    (hmem : text ∈ [";", "variant", "namespace", "type"]) : t.opensStatement = true := by
  simp only [opensStatement, Bool.or_eq_true, List.any_eq_true]
  exact .inr ⟨text, hmem, h⟩

end Token

namespace TokenStream

open Grammar (Tail MoreNames Statements OptionalBlock OptionalType Spec Enclosed Args)

variable {s : TokenStream} {fuel : Nat}

theorem Lacks.readable_prepend {p : Token → Bool} (h : s.Lacks p) (ts : List Token) :
    (s.prepend ts).Readable := fun hnil => h.1 (List.append_eq_nil_iff.1 hnil).2

theorem lacks_head (p : Token → Bool) {t : Token} (h : p t = false) (ts : List Token) :
    (s.prepend (t :: ts)).Lacks p :=
  lacks_cons (s := s.prepend ts) h

/-- The head is a token with another text. -/
theorem lacks_text {t : Token} {text other : String} (h : t.Reads text) (hne : text ≠ other)
    (ts : List Token) : (s.prepend (t :: ts)).Lacks (·.is other) :=
  lacks_head _ (h.is_eq_false hne) ts

theorem returns_skip {α : Type} {x y : Reader α} {a : α} {rest : TokenStream} {text : String}
    (hs : s.Lacks (·.is text)) (h : Returns y s a rest) :
    Returns (do if ← accept text then x else y) s a rest :=
  returns_ite.2 (.inr ⟨hs, h⟩)

/-- Tokens of a text, the numbers of which are in range. -/
def Sane (ts : List Token) : Prop := ∀ t ∈ ts, t.Proper ∧ t.InRange

theorem Sane.cons {t : Token} {ts : List Token} (h : Sane (t :: ts)) :
    t.Proper ∧ Sane ts :=
  ⟨(h t List.mem_cons_self).1, fun u hu => h u (.tail _ hu)⟩

theorem Sane.append {ts us : List Token} (h : Sane (ts ++ us)) : Sane ts ∧ Sane us :=
  List.forall_mem_append.1 h

/-! ## Operands and names -/

theorem returns_identifier {t : Token} (ht : t.kind = .ident) (what : Expectation)
    (ts : List Token) :
    Returns (require what ident?) (s.prepend (t :: ts)) t.ident (s.prepend ts) :=
  returns_require.2 (returns_ident?.2 (.inl ⟨t, ht, rfl, rfl⟩))

theorem returns_nameTail {ts : List Token} {names : List String} (h : Tail ts names)
    (hs : s.Lacks (·.is ".")) (hfuel : ts.length < fuel) :
    Returns (nameTail fuel) (s.prepend ts) names s := by
  induction h generalizing fuel with
  | nil =>
    obtain ⟨fuel, rfl⟩ := Nat.exists_eq_add_of_lt hfuel
    exact returns_skip hs (returns_pure.2 ⟨rfl, rfl⟩)
  | @cons dot t ts names hdot ht h ih =>
    cases fuel with
    | zero => exact absurd hfuel (Nat.not_lt_zero _)
    | succ fuel =>
      refine returns_ite.2 (.inl ⟨dot, s.prepend (t :: ts), hdot, rfl, ?_⟩)
      refine returns_bind.2 ⟨t.ident, s.prepend ts, returns_identifier ht _ ts, ?_⟩
      simp only [List.length_cons] at hfuel
      exact returns_bind.2 ⟨names, s, ih (by omega), returns_pure.2 ⟨rfl, rfl⟩⟩

theorem returns_ident?_none (hs : s.Lacks (·.kind == .ident)) : Returns ident? s none s :=
  returns_ident?.2 (.inr ⟨hs, rfl, rfl⟩)

theorem returns_name?_none (hs : s.Lacks (·.kind == .ident)) : Returns name? s none s :=
  returns_bind.2 ⟨none, s, returns_ident?_none hs, returns_pure.2 ⟨rfl, rfl⟩⟩

theorem returns_operand?_none (hs : s.Lacks fun t => t.kind == .ident || t.isLiteral) :
    Returns operand? s none s := by
  have hident := hs.of_imp (q := (·.kind == .ident)) fun t ht => by simp [ht]
  have hliteral := hs.of_imp (q := (·.isLiteral)) fun t ht => by simp [ht]
  refine returns_bind.2 ⟨none, s, returns_name?_none hident, returns_map.2 ⟨none, ?_, rfl⟩⟩
  exact returns_bind.2 ⟨none, s, returns_takeIf.2 (.inr ⟨hliteral, rfl, rfl⟩),
    returns_pure.2 ⟨rfl, rfl⟩⟩

theorem returns_literal {t : Token} {l : Literal} (ht : t.isLiteral = true)
    (hl : Literal.ofToken t.kind t.text t.position = .ok l) :
    Returns operand? (s.cons t) (some (.value ⟨l, t.text, t.position⟩)) s := by
  have hident : (s.cons t).Lacks (·.kind == .ident) := by
    apply lacks_cons
    cases hk : t.kind <;> simp [Token.isLiteral, hk, TokenKind.isLiteral] at ht ⊢
  refine returns_bind.2 ⟨none, s.cons t, returns_name?_none hident, returns_map.2
    ⟨some ⟨l, t.text, t.position⟩, ?_, rfl⟩⟩
  refine returns_bind.2 ⟨some t, s, returns_takeIf.2 (.inl ⟨t, ht, rfl, rfl⟩), ?_⟩
  refine returns_bind.2 ⟨l, s, ?_, returns_pure.2 ⟨rfl, rfl⟩⟩
  rw [hl]
  rfl

theorem returns_operand? {ts : List Token} {o : Operand} (h : Grammar.Operand ts o)
    (hts : Sane ts) (hs : s.Lacks (·.is ".")) : Returns operand? (s.prepend ts) (some o) s := by
  cases h with
  | @name t ts names ht h =>
    refine returns_bind.2 ⟨some ⟨t.ident, names⟩, s, ?_, returns_pure.2 ⟨rfl, rfl⟩⟩
    refine returns_bind.2 ⟨some t.ident, s.prepend ts, ?_, ?_⟩
    · exact returns_ident?.2 (.inl ⟨t, ht, rfl, rfl⟩)
    · refine returns_bind.2 ⟨_, _, returns_get.2 ⟨rfl, rfl⟩, ?_⟩
      refine returns_bind.2 ⟨names, s, returns_nameTail h hs ?_, returns_pure.2 ⟨rfl, rfl⟩⟩
      rw [prepend_tokens, List.length_append]
      omega
  | @number t n ht hn =>
    have hrange := (hts t List.mem_cons_self).2 ht n hn
    have hnumber : Literal.number? t.text.toList = some n :=
      Option.filter_eq_some_iff.2 ⟨hn, decide_eq_true hrange⟩
    refine returns_literal (by simp [Token.isLiteral, ht, TokenKind.isLiteral]) ?_
    simp [Literal.ofToken, ht, hnumber]
  | @string t ht =>
    refine returns_literal (by simp [Token.isLiteral, ht, TokenKind.isLiteral]) ?_
    simp [Literal.ofToken, ht]

theorem returns_moreNames {ts : List Token} {names : List Ident} {colon : Token}
    (h : MoreNames ts names) (hcolon : colon.Reads ":") (hfuel : ts.length < fuel) :
    Returns (moreNames fuel) ((s.cons colon).prepend ts) names s := by
  induction h generalizing fuel with
  | nil =>
    obtain ⟨fuel, rfl⟩ := Nat.exists_eq_add_of_lt hfuel
    exact returns_ite.2 (.inl ⟨colon, s, hcolon, rfl, returns_pure.2 ⟨rfl, rfl⟩⟩)
  | @cons comma t ts names hcomma ht h ih =>
    cases fuel with
    | zero => exact absurd hfuel (Nat.not_lt_zero _)
    | succ fuel =>
      refine returns_skip (lacks_text hcomma (by decide) _) ?_
      refine returns_ite.2 (.inl ⟨comma, (s.cons colon).prepend (t :: ts), hcomma, rfl, ?_⟩)
      refine returns_bind.2 ⟨t.ident, (s.cons colon).prepend ts, returns_identifier ht _ ts, ?_⟩
      simp only [List.length_cons] at hfuel
      exact returns_bind.2 ⟨names, s, ih (by omega), returns_pure.2 ⟨rfl, rfl⟩⟩

/-- Behind a name there is a comma or a colon. -/
theorem lacks_moreNames {ts : List Token} {names : List Ident} {colon : Token} {text : String}
    (h : MoreNames ts names) (hcolon : colon.Reads ":") (hne : ":" ≠ text)
    (hne' : "," ≠ text) : ((s.cons colon).prepend ts).Lacks (·.is text) := by
  cases h with
  | nil => exact lacks_text (s := s) hcolon hne []
  | cons hcomma _ _ => exact lacks_text hcomma hne' _

/-! ## Declarations -/

/-- A reader returns what derives from fewer tokens than it has fuel, up to a token that does not
belong to it. -/
def Completes {α : Type} (fuel : Nat) (G : List Token → α → Prop) (more : Token → Bool)
    (x : Reader α) : Prop :=
  ∀ ts a s, G ts a → Sane ts → s.Lacks more → ts.length < fuel → Returns x (s.prepend ts) a s

/-- What an optional phrase derives, if it is there. -/
def Present {α : Type} (G : List Token → α → Prop) (ts : List Token) (o : Option α) : Prop :=
  ∃ a, o = some a ∧ G ts a

section

variable {statements : Reader (List Statement)} {type? : Reader (Option TypeExpr)}

theorem returns_bodyOf (hstatements : Completes fuel Statements Token.opensStatement statements)
    {ts : List Token} {b : Body} (h : Grammar.Body s.front ts b) (hts : Sane ts)
    (hs : s.Lacks Token.opensStatement) (hfuel : ts.length < fuel) :
    Returns (bodyOf statements) (s.prepend ts) b s := by
  cases h with
  | @mk _ _ ss h =>
    refine returns_bind.2 ⟨_, _, returns_position.2 ⟨hs.readable_prepend ts, rfl, rfl⟩, ?_⟩
    rw [front_prepend]
    exact returns_bind.2 ⟨ss, _, hstatements ts ss s h hts hs hfuel, returns_pure.2 ⟨rfl, rfl⟩⟩

theorem block?_completes (hstatements : Completes fuel Statements Token.opensStatement statements) :
    Completes (fuel + 1) (Present Grammar.Block) (fun _ => false) (block? statements) := by
  rintro _ _ s ⟨b, rfl, h⟩ hts hs hfuel
  cases h with
  | @mk opening closing ts b hopening h hclosing =>
    obtain ⟨htokens, hlast⟩ := hts.cons.2.append
    have hclosed := (hlast.cons).1.opensStatement_eq_false hclosing
    simp only [List.length_append, List.length_cons, List.length_nil] at hfuel
    rw [prepend_between]
    exact returns_between?.2 (.inl ⟨opening, closing, b, _, _, hopening, hclosing, rfl,
      returns_bodyOf hstatements h htokens (lacks_cons hclosed) (by omega), rfl, rfl⟩)

theorem returns_block?_none (hs : s.Lacks (·.is "\x7b")) : Returns (block? statements) s none s :=
  returns_between?.2 (.inr ⟨hs, rfl, rfl⟩)

theorem optionalBlock_completes
    (hstatements : Completes fuel Statements Token.opensStatement statements) :
    Completes (fuel + 1) OptionalBlock (·.is "\x7b") (block? statements) := by
  intro ts o s h hts hs hfuel
  cases h with
  | none => exact returns_block?_none hs
  | some h =>
    exact block?_completes hstatements ts _ s ⟨_, rfl, h⟩ hts (hs.of_imp fun _ h => nomatch h) hfuel

theorem enclosed?_completes
    (hstatements : Completes fuel Statements Token.opensStatement statements)
    (htype : Completes fuel (Present Spec) Token.goesOn type?) :
    Completes (fuel + 1) (Present Enclosed) (fun _ => false) (enclosed? statements type?) := by
  rintro _ _ s ⟨e, rfl, h⟩ hts hs hfuel
  cases h with
  | @parentheses opening closing ts _ hopening h hclosing =>
    obtain ⟨htokens, hlast⟩ := hts.cons.2.append
    have hclosed := (hlast.cons).1.goesOn_eq_false hclosing (by decide)
    simp only [List.length_append, List.length_cons, List.length_nil] at hfuel
    rw [prepend_between]
    refine returns_bind.2 ⟨some e, s, returns_between?.2 (.inl ⟨opening, closing, e, _, _, hopening,
      hclosing, rfl, returns_require.2 ?_, rfl, rfl⟩), returns_pure.2 ⟨rfl, rfl⟩⟩
    exact htype ts _ _ ⟨e, rfl, h⟩ htokens (lacks_cons hclosed) (by omega)
  | @block ts b h =>
    obtain ⟨t, us, rfl, ht⟩ := h.first
    refine returns_bind.2 ⟨none, _, returns_between?.2 (.inr ⟨?_, rfl, rfl⟩), ?_⟩
    · exact lacks_text ht (by decide) _
    · exact returns_map.2 ⟨some b, block?_completes hstatements _ _ s ⟨b, rfl, h⟩ hts hs hfuel, rfl⟩

theorem returns_enclosed?_none (hs : s.Lacks fun t => t.is "\x7b" || t.is "(") :
    Returns (enclosed? statements type?) s none s := by
  have hbrace := hs.of_imp (q := (·.is "\x7b")) fun t ht => by simp [ht]
  have hparenthesis := hs.of_imp (q := (·.is "(")) fun t ht => by simp [ht]
  exact returns_bind.2 ⟨none, s, returns_between?.2 (.inr ⟨hparenthesis, rfl, rfl⟩),
    returns_map.2 ⟨none, returns_block?_none hbrace, rfl⟩⟩

/-- An operand is not enclosed. -/
theorem returns_enclosed?_operand {ts : List Token} {o : Operand} (h : Grammar.Operand ts o)
    (hts : Sane ts) :
    Returns (enclosed? statements type?) (s.prepend ts) none (s.prepend ts) := by
  obtain ⟨t, us, rfl, ht⟩ := h.first
  refine returns_enclosed?_none (lacks_head _ ?_ _)
  rw [hts.cons.1.is_eq_false ht (by decide), hts.cons.1.is_eq_false ht (by decide)]
  rfl

theorem typeOrBlock?_completes
    (hstatements : Completes fuel Statements Token.opensStatement statements)
    (htype : Completes fuel (Present Spec) Token.goesOn type?) :
    Completes (fuel + 1) OptionalType Token.goesOn (typeOrBlock? (block? statements) type?) := by
  intro ts o s h hts hs hfuel
  cases h with
  | none =>
    refine returns_skip (hs.of_imp fun t ht => Token.goesOn_of_is ht (by decide)) ?_
    exact returns_map.2 ⟨none, returns_block?_none
      (hs.of_imp fun t ht => Token.goesOn_of_is ht (by decide)), rfl⟩
  | @spec colon ts e hcolon h =>
    refine returns_ite.2 (.inl ⟨colon, s.prepend ts, hcolon, rfl, ?_⟩)
    refine returns_bind.2 ⟨e, s, returns_require.2 ?_, returns_pure.2 ⟨rfl, rfl⟩⟩
    exact htype ts _ s ⟨e, rfl, h⟩ hts.cons.2 hs (by simpa using hfuel)
  | @block ts b h =>
    obtain ⟨t, us, rfl, ht⟩ := h.first
    refine returns_skip (lacks_text ht (by decide) _) ?_
    exact returns_map.2 ⟨some b, block?_completes hstatements _ _ s ⟨b, rfl, h⟩ hts
      (hs.of_imp fun _ h => nomatch h) hfuel, rfl⟩

theorem returns_constraint {us : List Token} {equals : Token} {left right : Operand}
    (p : Position) (hequals : equals.Reads "=") (h : Grammar.Operand us right)
    (hus : Sane us) (hs : s.Lacks (·.is ".")) :
    Returns (fieldsOrConstraint p left type?) (s.prepend (equals :: us))
      (.constraint p left right) s := by
  refine returns_ite.2 (.inl ⟨equals, s.prepend us, hequals, rfl, ?_⟩)
  exact returns_bind.2 ⟨right, s, returns_require.2 (returns_operand? h hus hs),
    returns_pure.2 ⟨rfl, rfl⟩⟩

theorem returns_fields (htype : Completes fuel (Present Spec) Token.goesOn type?)
    {ts us : List Token} {names : List Ident} {colon : Token} {e : TypeExpr} (p : Position)
    (first : Ident) (hnames : MoreNames ts names) (hcolon : colon.Reads ":") (h : Spec us e)
    (hus : Sane us) (hs : s.Lacks Token.goesOn) (hfuel : us.length < fuel) :
    Returns (fieldsOrConstraint p (.name ⟨first, []⟩) type?)
      (((s.prepend us).cons colon).prepend ts) (.fields p (first :: names) e) s := by
  refine returns_skip (lacks_moreNames hnames hcolon (by decide) (by decide)) ?_
  refine returns_bind.2 ⟨_, _, returns_get.2 ⟨rfl, rfl⟩, ?_⟩
  refine returns_bind.2 ⟨names, s.prepend us, returns_moreNames hnames hcolon ?_, ?_⟩
  · rw [prepend_tokens, List.length_append]
    omega
  · exact returns_bind.2 ⟨e, s, returns_require.2 (htype us _ s ⟨e, rfl, h⟩ hus hs hfuel),
      returns_pure.2 ⟨rfl, rfl⟩⟩

/-- What starts with an operand starts with no keyword, and goes on behind the operand. -/
theorem returns_statement?_operand {block? : Reader (Option Body)} {rest : TokenStream} {t : Token}
    {ts : List Token} {left : Operand} {st : Statement} (h : Grammar.Operand (t :: ts) left)
    (hts : Sane (t :: ts)) (hs : s.Lacks (·.is "."))
    (hrest : Returns (fieldsOrConstraint t.position left type?) s st rest) :
    Returns (statement? block? type?) (s.prepend (t :: ts)) (some st) rest := by
  have hno : ∀ text ∈ Token.reserved, (s.prepend (t :: ts)).Lacks (·.is text) := by
    intro text hmem
    obtain ⟨u, us, heq, ht⟩ := h.first
    cases heq
    exact lacks_head _ (hts.cons.1.is_eq_false ht hmem) ts
  refine returns_bind.2 ⟨_, _, returns_position.2 ⟨hs.readable_prepend _, rfl, rfl⟩, ?_⟩
  refine returns_skip (hno _ (by decide)) (returns_skip (hno _ (by decide))
    (returns_skip (hno _ (by decide)) ?_))
  refine returns_bind.2 ⟨some left, s, returns_operand? h hts hs, ?_⟩
  exact returns_bind.2 ⟨st, rest, hrest, returns_pure.2 ⟨rfl, rfl⟩⟩

/-- The keywords of the statements are told apart one after the other. -/
theorem statement?_completes
    (hstatements : Completes fuel Statements Token.opensStatement statements)
    (htype : Completes fuel (Present Spec) Token.goesOn type?) :
    Completes (fuel + 1) (Present Grammar.Statement) Token.goesOn
      (statement? (block? statements) type?) := by
  rintro ts _ s ⟨st, rfl, h⟩ hts hs hfuel
  have hblock : s.Lacks (·.is "\x7b") :=
    hs.of_imp fun t ht => Token.goesOn_of_is ht (by decide)
  have hposition := returns_position.2 ⟨hs.readable_prepend ts, rfl, rfl⟩
  cases h with
  | @space t i ts body ht hi h =>
    simp only [List.length_cons] at hfuel
    refine returns_bind.2 ⟨_, _, hposition, returns_skip (lacks_text ht (by decide) _) ?_⟩
    refine returns_ite.2 (.inl ⟨t, s.prepend (i :: ts), ht, rfl, ?_⟩)
    refine returns_bind.2 ⟨i.ident, s.prepend ts, returns_identifier hi _ ts, ?_⟩
    exact returns_bind.2 ⟨body, s, optionalBlock_completes hstatements ts _ s h hts.cons.2.cons.2
      hblock (by omega), returns_pure.2 ⟨rfl, rfl⟩⟩
  | @type t i ts e ht hi h =>
    simp only [List.length_cons] at hfuel
    refine returns_bind.2 ⟨_, _, hposition, returns_skip (lacks_text ht (by decide) _) ?_⟩
    refine returns_skip (lacks_text ht (by decide) _) ?_
    refine returns_ite.2 (.inl ⟨t, s.prepend (i :: ts), ht, rfl, ?_⟩)
    refine returns_bind.2 ⟨i.ident, s.prepend ts, returns_identifier hi _ ts, ?_⟩
    exact returns_bind.2 ⟨e, s, typeOrBlock?_completes hstatements htype ts _ s h hts.cons.2.cons.2
      hs (by omega), returns_pure.2 ⟨rfl, rfl⟩⟩
  | @variant t i ts body ht hi h =>
    simp only [List.length_cons] at hfuel
    refine returns_bind.2 ⟨_, _, hposition, ?_⟩
    refine returns_ite.2 (.inl ⟨t, s.prepend (i :: ts), ht, rfl, ?_⟩)
    refine returns_bind.2 ⟨some i.ident, s.prepend ts,
      returns_ident?.2 (.inl ⟨i, hi, rfl, rfl⟩), ?_⟩
    exact returns_bind.2 ⟨body, s, optionalBlock_completes hstatements ts _ s h hts.cons.2.cons.2
      hblock (by omega), returns_pure.2 ⟨rfl, rfl⟩⟩
  | @proxy t ts body ht h =>
    simp only [List.length_cons] at hfuel
    refine returns_bind.2 ⟨_, _, hposition, ?_⟩
    refine returns_ite.2 (.inl ⟨t, s.prepend ts, ht, rfl, ?_⟩)
    refine returns_bind.2 ⟨none, s.prepend ts, returns_ident?_none ?_, ?_⟩
    · cases h with
      | none => exact hs.of_imp fun t ht => by simp [Token.goesOn, ht]
      | some h =>
        obtain ⟨u, us, rfl, hu⟩ := h.first
        exact lacks_head _ (hts.cons.2.cons.1.not_operand hu (by decide)).1 _
    · exact returns_bind.2 ⟨body, s, optionalBlock_completes hstatements ts _ s h hts.cons.2
        hblock (by omega), returns_pure.2 ⟨rfl, rfl⟩⟩
  | @constraint t equals ts us left right hleft hequals hright =>
    obtain ⟨htokens, hrest⟩ := hts.append
    have hdot : s.Lacks (·.is ".") := hs.of_imp fun t ht => Token.goesOn_of_is ht (by decide)
    rw [prepend_append]
    exact returns_statement?_operand hleft htokens (lacks_text hequals (by decide) us)
      (returns_constraint _ hequals hright hrest.cons.2 hdot)
  | @fields t colon ts us names e ht hnames hcolon h =>
    obtain ⟨htokens, hrest⟩ := hts.append
    have hoperand : Grammar.Operand [t] (.name ⟨t.ident, []⟩) := .name ht .nil
    have hfirst : Sane [t] := fun u hu => htokens u (List.mem_singleton.1 hu ▸ .head _)
    have hdot : (((s.prepend us).cons colon).prepend ts).Lacks (·.is ".") :=
      lacks_moreNames hnames hcolon (by decide) (by decide)
    simp only [List.length_append, List.length_cons] at hfuel
    rw [show t :: ts ++ colon :: us = [t] ++ (ts ++ colon :: us) from rfl, prepend_append,
      prepend_append]
    have hfields := returns_fields htype t.position t.ident hnames hcolon h hrest.cons.2 hs
      (by omega)
    exact returns_statement?_operand hoperand hfirst hdot hfields

theorem returns_statement?_none {block? : Reader (Option Body)}
    (hs : s.Lacks Token.opensStatement) : Returns (statement? block? type?) s none s := by
  have hno : ∀ text ∈ [";", "variant", "namespace", "type"], s.Lacks (·.is text) :=
    fun text hmem => hs.of_imp fun t ht => Token.opensStatement_of_is ht hmem
  refine returns_bind.2 ⟨_, s, returns_position.2 ⟨hs.1, rfl, rfl⟩, ?_⟩
  refine returns_skip (hno _ (by decide)) (returns_skip (hno _ (by decide))
    (returns_skip (hno _ (by decide)) ?_))
  refine returns_bind.2 ⟨none, s, returns_operand?_none ?_, returns_pure.2 ⟨rfl, rfl⟩⟩
  exact hs.of_imp fun t ht => by
    simp only [Token.opensStatement, Bool.or_eq_true] at ht ⊢
    exact .inl ht

/-- A statement is read up to the semicolon that ends it, and is not taken for an empty one. -/
theorem returns_statement?_ended
    (hstatements : Completes fuel Statements Token.opensStatement statements)
    (htype : Completes fuel (Present Spec) Token.goesOn type?) {ts us : List Token}
    {semicolon : Token} {st : Statement} (hst : Grammar.Statement ts st)
    (hsemicolon : semicolon.Reads ";") (hts : Sane (ts ++ semicolon :: us))
    (hfuel : ts.length < fuel + 1) :
    (s.prepend (ts ++ semicolon :: us)).Lacks (·.is ";") ∧
      Returns (statement? (block? statements) type?) (s.prepend (ts ++ semicolon :: us)) (some st)
        (s.prepend (semicolon :: us)) := by
  obtain ⟨htokens, hrest⟩ := hts.append
  obtain ⟨t, vs, rfl, ht⟩ := hst.first
  have hfirst : t.is ";" = false := by
    obtain hident | hliteral | ⟨text, hmem, htext⟩ := ht
    · exact htokens.cons.1.is_eq_false (.inl hident) (by decide)
    · exact htokens.cons.1.is_eq_false (.inr hliteral) (by decide)
    · refine htext.is_eq_false fun heq => ?_
      subst heq
      revert hmem
      decide
  refine ⟨lacks_head _ hfirst _, ?_⟩
  rw [prepend_append]
  refine statement?_completes hstatements htype _ _ _ ⟨st, rfl, hst⟩ htokens (lacks_head _ ?_ us)
    hfuel
  exact hrest.cons.1.goesOn_eq_false hsemicolon (by decide)

end

/-- Behind an operand of a type there is no dot. -/
theorem Lacks.dot_prepend_args {us : List Token} {args : List TypeArg} (hs : s.Lacks Token.goesOn)
    (h : Args us args) (hus : Sane us) : (s.prepend us).Lacks (·.is ".") := by
  cases h with
  | nil => exact hs.of_imp fun t ht => Token.goesOn_of_is ht (by decide)
  | operand ha _ =>
    obtain ⟨t, vs, rfl, ht⟩ := ha.first
    exact lacks_head _ (hus.cons.1.is_eq_false ht (by decide)) _
  | enclosed he _ =>
    obtain ⟨t, vs, rfl, ht | ht⟩ := he.first
    · exact lacks_text ht (by decide) _
    · exact lacks_text ht (by decide) _

mutual

theorem statements_completes (fuel : Nat) :
    Completes fuel Statements Token.opensStatement (statements fuel) := by
  intro ts ss s h hts hs hfuel
  cases fuel with
  | zero => exact absurd hfuel (Nat.not_lt_zero _)
  | succ fuel =>
    cases h with
    | nil =>
      refine returns_skip (hs.of_imp fun t ht => Token.opensStatement_of_is ht (by decide)) ?_
      exact returns_bind.2 ⟨none, s, returns_statement?_none hs, returns_pure.2 ⟨rfl, rfl⟩⟩
    | @skip semicolon ts _ hsemicolon h =>
      refine returns_ite.2 (.inl ⟨semicolon, s.prepend ts, hsemicolon, rfl, ?_⟩)
      exact statements_completes fuel ts ss s h hts.cons.2 hs (by simpa using hfuel)
    | @cons ts us semicolon st ss hst hsemicolon h =>
      have hrest := hts.append.2.cons.2
      simp only [List.length_append, List.length_cons] at hfuel
      obtain ⟨hfirst, hstatement⟩ := returns_statement?_ended (s := s)
        (statements_completes fuel) (type?_completes fuel) hst hsemicolon hts (by omega)
      refine returns_skip hfirst (returns_bind.2 ⟨some st, _, hstatement, ?_⟩)
      refine returns_bind.2 ⟨(), s.prepend us, returns_expect.2 ⟨semicolon, hsemicolon, rfl⟩, ?_⟩
      exact returns_bind.2 ⟨ss, s, statements_completes fuel us ss s h hrest hs (by omega),
        returns_pure.2 ⟨rfl, rfl⟩⟩

theorem type?_completes (fuel : Nat) :
    Completes fuel (Present Spec) Token.goesOn (type? fuel) := by
  rintro ts _ s ⟨e, rfl, h⟩ hts hs hfuel
  cases fuel with
  | zero => exact absurd hfuel (Nat.not_lt_zero _)
  | succ fuel =>
    refine returns_bind.2 ⟨_, _, returns_position.2 ⟨hs.readable_prepend ts, rfl, rfl⟩, ?_⟩
    cases h with
    | enclosed h =>
      refine returns_bind.2 ⟨some e, s, ?_, returns_pure.2 ⟨rfl, rfl⟩⟩
      exact enclosed?_completes (statements_completes fuel) (type?_completes fuel) ts _ s
        ⟨e, rfl, h⟩ hts (hs.of_imp fun _ h => nomatch h) hfuel
    | @application t ts us head args hhead hargs =>
      obtain ⟨htokens, hrest⟩ := hts.append
      simp only [List.length_append, List.length_cons] at hfuel
      rw [prepend_append]
      refine returns_bind.2 ⟨none, _, returns_enclosed?_operand hhead htokens, ?_⟩
      refine returns_bind.2 ⟨some head, s.prepend us, returns_operand? hhead htokens
        (hs.dot_prepend_args hargs hrest), ?_⟩
      exact returns_bind.2 ⟨args, s, typeArgs_completes fuel us args s hargs hrest hs (by omega),
        returns_pure.2 ⟨rfl, rfl⟩⟩

theorem typeArgs_completes (fuel : Nat) :
    Completes fuel Args Token.goesOn (typeArgs fuel) := by
  intro ts args s h hts hs hfuel
  cases fuel with
  | zero => exact absurd hfuel (Nat.not_lt_zero _)
  | succ fuel =>
    cases h with
    | nil =>
      have hbrace := hs.of_imp (q := fun t => t.is "\x7b" || t.is "(") fun t ht => by
        obtain ht | ht := Bool.or_eq_true _ _ ▸ ht
        · exact Token.goesOn_of_is ht (by decide)
        · exact Token.goesOn_of_is ht (by decide)
      refine returns_bind.2 ⟨none, s, returns_enclosed?_none hbrace, ?_⟩
      refine returns_bind.2 ⟨none, s, returns_operand?_none ?_, returns_pure.2 ⟨rfl, rfl⟩⟩
      exact hs.of_imp fun t ht => by
        simp only [Token.goesOn, Bool.or_eq_true] at ht ⊢
        exact .inl ht
    | @operand ts us a args ha h =>
      obtain ⟨htokens, hrest⟩ := hts.append
      obtain ⟨t, vs, heq, -⟩ := ha.first
      simp only [heq, List.length_append, List.length_cons] at hfuel
      rw [prepend_append]
      refine returns_bind.2 ⟨none, _, returns_enclosed?_operand ha htokens, ?_⟩
      refine returns_bind.2 ⟨some a, s.prepend us, returns_operand? ha htokens
        (hs.dot_prepend_args h hrest), ?_⟩
      exact returns_bind.2 ⟨args, s, typeArgs_completes fuel us args s h hrest hs (by omega),
        returns_pure.2 ⟨rfl, rfl⟩⟩
    | @enclosed ts us e args he h =>
      obtain ⟨htokens, hrest⟩ := hts.append
      obtain ⟨t, vs, heq, -⟩ := he.first
      have hlt : ts.length < fuel + 1 ∧ us.length < fuel := by
        simp only [heq, List.length_append, List.length_cons] at hfuel ⊢
        omega
      rw [prepend_append]
      refine returns_bind.2 ⟨some e, s.prepend us, ?_, ?_⟩
      · exact enclosed?_completes (statements_completes fuel) (type?_completes fuel) ts _ _
          ⟨e, rfl, he⟩ htokens ⟨hs.readable_prepend us, fun _ _ _ => rfl⟩ hlt.1
      · exact returns_bind.2 ⟨args, s, typeArgs_completes fuel us args s h hrest hs hlt.2,
          returns_pure.2 ⟨rfl, rfl⟩⟩

end

end TokenStream

end PacketSchema
