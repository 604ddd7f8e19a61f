import PacketSchema.Proofs.Declaration.Grammar
import PacketSchema.Proofs.Running

/-! What readers take and return. The tokens that a reader takes stand in front of those that it
leaves, and one token of lookahead tells apart what it may take from what it may not. -/

namespace PacketSchema.TokenStream

/-- From a stream a reader returns a value and leaves another stream. -/
def Returns {α : Type} (x : Reader α) (s : TokenStream) (a : α) (rest : TokenStream) : Prop :=
  x.run s = (.ok a, rest)

def prepend (ts : List Token) (s : TokenStream) : TokenStream := ⟨ts ++ s.tokens, s.stop⟩

@[simp] theorem prepend_nil (s : TokenStream) : s.prepend [] = s := rfl

@[simp] theorem prepend_tokens (s : TokenStream) (ts : List Token) :
    (s.prepend ts).tokens = ts ++ s.tokens := rfl

theorem prepend_cons (s : TokenStream) (t : Token) (ts : List Token) :
    s.prepend (t :: ts) = (s.prepend ts).cons t := rfl

theorem prepend_append (s : TokenStream) (ts us : List Token) :
    s.prepend (ts ++ us) = (s.prepend us).prepend ts := by
  simp [prepend]

theorem prepend_between (s : TokenStream) (t u : Token) (ts : List Token) :
    s.prepend (t :: ts ++ [u]) = ((s.cons u).prepend ts).cons t := by
  rw [List.cons_append, prepend_cons, prepend_append]
  rfl

/-- There is a token at the head, or the text ends. -/
def Readable (s : TokenStream) : Prop := s.tokens = [] → s.stop.error? = none

/-- The position of the token at the head, or of the end of the text. -/
def front (s : TokenStream) : Position :=
  match s.tokens, s.stop with
  | t :: _, _ => t.position
  | [], .finished p | [], .unexpected p _ => p

theorem front_prepend (s : TokenStream) (ts : List Token) :
    (s.prepend ts).front = Grammar.start s.front ts := by
  cases ts with
  | nil => rfl
  | cons t ts => rfl

/-- Where there is a token at the head, it does not have the property. -/
def Lacks (s : TokenStream) (p : Token → Bool) : Prop :=
  s.Readable ∧ ∀ t ts, s.tokens = t :: ts → p t = false

theorem lacks_cons {s : TokenStream} {t : Token} {p : Token → Bool} (h : p t = false) :
    (s.cons t).Lacks p := by
  refine ⟨fun hnil => (List.cons_ne_nil _ _ hnil).elim, fun u us heq => ?_⟩
  cases heq
  exact h

theorem Lacks.of_imp {s : TokenStream} {p q : Token → Bool} (h : s.Lacks p)
    (hpq : ∀ t, q t = true → p t = true) : s.Lacks q := by
  refine ⟨h.1, fun t ts ht => ?_⟩
  have hp := h.2 t ts ht
  cases hq : q t with
  | false => rfl
  | true => rw [hpq t hq] at hp; cases hp

section

variable {α β : Type} {s rest : TokenStream}

theorem returns_bind {x : Reader α} {f : α → Reader β} {b : β} :
    Returns (x >>= f) s b rest ↔ ∃ a mid, Returns x s a mid ∧ Returns (f a) mid b rest := by
  unfold Returns
  rw [run_bind]
  rcases x.run s with ⟨e | a, mid⟩
  · constructor
    · intro h
      cases h
    · rintro ⟨_, _, ⟨⟩, -⟩
  · constructor
    · exact fun h => ⟨a, mid, rfl, h⟩
    · rintro ⟨_, _, ⟨⟩, h⟩
      exact h

theorem returns_pure {a b : α} : Returns (pure a) s b rest ↔ b = a ∧ s = rest := by
  constructor
  · rintro ⟨⟩
    exact ⟨rfl, rfl⟩
  · rintro ⟨rfl, rfl⟩
    rfl

theorem returns_get {a : TokenStream} :
    Returns (get : Reader TokenStream) s a rest ↔ a = s ∧ s = rest := by
  constructor
  · rintro ⟨⟩
    exact ⟨rfl, rfl⟩
  · rintro ⟨rfl, rfl⟩
    rfl

theorem not_returns_throw {e : SchemaError} {a : α} :
    ¬ Returns (throw e : Reader α) s a rest := fun h => nomatch h

theorem returns_peek {o : Option Token} :
    Returns peek s o rest ↔ s.Readable ∧ o = s.tokens.head? ∧ s = rest := by
  obtain ⟨tokens, stop⟩ := s
  cases tokens with
  | cons t ts =>
    constructor
    · rintro ⟨⟩
      exact ⟨fun h => (List.cons_ne_nil _ _ h).elim, rfl, rfl⟩
    · rintro ⟨-, rfl, rfl⟩
      rfl
  | nil =>
    cases stop with
    | finished p =>
      constructor
      · rintro ⟨⟩
        exact ⟨fun _ => rfl, rfl, rfl⟩
      · rintro ⟨-, rfl, rfl⟩
        rfl
    | unexpected p c =>
      constructor
      · intro h
        cases h
      · rintro ⟨h, -⟩
        cases h rfl

theorem returns_drop {u : Unit} : Returns drop s u rest ↔ rest = ⟨s.tokens.tail, s.stop⟩ := by
  constructor
  · rintro ⟨⟩
    rfl
  · rintro rfl
    rfl

theorem returns_position {p : Position} :
    Returns position s p rest ↔ s.Readable ∧ p = s.front ∧ s = rest := by
  unfold position
  rw [returns_bind]
  constructor
  · rintro ⟨o, mid, ho, h⟩
    obtain ⟨hs, rfl, rfl⟩ := returns_peek.1 ho
    obtain ⟨tokens, stop⟩ := s
    cases tokens with
    | cons t ts => exact ⟨hs, returns_pure.1 h⟩
    | nil =>
      obtain ⟨_, _, hget, h⟩ := returns_bind.1 h
      obtain ⟨rfl, rfl⟩ := returns_get.1 hget
      cases stop <;> exact ⟨hs, returns_pure.1 h⟩
  · rintro ⟨hs, rfl, rfl⟩
    refine ⟨_, s, returns_peek.2 ⟨hs, rfl, rfl⟩, ?_⟩
    obtain ⟨tokens, stop⟩ := s
    cases tokens with
    | cons t ts => exact returns_pure.2 ⟨rfl, rfl⟩
    | nil =>
      refine returns_bind.2 ⟨_, _, returns_get.2 ⟨rfl, rfl⟩, ?_⟩
      cases stop <;> exact returns_pure.2 ⟨rfl, rfl⟩

theorem not_returns_refuse {what : Expectation} {a : α} :
    ¬ Returns (refuse what : Reader α) s a rest := by
  intro h
  obtain ⟨_, _, -, hthrow⟩ := returns_bind.1 h
  exact not_returns_throw hthrow

/-- A token is taken if it has the property, and left if it has not. -/
theorem returns_takeIf {p : Token → Bool} {o : Option Token} :
    Returns (takeIf p) s o rest ↔
      (∃ t, p t = true ∧ s = rest.cons t ∧ o = some t) ∨ s.Lacks p ∧ o = none ∧ s = rest := by
  unfold takeIf
  rw [returns_bind]
  obtain ⟨tokens, stop⟩ := s
  constructor
  · rintro ⟨o', mid, ho, h⟩
    obtain ⟨hs, rfl, rfl⟩ := returns_peek.1 ho
    cases tokens with
    | nil =>
      obtain ⟨rfl, rfl⟩ := returns_pure.1 h
      exact .inr ⟨⟨hs, fun _ _ hnil => nomatch hnil⟩, rfl, rfl⟩
    | cons t ts =>
      dsimp only [List.head?_cons] at h
      split at h
      · rename_i hp
        obtain ⟨_, _, hdrop, h⟩ := returns_bind.1 h
        obtain ⟨rfl, rfl⟩ := returns_pure.1 h
        cases returns_drop.1 hdrop
        exact .inl ⟨t, hp, rfl, rfl⟩
      · rename_i hp
        obtain ⟨rfl, rfl⟩ := returns_pure.1 h
        exact .inr ⟨lacks_cons (s := ⟨ts, stop⟩) (Bool.not_eq_true _ ▸ hp), rfl, rfl⟩
  · rintro (⟨t, hp, hs, rfl⟩ | ⟨hlacks, rfl, rfl⟩)
    · cases hs
      refine ⟨some t, _, returns_peek.2 ⟨(List.cons_ne_nil _ _ · |>.elim), rfl, rfl⟩, ?_⟩
      dsimp only
      rw [if_pos hp]
      exact returns_bind.2 ⟨(), rest, returns_drop.2 rfl, returns_pure.2 ⟨rfl, rfl⟩⟩
    · refine ⟨_, _, returns_peek.2 ⟨hlacks.1, rfl, rfl⟩, ?_⟩
      cases tokens with
      | nil => exact returns_pure.2 ⟨rfl, rfl⟩
      | cons t ts =>
        have hp := hlacks.2 t ts rfl
        dsimp only [List.head?_cons]
        rw [hp]
        exact returns_pure.2 ⟨rfl, rfl⟩

theorem returns_accept {text : String} {found : Bool} :
    Returns (accept text) s found rest ↔
      (∃ t, t.Reads text ∧ s = rest.cons t ∧ found = true) ∨
        s.Lacks (·.is text) ∧ found = false ∧ s = rest := by
  unfold accept
  rw [returns_bind]
  constructor
  · rintro ⟨o, mid, ho, h⟩
    obtain ⟨rfl, rfl⟩ := returns_pure.1 h
    obtain ⟨t, ht, hs, rfl⟩ | ⟨hlacks, rfl, hs⟩ := returns_takeIf.1 ho
    · exact .inl ⟨t, Token.is_iff.1 ht, hs, rfl⟩
    · exact .inr ⟨hlacks, rfl, hs⟩
  · rintro (⟨t, ht, hs, rfl⟩ | ⟨hlacks, rfl, hs⟩)
    · exact ⟨some t, rest, returns_takeIf.2 (.inl ⟨t, Token.is_iff.2 ht, hs, rfl⟩),
        returns_pure.2 ⟨rfl, rfl⟩⟩
    · exact ⟨none, rest, returns_takeIf.2 (.inr ⟨hlacks, rfl, hs⟩), returns_pure.2 ⟨rfl, rfl⟩⟩

/-- Going on in one way behind a text, and in another way where it is not. -/
theorem returns_ite {text : String} {x y : Reader α} {a : α} :
    Returns (do if ← accept text then x else y) s a rest ↔
      (∃ t mid, t.Reads text ∧ s = mid.cons t ∧ Returns x mid a rest) ∨
        s.Lacks (·.is text) ∧ Returns y s a rest := by
  rw [returns_bind]
  constructor
  · rintro ⟨found, mid, hfound, h⟩
    obtain ⟨t, ht, hs, rfl⟩ | ⟨hlacks, rfl, rfl⟩ := returns_accept.1 hfound
    · exact .inl ⟨t, mid, ht, hs, h⟩
    · exact .inr ⟨hlacks, h⟩
  · rintro (⟨t, mid, ht, hs, h⟩ | ⟨hlacks, h⟩)
    · exact ⟨true, mid, returns_accept.2 (.inl ⟨t, ht, hs, rfl⟩), h⟩
    · exact ⟨false, s, returns_accept.2 (.inr ⟨hlacks, rfl, rfl⟩), h⟩

theorem returns_expect {text : String} {u : Unit} :
    Returns (expect text) s u rest ↔ ∃ t, t.Reads text ∧ s = rest.cons t := by
  unfold expect
  rw [returns_bind]
  constructor
  · rintro ⟨found, mid, hfound, h⟩
    obtain ⟨t, ht, hs, rfl⟩ | ⟨-, rfl, -⟩ := returns_accept.1 hfound
    · obtain ⟨-, rfl⟩ := returns_pure.1 h
      exact ⟨t, ht, hs⟩
    · exact absurd h not_returns_refuse
  · rintro ⟨t, ht, hs⟩
    exact ⟨true, rest, returns_accept.2 (.inl ⟨t, ht, hs, rfl⟩), returns_pure.2 ⟨rfl, rfl⟩⟩

theorem returns_require {x : Reader (Option α)} {what : Expectation} {a : α} :
    Returns (require what x) s a rest ↔ Returns x s (some a) rest := by
  unfold require
  rw [returns_bind]
  constructor
  · rintro ⟨o, mid, ho, h⟩
    cases o with
    | none => exact absurd h not_returns_refuse
    | some b =>
      obtain ⟨rfl, rfl⟩ := returns_pure.1 h
      exact ho
  · exact fun h => ⟨some a, rest, h, returns_pure.2 ⟨rfl, rfl⟩⟩

theorem returns_ident? {o : Option Ident} :
    Returns ident? s o rest ↔
      (∃ t, t.kind = .ident ∧ s = rest.cons t ∧ o = some t.ident) ∨
        s.Lacks (·.kind == .ident) ∧ o = none ∧ s = rest := by
  unfold ident?
  rw [returns_bind]
  constructor
  · rintro ⟨o', mid, ho, h⟩
    obtain ⟨rfl, rfl⟩ := returns_pure.1 h
    obtain ⟨t, ht, hs, rfl⟩ | ⟨hlacks, rfl, hs⟩ := returns_takeIf.1 ho
    · exact .inl ⟨t, by simpa using ht, hs, rfl⟩
    · exact .inr ⟨hlacks, rfl, hs⟩
  · rintro (⟨t, ht, hs, rfl⟩ | ⟨hlacks, rfl, hs⟩)
    · exact ⟨some t, rest, returns_takeIf.2 (.inl ⟨t, by simpa using ht, hs, rfl⟩),
        returns_pure.2 ⟨rfl, rfl⟩⟩
    · exact ⟨none, rest, returns_takeIf.2 (.inr ⟨hlacks, rfl, hs⟩), returns_pure.2 ⟨rfl, rfl⟩⟩

theorem returns_map {x : Reader (Option α)} {f : α → β} {o : Option β} :
    Returns (do return (← x).map f) s o rest ↔ ∃ o', Returns x s o' rest ∧ o = o'.map f := by
  rw [returns_bind]
  constructor
  · rintro ⟨o', mid, ho, h⟩
    obtain ⟨rfl, rfl⟩ := returns_pure.1 h
    exact ⟨o', ho, rfl⟩
  · rintro ⟨o', ho, rfl⟩
    exact ⟨o', rest, ho, returns_pure.2 ⟨rfl, rfl⟩⟩

theorem returns_between? {x : Reader α} {opening closing : String} {o : Option α} :
    Returns (between? opening closing x) s o rest ↔
      (∃ t u a mid mid', t.Reads opening ∧ u.Reads closing ∧ s = mid.cons t ∧
        Returns x mid a mid' ∧ mid' = rest.cons u ∧ o = some a) ∨
        s.Lacks (·.is opening) ∧ o = none ∧ s = rest := by
  unfold between?
  rw [returns_ite]
  constructor
  · rintro (⟨t, mid, ht, hs, h⟩ | ⟨hlacks, h⟩)
    · obtain ⟨a, mid', ha, h⟩ := returns_bind.1 h
      obtain ⟨_, _, hclosing, h⟩ := returns_bind.1 h
      obtain ⟨rfl, rfl⟩ := returns_pure.1 h
      obtain ⟨u, hu, hmid⟩ := returns_expect.1 hclosing
      exact .inl ⟨t, u, a, mid, mid', ht, hu, hs, ha, hmid, rfl⟩
    · exact .inr ⟨hlacks, returns_pure.1 h⟩
  · rintro (⟨t, u, a, mid, mid', ht, hu, hs, ha, hmid, rfl⟩ | ⟨hlacks, rfl, rfl⟩)
    · exact .inl ⟨t, mid, ht, hs, returns_bind.2 ⟨a, mid', ha, returns_bind.2
        ⟨(), rest, returns_expect.2 ⟨u, hu, hmid⟩, returns_pure.2 ⟨rfl, rfl⟩⟩⟩⟩
    · exact .inr ⟨hlacks, returns_pure.2 ⟨rfl, rfl⟩⟩

end

end PacketSchema.TokenStream
