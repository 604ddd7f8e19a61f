import PacketSchema.Proofs.Declaration.Returning
import PacketSchema.Proofs.Token.Calls
import PacketSchema.Proofs.Token.Reflow

/-! Reading from a text is reading from a list. A cursor finds tokens only when it is asked for them
and forgets them again. Its answers are those of a cursor on the list of all tokens of the text,
with the end of the text or the error behind them. -/

namespace PacketSchema

open Cursor

/-- The end of a text that has been given up where it stops. -/
def Stop.givenUp : Stop → Stop
  | finished p | unexpected p _ => finished p

/-- A cursor on a list of tokens. -/
structure Tape where
  stream : TokenStream
  /-- How many tokens have been consumed. -/
  index : Nat := 0
  /-- Whether an iteration has given up at the error behind the tokens. -/
  closed : Bool := false

namespace Tape

/-- What is still to come. -/
def rest (t : Tape) : TokenStream :=
  ⟨t.stream.tokens.drop t.index, if t.closed then t.stream.stop.givenUp else t.stream.stop⟩

/-- The outcome of a call and the tape that it leaves. The tape moves on with a token that is
consumed. At the end and at an error it stays where it is. -/
def perform (t : Tape) (x : Call) : Except SchemaError Answer × Tape :=
  if x = .restart then (.ok .done, { t with index := 0, closed := false })
  else
    match t.rest with
    | ⟨token :: _, _⟩ =>
      (x.answer (some token) token.position,
        if x.consumes token then { t with index := t.index + 1 } else t)
    | ⟨[], .finished p⟩ => (x.answer none p, t)
    | ⟨[], .unexpected p c⟩ =>
      (.error (.lexical p (.unexpected c)), if x = .next then { t with closed := true } else t)

def outcomes (t : Tape) : List Call → List (Except SchemaError Answer)
  | [] => []
  | x :: rest => (t.perform x).1 :: (t.perform x).2.outcomes rest

end Tape

namespace Cursor

/-- An iteration over what is left gives these tokens and then ends or fails as told. -/
inductive Iterates : Cursor → TokenStream → Prop
  | token {c c' : Cursor} {t : Token} {s : TokenStream}
      (h : c.perform .next = (.ok (.token (some t)), c')) (hrest : c'.Iterates s) :
      Iterates c (s.cons t)
  | finish {c c' : Cursor} (h : c.perform .next = (.ok (.token none), c')) :
      Iterates c ⟨[], .finished c'.here⟩
  | fails {c c' : Cursor} {e : SchemaError} {stop : Stop} (h : c.perform .next = (.error e, c'))
      (hstop : stop.error? = some e) : Iterates c ⟨[], stop⟩

/-- The tokens that are still to come, the current one included. -/
def ahead (c : Cursor) : TokenStream :=
  (TokenStream.ofSpot c.source c.spot).prepend c.current.toList

theorem ahead_of_none {c : Cursor} (h : c.current = none) :
    c.ahead = TokenStream.ofSpot c.source c.spot := by
  simp [ahead, h]

/-! ## Looking at what is ahead -/

namespace Looks

variable {c c' : Cursor}

theorem ahead_eq {r : Except SchemaError (Option Token)} (h : c.Looks r c') :
    c'.ahead = c.ahead := by
  cases h with
  | held _ => rfl
  | found h hnext => rw [ahead_of_none h, TokenStream.ofSpot_of_token hnext]; rfl
  | finish h hnext =>
    simp only [ahead, TokenStream.ofSpot_of_next (Spot.next_of_stop (.inl hnext))]
  | unexpected h hnext =>
    simp only [ahead, TokenStream.ofSpot_of_next (Spot.next_of_stop (.inr ⟨_, hnext⟩))]

theorem ahead_some {t : Token} (h : c.Looks (.ok (some t)) c') :
    c.ahead = c'.dropped.ahead.cons t := by
  rw [← h.ahead_eq]
  simp [ahead, dropped, h.current_eq, TokenStream.prepend_cons]

theorem ahead_none (h : c.Looks (.ok none) c') : c.ahead = ⟨[], .finished c'.here⟩ := by
  cases h with
  | finish h hnext => rw [ahead_of_none h, TokenStream.ofSpot_of_finish hnext]; rfl

theorem ahead_error {e : SchemaError} (h : c.Looks (.error e) c') :
    ∃ ch, e = .lexical c'.here (.unexpected ch) ∧ c.ahead = ⟨[], .unexpected c'.here ch⟩ := by
  cases h with
  | unexpected h hnext =>
    refine ⟨_, rfl, ?_⟩
    rw [ahead_of_none h, TokenStream.ofSpot_of_unexpected hnext]
    rfl

end Looks

theorem iterates_ahead (c : Cursor) : c.Iterates c.ahead := by
  induction hn : c.ahead.tokens.length generalizing c with
  | zero =>
    obtain ⟨e | _ | t, c', h⟩ := c.exists_looks
    · obtain ⟨ch, rfl, hahead⟩ := h.ahead_error
      rw [hahead]
      exact .fails (perform_of_fails h (by simp)) rfl
    · rw [h.ahead_none]
      exact .finish (perform_of_sees h (by simp))
    · simp [h.ahead_some, TokenStream.cons] at hn
  | succ n ih =>
    obtain ⟨e | _ | t, c', h⟩ := c.exists_looks
    · obtain ⟨ch, rfl, hahead⟩ := h.ahead_error
      simp [hahead] at hn
    · simp [h.ahead_none] at hn
    · rw [h.ahead_some] at hn ⊢
      exact .token (perform_of_sees h (by simp)) (ih _ (Nat.succ.inj hn))

end Cursor

/-! ## One call -/

/-- The tape is where the cursor is. -/
structure Tape.Tracks (t : Tape) (c : Cursor) : Prop where
  stream : t.stream = .ofSpot c.source ⟨.start, c.text⟩
  rest : t.rest = c.ahead

namespace Tape.Tracks

variable {t : Tape} {c c' : Cursor}

theorem looks {r : Except SchemaError (Option Token)} (h : t.Tracks c) (hlook : c.Looks r c') :
    t.Tracks c' := by
  refine ⟨?_, h.rest.trans hlook.ahead_eq.symm⟩
  rw [h.stream]
  cases hlook <;> rfl

theorem restart (h : t.Tracks c) : Tracks { t with index := 0, closed := false } c.restart := by
  refine ⟨h.stream, ?_⟩
  rw [ahead_of_none rfl]
  exact h.stream

theorem dropped {token : Token} (h : t.Tracks c) (hlook : c.Looks (.ok (some token)) c') :
    Tracks { t with index := t.index + 1 } c'.dropped := by
  refine ⟨(h.looks hlook).stream, ?_⟩
  have hrest : t.rest = c'.dropped.ahead.cons token := h.rest.trans hlook.ahead_some
  have htokens : t.stream.tokens.drop (t.index + 1) = c'.dropped.ahead.tokens := by
    rw [← List.tail_drop]
    exact congrArg (List.tail ∘ TokenStream.tokens) hrest
  exact congrArg₂ TokenStream.mk htokens (congrArg TokenStream.stop hrest)

theorem closed {e : SchemaError} (h : t.Tracks c) (hlook : c.Looks (.error e) c') :
    Tracks { t with closed := true } c'.closed := by
  refine ⟨(h.looks hlook).stream, ?_⟩
  obtain ⟨ch, rfl, hahead⟩ := hlook.ahead_error
  have hrest : t.rest = ⟨[], .unexpected c'.here ch⟩ := h.rest.trans hahead
  have hstop : t.stream.stop.givenUp = .finished c'.here := by
    have hstop := congrArg TokenStream.stop hrest
    cases hs : t.stream.stop <;> cases hc : t.closed <;> simp_all [Tape.rest, Stop.givenUp]
  rw [ahead_of_none (c := c'.closed) hlook.current_of_error,
    TokenStream.ofSpot_of_finish (q := c'.closed.spot) rfl]
  exact congrArg₂ TokenStream.mk (congrArg TokenStream.tokens hrest) hstop

/-- A call finds the same on the tape, and leaves the tape where it leaves the cursor. -/
theorem perform (h : t.Tracks c) (x : Call) :
    (t.perform x).1 = (c.perform x).1 ∧ (t.perform x).2.Tracks (c.perform x).2 := by
  by_cases hx : x = .restart
  · subst hx
    exact ⟨rfl, h.restart⟩
  obtain ⟨e | _ | token, c', hlook⟩ := c.exists_looks
  · obtain ⟨ch, rfl, hahead⟩ := hlook.ahead_error
    have hrun : t.perform x = (.error (.lexical c'.here (.unexpected ch)),
        if x = .next then { t with closed := true } else t) := by
      simp [Tape.perform, hx, h.rest, hahead]
    rw [perform_of_fails hlook hx, hrun]
    refine ⟨rfl, ?_⟩
    dsimp only
    split_ifs
    · exact h.closed hlook
    · exact h.looks hlook
  · have hrun : t.perform x = (x.answer none c'.here, t) := by
      simp [Tape.perform, hx, h.rest, hlook.ahead_none]
    rw [perform_of_sees hlook hx, hrun]
    refine ⟨?_, h.looks hlook⟩
    simp [front, hlook.current_eq]
  · have hrun : t.perform x = (x.answer (some token) token.position,
        if x.consumes token then { t with index := t.index + 1 } else t) := by
      simp [Tape.perform, hx, h.rest, hlook.ahead_some, TokenStream.cons]
    rw [perform_of_sees hlook hx, hrun]
    refine ⟨?_, ?_⟩
    · simp [front, hlook.current_eq]
    · simp only [Option.any_some]
      split_ifs
      · exact h.dropped hlook
      · exact h.looks hlook

theorem outcomes (h : t.Tracks c) (calls : List Call) : t.outcomes calls = c.outcomes calls := by
  induction calls generalizing t c with
  | nil => rfl
  | cons x calls ih =>
    obtain ⟨hsame, hnext⟩ := h.perform x
    rw [Tape.outcomes, Cursor.outcomes, hsame, ih hnext]

end Tape.Tracks

/-- The list is what an iteration from the start of the text gives, and no sequence of calls tells
the cursor on the text from the one on the list. -/
theorem Cursor.outcomes_eq_tape (source text : String) :
    (Cursor.ofText source text).Iterates (.ofText source text) ∧
      ∀ calls, (Cursor.ofText source text).outcomes calls =
        Tape.outcomes { stream := .ofText source text } calls := by
  refine ⟨(Cursor.ofText source text).iterates_ahead, fun calls => ?_⟩
  have hstart : Tape.Tracks { stream := .ofText source text } (Cursor.ofText source text) :=
    ⟨rfl, rfl⟩
  exact (hstart.outcomes calls).symm

end PacketSchema
