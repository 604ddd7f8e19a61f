import PacketSchema.Proofs.Running
import PacketSchema.Token.Cursor

/-! Calls on a cursor. Every call but a restart looks at the current token first and finds the next
one where there is none. What it answers depends on that token, or on where the text ends, and a
token that the call consumes is current no longer. -/

namespace PacketSchema

theorem run_tryCatch {ε σ α : Type} (x : ExceptT ε (StateM σ) α)
    (f : ε → ExceptT ε (StateM σ) α) (s : σ) :
    (tryCatch x f).run s = match x.run s with
      | (.ok a, s') => (.ok a, s')
      | (.error e, s') => (f e).run s' := by
  have h : (tryCatch x f).run s = (match (x.run s).1 with
      | .ok a => Pure.pure (.ok a)
      | .error e => (f e).run : StateM σ (Except ε α)) (x.run s).2 := rfl
  rw [h]
  rcases x.run s with ⟨e | a, s'⟩ <;> rfl

section

variable {ε σ α β : Type} {x : ExceptT ε (StateM σ) α} {s s' : σ}

theorem run_bind_ok {a : α} (h : x.run s = (.ok a, s')) (f : α → ExceptT ε (StateM σ) β) :
    (x >>= f).run s = (f a).run s' := by
  rw [run_bind, h]

theorem run_bind_error {e : ε} (h : x.run s = (.error e, s')) (f : α → ExceptT ε (StateM σ) β) :
    (x >>= f).run s = (.error e, s') := by
  rw [run_bind, h]

end

namespace Cursor

inductive Call where
  | peek
  | advance
  | next
  | position
  | isAt (text : String)
  | atKind (kind : TokenKind)
  | atLiteral
  | atEnd
  | accept (text : String)
  | expect (text : String)
  | restart
deriving DecidableEq, Repr

inductive Answer where
  | token (current : Option Token)
  | position (p : Position)
  | flag (b : Bool)
  | done
deriving DecidableEq, Repr

namespace Call

def reader : Call → Reader Answer
  | peek => return .token (← Cursor.peek)
  | advance => return .token (← Cursor.advance)
  | next => return .token (← Cursor.next)
  | position => return .position (← Cursor.position)
  | isAt text => return .flag (← Cursor.isAt text)
  | atKind kind => return .flag (← Cursor.atKind kind)
  | atLiteral => return .flag (← Cursor.atLiteral)
  | atEnd => return .flag (← Cursor.atEnd)
  | accept text => return .flag (← Cursor.accept text)
  | expect text => do
    Cursor.expect text
    return .done
  | restart => do
    modify Cursor.restart
    return .done

/-- What a call answers that sees the current token, or the end of the text, at a position. -/
def answer (x : Call) (current : Option Token) (p : Position) : Except SchemaError Answer :=
  match x with
  | peek | advance | next => .ok (.token current)
  | position => .ok (.position p)
  | isAt text | accept text => .ok (.flag (current.any fun t => t.Reads text))
  | atKind kind => .ok (.flag (current.any (·.kind == kind)))
  | atLiteral => .ok (.flag (current.any (·.isLiteral)))
  | atEnd => .ok (.flag current.isNone)
  | expect text =>
    if current.any fun t => t.Reads text then .ok .done else .error (.expected p (.token text))
  | restart => .ok .done

/-- Whether a call consumes a token that is current. -/
def consumes (x : Call) (t : Token) : Bool :=
  match x with
  | advance | next => true
  | accept text | expect text => t.Reads text
  | peek | position | isAt _ | atKind _ | atLiteral | atEnd | restart => false

end Call

/-- The outcome of a call and the cursor that it leaves. -/
def perform (c : Cursor) (x : Call) : Except SchemaError Answer × Cursor := x.reader.run c

/-- The outcomes of calls that are made in a row. -/
def outcomes (c : Cursor) : List Call → List (Except SchemaError Answer)
  | [] => []
  | x :: rest => (c.perform x).1 :: (c.perform x).2.outcomes rest

/-- The current token has been consumed. -/
def dropped (c : Cursor) : Cursor := { c with current := none }

theorem dropped_of_none {c : Cursor} (h : c.current = none) : c.dropped = c := by
  obtain ⟨source, text, spot, current⟩ := c
  obtain rfl : current = none := h
  rfl

/-- The rest of the text has been given up. -/
def closed (c : Cursor) : Cursor := { c with spot := { c.spot with rest := [] } }

end Cursor

namespace Spot

theorem skip_skip (inComment : Bool) (p : Place) (cs : List Char) :
    (skip inComment p cs).skipTrivia = skip inComment p cs := by
  induction cs generalizing inComment p with
  | nil => rfl
  | cons c cs ih =>
    unfold skip
    split_ifs
    · exact ih _ _
    · exact ih _ _
    · exact ih _ _
    · simp_all [skipTrivia, skip]

variable {source : String} {s q : Spot}

/-- Where a text stops, it stops again. -/
theorem next_of_stop
    (h : s.next source = .finish q ∨ ∃ c, s.next source = .unexpected c q) :
    q.next source = s.next source := by
  rw [eq_skipTrivia_of_stop h, next, next]
  exact congrArg (first source) (skip_skip _ _ _)

end Spot

namespace Cursor

/-- What looking for the current token comes to. -/
inductive Looks (c : Cursor) : Except SchemaError (Option Token) → Cursor → Prop
  | held {t : Token} (h : c.current = some t) : Looks c (.ok (some t)) c
  | found {t : Token} {after : Spot} (h : c.current = none)
      (hnext : c.spot.next c.source = .token t after) :
      Looks c (.ok (some t)) { c with spot := after, current := some t }
  | finish {q : Spot} (h : c.current = none) (hnext : c.spot.next c.source = .finish q) :
      Looks c (.ok none) { c with spot := q }
  | unexpected {ch : Char} {q : Spot} (h : c.current = none)
      (hnext : c.spot.next c.source = .unexpected ch q) :
      Looks c (.error (.lexical ⟨c.source, q.place⟩ (.unexpected ch))) { c with spot := q }

theorem Looks.run_eq {c c' : Cursor} {r : Except SchemaError (Option Token)}
    (h : c.Looks r c') : peek.run c = (r, c') := by
  obtain ⟨source, text, spot, current⟩ := c
  cases h with
  | held h =>
    obtain rfl : current = _ := h
    rfl
  | found h hnext | finish h hnext | unexpected h hnext =>
    obtain rfl : current = none := h
    simp only [peek, run_get_bind, hnext]
    rfl

theorem exists_looks (c : Cursor) : ∃ r c', c.Looks r c' := by
  cases hcurrent : c.current with
  | some t => exact ⟨_, _, .held hcurrent⟩
  | none =>
    cases hnext : c.spot.next c.source with
    | token t after => exact ⟨_, _, .found hcurrent hnext⟩
    | finish q => exact ⟨_, _, .finish hcurrent hnext⟩
    | unexpected ch q => exact ⟨_, _, .unexpected hcurrent hnext⟩

/-- Looking a second time changes nothing. -/
theorem Looks.again {c c' : Cursor} {r : Except SchemaError (Option Token)} (h : c.Looks r c') :
    c'.Looks r c' := by
  cases h with
  | held h => exact .held h
  | found _ _ => exact .held rfl
  | finish h hnext => exact .finish h ((Spot.next_of_stop (.inl hnext)).trans hnext)
  | unexpected h hnext => exact .unexpected h ((Spot.next_of_stop (.inr ⟨_, hnext⟩)).trans hnext)

theorem Looks.current_eq {c c' : Cursor} {current : Option Token}
    (h : c.Looks (.ok current) c') : c'.current = current := by
  cases h with
  | held h => exact h
  | found _ _ => rfl
  | finish h _ => exact h

theorem Looks.current_of_error {c c' : Cursor} {e : SchemaError} (h : c.Looks (.error e) c') :
    c'.current = none := by
  cases h with
  | unexpected h _ => exact h

/-- The position of the current token, or else the one behind all that has been looked at. -/
def front (c : Cursor) : Position := (c.current.map Token.position).getD c.here

section

variable {c c' : Cursor} {x : Call}

theorem perform_of_fails {e : SchemaError} (h : c.Looks (.error e) c') (hx : x ≠ .restart) :
    c.perform x = (.error e, if x = .next then c'.closed else c') := by
  have hpeek := h.run_eq
  have htest : ∀ p, (test p).run c = (.error e, c') := fun p => run_bind_error hpeek _
  have hadvance : advance.run c = (.error e, c') := run_bind_error hpeek _
  cases x with
  | restart => exact absurd rfl hx
  | peek => exact run_bind_error hpeek _
  | advance => exact run_bind_error hadvance _
  | next =>
    have hnext : next.run c = (.error e, c'.closed) := by
      rw [next, run_tryCatch, hadvance]
      rfl
    exact run_bind_error hnext _
  | position => exact run_bind_error (run_bind_error hpeek _) _
  | isAt text => exact run_bind_error (htest _) _
  | atKind kind => exact run_bind_error (htest _) _
  | atLiteral => exact run_bind_error (htest _) _
  | atEnd => exact run_bind_error (run_bind_error hpeek _) _
  | accept text => exact run_bind_error (run_bind_error (htest _) _) _
  | expect text => exact run_bind_error (run_bind_error (run_bind_error (htest _) _) _) _

variable {current : Option Token} (h : c.Looks (.ok current) c')
include h

theorem run_test (p : Token → Bool) : (test p).run c = (.ok (current.any p), c') :=
  run_bind_ok h.run_eq _

theorem run_atEnd : atEnd.run c = (.ok current.isNone, c') := run_bind_ok h.run_eq _

theorem run_position : position.run c = (.ok c'.front, c') := by
  rw [position, run_bind_ok h.run_eq, front, h.current_eq]
  cases current <;> rfl

theorem run_advance : advance.run c = (.ok current, c'.dropped) := run_bind_ok h.run_eq _

theorem run_next : next.run c = (.ok current, c'.dropped) := by
  rw [next, run_tryCatch, run_advance h]

theorem run_isAt (text : String) :
    (isAt text).run c = (.ok (current.any fun t => t.Reads text), c') := by
  rw [← funext fun t => Token.is_eq_decide t text]
  exact run_test h _

theorem run_accept (text : String) : (accept text).run c =
    (.ok (current.any fun t => t.Reads text),
      if current.any fun t => t.Reads text then c'.dropped else c') := by
  rw [accept, run_bind_ok (run_isAt h text)]
  cases current.any fun t => t.Reads text <;> rfl

/-- Where the token is another one it is looked at once more, for its position. -/
theorem run_expect (text : String) : (expect text).run c =
    if current.any fun t => t.Reads text then (.ok (), c'.dropped)
    else (.error (.expected c'.front (.token text)), c') := by
  rw [expect, run_bind_ok (run_accept h text)]
  cases current.any fun t => t.Reads text with
  | true => rfl
  | false => exact run_bind_ok (run_position h.again) _

theorem perform_of_sees (hx : x ≠ .restart) : c.perform x =
    (x.answer current c'.front, if current.any x.consumes then c'.dropped else c') := by
  have hkept : (if current.any fun _ => false then c'.dropped else c') = c' := by
    cases current <;> rfl
  have hdropped : (if current.any fun _ => true then c'.dropped else c') = c'.dropped := by
    cases current with
    | some t => rfl
    | none => exact (dropped_of_none h.current_eq).symm
  cases x with
  | restart => exact absurd rfl hx
  | peek => exact (run_bind_ok h.run_eq _).trans (Prod.ext rfl hkept.symm)
  | advance => exact (run_bind_ok (run_advance h) _).trans (Prod.ext rfl hdropped.symm)
  | next => exact (run_bind_ok (run_next h) _).trans (Prod.ext rfl hdropped.symm)
  | position => exact (run_bind_ok (run_position h) _).trans (Prod.ext rfl hkept.symm)
  | isAt text => exact (run_bind_ok (run_isAt h text) _).trans (Prod.ext rfl hkept.symm)
  | atKind kind => exact (run_bind_ok (run_test h _) _).trans (Prod.ext rfl hkept.symm)
  | atLiteral => exact (run_bind_ok (run_test h _) _).trans (Prod.ext rfl hkept.symm)
  | atEnd => exact (run_bind_ok (run_atEnd h) _).trans (Prod.ext rfl hkept.symm)
  | accept text => exact run_bind_ok (run_accept h text) _
  | expect text =>
    have hrun := run_expect h text
    have hconsumes : (Call.expect text).consumes = fun t => decide (t.Reads text) := rfl
    rw [Call.answer, hconsumes]
    split at hrun
    · rename_i hat
      rw [if_pos hat, if_pos hat]
      exact run_bind_ok hrun _
    · rename_i hat
      rw [if_neg hat, if_neg hat]
      exact run_bind_error hrun _

end

end Cursor

end PacketSchema
