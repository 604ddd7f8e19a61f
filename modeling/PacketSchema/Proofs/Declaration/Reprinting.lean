import PacketSchema.Declaration.Reading
import PacketSchema.Proofs.Running

/-! How a text is printed makes no difference to what is read from it. A print tells under which
names the sources go, where things stand and how literals are spelled. Tokens that are the same
except in that are read as the same declarations, or refused for the same reason. -/

namespace PacketSchema

/-- Other names for the sources, other places in them and another spelling for every literal. -/
structure Print where
  source : String → String
  place : Place → Place
  literal : String → String

namespace Print

/-- Everything as it is. -/
def same : Print := ⟨id, id, id⟩

/-- Everything at the same place of a source without a name, so that only the rest can differ. -/
def blank : Print := ⟨fun _ => "", fun _ => .start, fun _ => ""⟩

end Print

section

variable (r : Print)

def Position.reprint (p : Position) : Position := ⟨r.source p.source, r.place p.place⟩

def Stop.reprint : Stop → Stop
  | finished p => finished (p.reprint r)
  | unexpected p c => unexpected (p.reprint r) c

def Ident.reprint (i : Ident) : Ident := { i with position := i.position.reprint r }

def Name.reprint (n : Name) : Name := { n with head := n.head.reprint r }

def Value.reprint (v : Value) : Value :=
  { v with token := r.literal v.token, position := v.position.reprint r }

def Operand.reprint : Operand → Operand
  | name n => name (n.reprint r)
  | value v => value (v.reprint r)

mutual

def TypeArg.reprint : TypeArg → TypeArg
  | .name n => .name (n.reprint r)
  | .value v => .value (v.reprint r)
  | .type e => .type e.reprint

def TypeExpr.reprint : TypeExpr → TypeExpr
  | .application p head params => .application (p.reprint r) head.reprint (reprintArgs params)
  | .body b => .body b.reprint

def reprintArgs : List TypeArg → List TypeArg
  | [] => []
  | a :: rest => a.reprint :: reprintArgs rest

def Body.reprint : Body → Body
  | .mk p statements => .mk (p.reprint r) (reprintAll statements)

def reprintAll : List Statement → List Statement
  | [] => []
  | s :: rest => s.reprint :: reprintAll rest

def Statement.reprint : Statement → Statement
  | .space p name none => .space (p.reprint r) (name.reprint r) none
  | .space p name (some b) => .space (p.reprint r) (name.reprint r) (some b.reprint)
  | .type p name none => .type (p.reprint r) (name.reprint r) none
  | .type p name (some e) => .type (p.reprint r) (name.reprint r) (some e.reprint)
  | .variant p name none => .variant (p.reprint r) (name.map (Ident.reprint r)) none
  | .variant p name (some b) =>
    .variant (p.reprint r) (name.map (Ident.reprint r)) (some b.reprint)
  | .constraint p left right => .constraint (p.reprint r) (left.reprint r) (right.reprint r)
  | .fields p names type => .fields (p.reprint r) (names.map (Ident.reprint r)) type.reprint

end

def SchemaError.reprint : SchemaError → SchemaError
  | lexical p cause => lexical (p.reprint r) cause
  | expected p what => expected (p.reprint r) what
  | duplicate p what name => duplicate (p.reprint r) what name
  | unknownType p name => unknownType (p.reprint r) name
  | badArguments p typeName cause => badArguments (p.reprint r) typeName cause
  | inconsistentConstraint p name existing found =>
    inconsistentConstraint (p.reprint r) name existing found
  | constraintType p name value typeName => constraintType (p.reprint r) name value typeName
  | unresolvedBranch p cause => unresolvedBranch (p.reprint r) cause
  | misplaced p part => misplaced (p.reprint r) part
  | unreadable path cause => unreadable path cause

/-- The result printed otherwise, be it a value or an error. -/
def reprintResult {α β : Type} (value : α → β) (result : Except SchemaError α) :
    Except SchemaError β :=
  (result.mapError (SchemaError.reprint r)).map value

end

/-! ### The same print -/

theorem Position.reprint_same : Position.reprint .same = id := rfl

theorem Ident.reprint_same : Ident.reprint .same = id := rfl

theorem Operand.reprint_same (o : Operand) : o.reprint .same = o := by cases o <;> rfl

mutual

theorem TypeArg.reprint_same : ∀ a : TypeArg, a.reprint .same = a
  | .name _ | .value _ => rfl
  | .type e => congrArg TypeArg.type e.reprint_same

theorem TypeExpr.reprint_same : ∀ e : TypeExpr, e.reprint .same = e
  | .application p head params =>
    congrArg₂ (TypeExpr.application p) head.reprint_same (reprintArgs_same params)
  | .body b => congrArg TypeExpr.body b.reprint_same

theorem reprintArgs_same : ∀ as : List TypeArg, reprintArgs .same as = as
  | [] => rfl
  | a :: rest => congrArg₂ List.cons a.reprint_same (reprintArgs_same rest)

theorem Body.reprint_same : ∀ b : Body, b.reprint .same = b
  | .mk p statements => congrArg (Body.mk p) (reprintAll_same statements)

theorem reprintAll_same : ∀ ss : List Statement, reprintAll .same ss = ss
  | [] => rfl
  | s :: rest => congrArg₂ List.cons s.reprint_same (reprintAll_same rest)

theorem Statement.reprint_same : ∀ s : Statement, s.reprint .same = s
  | .space _ _ none | .type _ _ none => rfl
  | .space p name (some b) => congrArg (Statement.space p name <| some ·) b.reprint_same
  | .type p name (some e) => congrArg (Statement.type p name <| some ·) e.reprint_same
  | .variant _ name none => by cases name <;> rfl
  | .variant p name (some b) => by
    rw [Statement.reprint, b.reprint_same]
    cases name <;> rfl
  | .constraint p left right =>
    congrArg₂ (Statement.constraint p) left.reprint_same right.reprint_same
  | .fields p names type => by
    rw [Statement.reprint, type.reprint_same, Ident.reprint_same, List.map_id]
    rfl

end

theorem SchemaError.reprint_same (e : SchemaError) : e.reprint .same = e := by cases e <;> rfl

theorem reprintResult_same {α : Type} {value : α → α} (h : ∀ a, value a = a)
    (result : Except SchemaError α) : reprintResult .same value result = result := by
  cases result with
  | ok a => exact congrArg Except.ok (h a)
  | error e => exact congrArg Except.error e.reprint_same

theorem TypeArg.position_reprint (r : Print) (a : TypeArg) :
    (a.reprint r).position = a.position.reprint r := by
  obtain n | v | e := a
  · rfl
  · rfl
  · obtain _ | ⟨⟨_, _⟩⟩ := e <;> rfl

/-! ## Tokens -/

variable {r r' : Print}

/-- The same, each in its own print. -/
def Coincide {α β : Type} (value : Print → α → β) (r r' : Print) (a b : α) : Prop :=
  value r a = value r' b

/-- Tokens that differ in the print at most. A literal may be spelled in another way if it is the
same one. -/
structure Token.Common (r r' : Print) (t t' : Token) : Prop where
  kind : t'.kind = t.kind
  position : t.position.reprint r = t'.position.reprint r'
  text : t.isLiteral = false → t'.text = t.text
  spelling : t.isLiteral = true → r.literal t.text = r'.literal t'.text
  literal : t.isLiteral = true → Paired (Coincide SchemaError.reprint r r') Eq
    (Literal.ofToken t.kind t.text t.position) (Literal.ofToken t'.kind t'.text t'.position)

/-- A literal that is spelled alike is the same one wherever it stands, or out of range there. -/
theorem Literal.ofToken_coincide (kind : TokenKind) (text : String) {p p' : Position}
    (h : Coincide Position.reprint r r' p p') :
    Paired (Coincide SchemaError.reprint r r') Eq (ofToken kind text p) (ofToken kind text p') := by
  unfold ofToken
  split
  · split
    · exact .ok rfl
    · exact .error (congrArg (SchemaError.lexical · _) h)
  · exact .ok rfl
  · exact .error (congrArg (SchemaError.expected · _) h)

namespace Token.Common

variable {t t' : Token}

theorem isLiteral_eq (h : t.Common r r' t') : t'.isLiteral = t.isLiteral :=
  congrArg TokenKind.isLiteral h.kind

theorem is_eq (h : t.Common r r' t') (text : String) : t'.is text = t.is text := by
  unfold is
  rw [h.isLiteral_eq]
  cases hliteral : t.isLiteral with
  | true => rfl
  | false => rw [h.text hliteral]

end Token.Common

namespace TokenStream

/-- Tokens and an end that differ in the print at most. -/
structure Common (r r' : Print) (s s' : TokenStream) : Prop where
  tokens : List.Forall₂ (Token.Common r r') s.tokens s'.tokens
  stop : s.stop.reprint r = s'.stop.reprint r'

/-! ## Readers -/

/-- Tokens that differ in the print at most are read alike. -/
def Reprints {α β : Type} (r r' : Print) (R : α → β → Prop) (x : Reader α) (y : Reader β) : Prop :=
  Relates (Common r r') (Coincide SchemaError.reprint r r') R x y

namespace Reprints

variable {α β γ δ : Type} {R : α → β → Prop} {Q : γ → δ → Prop}

theorem pure {a : α} {b : β} (h : R a b) : Reprints r r' R (pure a) (pure b) := Relates.pure h

theorem throw {e e' : SchemaError} (h : e.reprint r = e'.reprint r') :
    Reprints r r' R (throw e) (throw e') :=
  Relates.throw h

theorem bind {x : Reader α} {y : Reader β} {f : α → Reader γ} {g : β → Reader δ}
    (h : Reprints r r' R x y) (hf : ∀ a b, R a b → Reprints r r' Q (f a) (g b)) :
    Reprints r r' Q (x >>= f) (y >>= g) :=
  Relates.bind h hf

theorem peek : Reprints r r' (Option.Rel (Token.Common r r')) peek peek := by
  refine Relates.get_bind fun s s' hs => ?_
  obtain ⟨tokens, stop⟩ := s
  obtain ⟨tokens', stop'⟩ := s'
  obtain ⟨htokens, hstop⟩ := hs
  dsimp only at htokens hstop ⊢
  cases htokens with
  | cons h _ => exact pure (.some h)
  | nil =>
    obtain p | ⟨p, c⟩ := stop <;> obtain p' | ⟨p', c'⟩ := stop' <;>
      simp only [Stop.reprint, reduceCtorEq, Stop.unexpected.injEq] at hstop
    · exact pure .none
    · exact throw (by simp only [SchemaError.reprint, hstop])

theorem drop : Reprints r r' Eq drop drop := by
  refine Relates.modify fun s s' hs => ⟨?_, hs.stop⟩
  show List.Forall₂ _ s.tokens.tail s'.tokens.tail
  rw [← List.drop_one, ← List.drop_one]
  exact List.forall₂_drop 1 hs.tokens

theorem position : Reprints r r' (Coincide Position.reprint r r') position position := by
  refine peek.bind fun o o' ho => ?_
  cases ho with
  | some h => exact pure h.position
  | none =>
    refine Relates.get_bind fun s s' hs => ?_
    obtain ⟨tokens, stop⟩ := s
    obtain ⟨tokens', stop'⟩ := s'
    obtain ⟨-, hstop⟩ := hs
    obtain p | ⟨p, c⟩ := stop <;> obtain p' | ⟨p', c'⟩ := stop' <;>
      simp only [Stop.reprint, reduceCtorEq, Stop.finished.injEq, Stop.unexpected.injEq] at hstop
    · exact pure hstop
    · exact pure hstop.1

theorem refuse (what : Expectation) : Reprints r r' R (refuse what) (refuse what) :=
  position.bind fun _ _ hp => throw (congrArg (SchemaError.expected · what) hp)

theorem takeIf {p : Token → Bool} (hp : ∀ t t', Token.Common r r' t t' → p t' = p t) :
    Reprints r r' (Option.Rel fun t t' => p t = true ∧ Token.Common r r' t t') (takeIf p)
      (takeIf p) := by
  refine peek.bind fun o o' ho => ?_
  cases ho with
  | none => exact pure .none
  | some h =>
    dsimp only
    rw [hp _ _ h]
    split
    · exact drop.bind fun _ _ _ => pure (.some ⟨‹_›, h⟩)
    · exact pure .none

theorem accept (text : String) : Reprints r r' Eq (accept text) (accept text) := by
  refine (takeIf fun _ _ h => h.is_eq text).bind fun o o' ho => ?_
  cases ho <;> exact pure rfl

theorem expect (text : String) : Reprints r r' Eq (expect text) (expect text) := by
  refine (accept text).bind fun found _ heq => ?_
  subst heq
  cases found
  · exact refuse _
  · exact pure rfl

theorem ite {text : String} {x y : Reader α} {x' y' : Reader β} (hx : Reprints r r' R x x')
    (hy : Reprints r r' R y y') :
    Reprints r r' R (do if ← TokenStream.accept text then x else y)
      (do if ← TokenStream.accept text then x' else y') := by
  refine (accept text).bind fun found _ heq => ?_
  subst heq
  cases found
  · exact hy
  · exact hx

theorem require {x : Reader (Option α)} {y : Reader (Option β)}
    (h : Reprints r r' (Option.Rel R) x y) (what : Expectation) :
    Reprints r r' R (require what x) (require what y) := by
  refine h.bind fun o o' ho => ?_
  cases ho with
  | none => exact refuse _
  | some h => exact pure h

theorem ident? : Reprints r r' (Option.Rel (Coincide Ident.reprint r r')) ident? ident? := by
  refine (takeIf fun _ _ h => congrArg (· == TokenKind.ident) h.kind).bind fun o o' ho => ?_
  cases ho with
  | none => exact pure .none
  | @some t t' h =>
    obtain ⟨hident, h⟩ := h
    have hliteral : t.isLiteral = false := by
      rw [Token.isLiteral, eq_of_beq hident]
      rfl
    exact pure (.some (congrArg₂ Ident.mk (h.text hliteral).symm h.position))

theorem nameTail : ∀ fuel, Reprints r r' Eq (nameTail fuel) (nameTail fuel)
  | 0 => pure rfl
  | fuel + 1 =>
    ite ((ident?.require _).bind fun _ _ hi => (nameTail fuel).bind fun _ _ htail =>
      pure (congrArg₂ List.cons (Ident.mk.inj hi).1 htail)) (pure rfl)

theorem name? : Reprints r r' (Option.Rel (Coincide Name.reprint r r')) name? name? := by
  refine ident?.bind fun o o' ho => ?_
  cases ho with
  | none => exact pure .none
  | some hi =>
    refine Relates.get_bind fun s s' hs => ?_
    rw [hs.tokens.length_eq]
    exact (nameTail _).bind fun _ _ htail => pure (.some (congrArg₂ Name.mk hi htail))

theorem liftExcept {x : Except SchemaError α} {y : Except SchemaError β}
    (h : Paired (Coincide SchemaError.reprint r r') R x y) :
    Reprints r r' R (liftExcept x) (liftExcept y) := by
  cases h with
  | ok h => exact pure h
  | error h => exact throw h

theorem value? : Reprints r r' (Option.Rel (Coincide Value.reprint r r')) value? value? := by
  refine (takeIf fun _ _ h => h.isLiteral_eq).bind fun o o' ho => ?_
  cases ho with
  | none => exact pure .none
  | some h =>
    obtain ⟨hliteral, h⟩ := h
    refine (liftExcept (h.literal hliteral)).bind fun l l' hl => pure (.some ?_)
    subst hl
    exact congrArg₂ (Value.mk l) (h.spelling hliteral) h.position

theorem operand? :
    Reprints r r' (Option.Rel (Coincide Operand.reprint r r')) operand? operand? := by
  refine name?.bind fun o o' ho => ?_
  cases ho with
  | some h => exact pure (.some (congrArg Operand.name h))
  | none =>
    refine value?.bind fun o o' ho => ?_
    cases ho with
    | some h => exact pure (.some (congrArg Operand.value h))
    | none => exact pure .none

theorem moreNames : ∀ fuel,
    Reprints r r' (fun names names' => names.map (Ident.reprint r) = names'.map (Ident.reprint r'))
      (moreNames fuel) (moreNames fuel)
  | 0 => refuse _
  | fuel + 1 =>
    ite (pure rfl) (ite ((ident?.require _).bind fun _ _ hi => (moreNames fuel).bind fun _ _ his =>
      pure (congrArg₂ List.cons hi his)) (refuse _))

theorem between? {x : Reader α} {y : Reader β} (h : Reprints r r' R x y)
    (opening closing : String) :
    Reprints r r' (Option.Rel R) (between? opening closing x) (between? opening closing y) :=
  ite (h.bind fun _ _ ha => (expect closing).bind fun _ _ _ => pure (.some ha)) (pure .none)

section

variable {ss ss' : Reader (List Statement)} {ts ts' : Reader (Option TypeExpr)}
  {bs bs' : Reader (Option Body)}

theorem bodyOf (h : Reprints r r' (Coincide reprintAll r r') ss ss') :
    Reprints r r' (Coincide Body.reprint r r') (bodyOf ss) (bodyOf ss') :=
  position.bind fun _ _ hp => h.bind fun _ _ hs => pure (congrArg₂ Body.mk hp hs)

theorem block? (h : Reprints r r' (Coincide reprintAll r r') ss ss') :
    Reprints r r' (Option.Rel (Coincide Body.reprint r r')) (block? ss) (block? ss') :=
  (bodyOf h).between? _ _

theorem enclosed? (hs : Reprints r r' (Coincide reprintAll r r') ss ss')
    (ht : Reprints r r' (Option.Rel (Coincide TypeExpr.reprint r r')) ts ts') :
    Reprints r r' (Option.Rel (Coincide TypeExpr.reprint r r')) (enclosed? ss ts)
      (enclosed? ss' ts') := by
  refine ((ht.require _).between? _ _).bind fun o o' ho => ?_
  cases ho with
  | some h => exact pure (.some h)
  | none =>
    refine (block? hs).bind fun o o' ho => ?_
    cases ho with
    | some h => exact pure (.some (congrArg TypeExpr.body h))
    | none => exact pure .none

theorem typeOrBlock? (hb : Reprints r r' (Option.Rel (Coincide Body.reprint r r')) bs bs')
    (ht : Reprints r r' (Option.Rel (Coincide TypeExpr.reprint r r')) ts ts') :
    Reprints r r' (Option.Rel (Coincide TypeExpr.reprint r r')) (typeOrBlock? bs ts)
      (typeOrBlock? bs' ts') := by
  refine ite ((ht.require _).bind fun _ _ h => pure (.some h)) (hb.bind fun o o' ho => ?_)
  cases ho with
  | some h => exact pure (.some (congrArg TypeExpr.body h))
  | none => exact pure .none

theorem fieldsOrConstraint (ht : Reprints r r' (Option.Rel (Coincide TypeExpr.reprint r r')) ts ts')
    {p p' : Position} (hp : Coincide Position.reprint r r' p p') {left left' : Operand}
    (hleft : Coincide Operand.reprint r r' left left') :
    Reprints r r' (Coincide Statement.reprint r r') (fieldsOrConstraint p left ts)
      (fieldsOrConstraint p' left' ts') := by
  refine ite ((operand?.require _).bind fun _ _ hright => pure ?_) ?_
  · show Statement.constraint _ _ _ = Statement.constraint _ _ _
    rw [hp, hleft, hright]
  · obtain ⟨⟨head, tail⟩⟩ | v := left <;> obtain ⟨⟨head', tail'⟩⟩ | v' := left'
    · obtain ⟨hhead, rfl⟩ := Name.mk.inj (Operand.name.inj hleft)
      obtain _ | ⟨next, rest⟩ := tail
      · refine Relates.get_bind fun s s' hs => ?_
        rw [hs.tokens.length_eq]
        refine (moreNames _).bind fun _ _ hothers => (ht.require _).bind fun _ _ ht => pure ?_
        show Statement.fields _ (_ :: _) _ = Statement.fields _ (_ :: _) _
        rw [hp, hhead, hothers, ht]
      · exact throw (congrArg (SchemaError.expected · _) (Ident.mk.inj hhead).2)
    · cases hleft
    · cases hleft
    · exact throw (congrArg (SchemaError.expected · _) (Value.mk.inj (Operand.value.inj hleft)).2.2)

theorem statement? (hb : Reprints r r' (Option.Rel (Coincide Body.reprint r r')) bs bs')
    (ht : Reprints r r' (Option.Rel (Coincide TypeExpr.reprint r r')) ts ts') :
    Reprints r r' (Option.Rel (Coincide Statement.reprint r r')) (statement? bs ts)
      (statement? bs' ts') := by
  refine position.bind fun p p' hp => ite ?_ (ite ?_ (ite ?_ ?_))
  · refine ident?.bind fun name name' hname => hb.bind fun b b' hb => pure (.some ?_)
    have hname : name.map (Ident.reprint r) = name'.map (Ident.reprint r') := by
      cases hname with
      | none => rfl
      | some h => exact congrArg some h
    cases hb with
    | none => exact congrArg₂ (Statement.variant · · none) hp hname
    | some hb =>
      show Statement.variant _ _ (some _) = Statement.variant _ _ (some _)
      rw [hp, hname, hb]
  · refine (ident?.require _).bind fun name name' hname => hb.bind fun b b' hb => pure (.some ?_)
    cases hb with
    | none => exact congrArg₂ (Statement.space · · none) hp hname
    | some hb =>
      show Statement.space _ _ (some _) = Statement.space _ _ (some _)
      rw [hp, hname, hb]
  · refine (ident?.require _).bind fun name name' hname =>
      (typeOrBlock? hb ht).bind fun e e' he => pure (.some ?_)
    cases he with
    | none => exact congrArg₂ (Statement.type · · none) hp hname
    | some he =>
      show Statement.type _ _ (some _) = Statement.type _ _ (some _)
      rw [hp, hname, he]
  · refine operand?.bind fun o o' ho => ?_
    cases ho with
    | none => exact pure .none
    | some hleft => exact (fieldsOrConstraint ht hp hleft).bind fun _ _ h => pure (.some h)

end

theorem toArg {o o' : Operand} (h : Coincide Operand.reprint r r' o o') :
    Coincide TypeArg.reprint r r' o.toArg o'.toArg := by
  have hreprint : ∀ (r : Print) (o : Operand), o.toArg.reprint r = (o.reprint r).toArg :=
    fun _ o => by cases o <;> rfl
  exact (hreprint r o).trans ((congrArg Operand.toArg h).trans (hreprint r' o').symm)

mutual

theorem statements : ∀ fuel,
    Reprints r r' (Coincide reprintAll r r') (statements fuel) (statements fuel)
  | 0 => refuse _
  | fuel + 1 => by
    refine ite (statements fuel) ((statement? (block? (statements fuel)) (type? fuel)).bind
      fun o o' ho => ?_)
    cases ho with
    | none => exact pure rfl
    | some hs =>
      exact (expect _).bind fun _ _ _ => (statements fuel).bind fun _ _ hss =>
        pure (congrArg₂ List.cons hs hss)

theorem type? : ∀ fuel,
    Reprints r r' (Option.Rel (Coincide TypeExpr.reprint r r')) (type? fuel) (type? fuel)
  | 0 => refuse _
  | fuel + 1 => by
    refine position.bind fun p p' hp =>
      (enclosed? (statements fuel) (type? fuel)).bind fun o o' ho => ?_
    cases ho with
    | some he => exact pure (.some he)
    | none =>
      refine operand?.bind fun o o' ho => ?_
      cases ho with
      | none => exact pure .none
      | some hhead =>
        refine (typeArgs fuel).bind fun _ _ hparams => pure (.some ?_)
        show TypeExpr.application _ _ _ = TypeExpr.application _ _ _
        rw [hp, toArg hhead, hparams]

theorem typeArgs : ∀ fuel,
    Reprints r r' (Coincide reprintArgs r r') (typeArgs fuel) (typeArgs fuel)
  | 0 => refuse _
  | fuel + 1 => by
    refine (enclosed? (statements fuel) (type? fuel)).bind fun o o' ho => ?_
    cases ho with
    | some he =>
      exact (typeArgs fuel).bind fun _ _ hrest =>
        pure (congrArg₂ List.cons (congrArg TypeArg.type he) hrest)
    | none =>
      refine operand?.bind fun o o' ho => ?_
      cases ho with
      | none => exact pure rfl
      | some ha =>
        exact (typeArgs fuel).bind fun _ _ hrest => pure (congrArg₂ List.cons (toArg ha) hrest)

end

theorem body : Reprints r r' (Coincide Body.reprint r r') body body := by
  refine Relates.get_bind fun s s' hs => ?_
  rw [hs.tokens.length_eq]
  exact bodyOf (statements _)

theorem wholeBody : Reprints r r' (Coincide Body.reprint r r') wholeBody wholeBody := by
  refine body.bind fun b b' hb => peek.bind fun o o' ho => ?_
  cases ho with
  | none => exact pure hb
  | some _ => exact refuse _

end Reprints

/-- Tokens that differ in the print at most are read as the same, but for the print. -/
theorem Common.read {s s' : TokenStream} (h : s.Common r r' s') :
    reprintResult r (Body.reprint r) (wholeBody.run s).1 =
      reprintResult r' (Body.reprint r') (wholeBody.run s').1 := by
  have hread := (Reprints.wholeBody s s' h).1
  generalize (wholeBody.run s).1 = x at hread
  generalize (wholeBody.run s').1 = y at hread
  cases hread with
  | ok h => exact congrArg Except.ok h
  | error h => exact congrArg Except.error h

end TokenStream

end PacketSchema
