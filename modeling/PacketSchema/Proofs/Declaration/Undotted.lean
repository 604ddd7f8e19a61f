import PacketSchema.Declaration.Reading
import PacketSchema.Proofs.Token.Words

/-! Reading declarations from a text. The names that are declared have no dots in them, and where a
text is refused, it is for what stands in it: a token is missing, or there is none. -/

namespace PacketSchema

/-- A name that is one part of a dotted path. -/
def Undotted (name : String) : Prop := '.' ∉ name.toList

/-- The text is not one of declarations. -/
def SchemaError.IsSyntactic : SchemaError → Prop
  | lexical _ _ | expected _ _ => True
  | _ => False

mutual

/-- The names that are declared in it have no dots. -/
def TypeArg.Undotted : TypeArg → Prop
  | .name _ | .value _ => True
  | .type e => e.Undotted

def TypeExpr.Undotted : TypeExpr → Prop
  | .application _ head params => head.Undotted ∧ TypeArg.AllUndotted params
  | .body b => b.Undotted

def Body.Undotted : Body → Prop
  | .mk _ statements => Statement.AllUndotted statements

def Statement.Undotted : Statement → Prop
  | .space _ name none => PacketSchema.Undotted name.text
  | .space _ name (some body) => PacketSchema.Undotted name.text ∧ body.Undotted
  | .type _ name none => PacketSchema.Undotted name.text
  | .type _ name (some e) => PacketSchema.Undotted name.text ∧ e.Undotted
  | .variant _ none none => True
  | .variant _ none (some body) => body.Undotted
  | .variant _ (some name) none => PacketSchema.Undotted name.text
  | .variant _ (some name) (some body) => PacketSchema.Undotted name.text ∧ body.Undotted
  | .constraint _ _ _ => True
  | .fields _ _ e => e.Undotted

def TypeArg.AllUndotted : List TypeArg → Prop
  | [] => True
  | a :: rest => a.Undotted ∧ TypeArg.AllUndotted rest

def Statement.AllUndotted : List Statement → Prop
  | [] => True
  | s :: rest => s.Undotted ∧ Statement.AllUndotted rest

end

/-! ## Tokens -/

/-- The identifiers of a token stream have no dots. -/
def TokenStream.Clean (s : TokenStream) : Prop :=
  ∀ t ∈ s.tokens, t.kind = .ident → Undotted t.text

theorem TokenStream.clean_ofSpot (source : String) (spot : Spot) :
    (ofSpot source spot).Clean := by
  intro t ht hk hdot
  have hchar := ((proper_ofSpot source spot t ht).ident hk).1 '.' hdot
  exact absurd hchar (by decide)

/-! ## Readers -/

namespace TokenStream

/-- A reader gives values with a property and leaves a clean stream clean. -/
def Reads {α : Type} (P : α → Prop) (x : Reader α) : Prop :=
  ∀ s : TokenStream, s.Clean → match x.run s with
    | (.ok a, s') => P a ∧ s'.Clean
    | (.error e, _) => e.IsSyntactic

/-- A property of the value, if there is one. -/
def IfAny {α : Type} (P : α → Prop) (o : Option α) : Prop := ∀ a, o = some a → P a

theorem ifAny_none {α : Type} {P : α → Prop} : IfAny P none := by
  intro a h
  cases h

theorem ifAny_some {α : Type} {P : α → Prop} {a : α} (h : P a) : IfAny P (some a) := by
  rintro _ ⟨⟩
  exact h

namespace Reads

variable {α β : Type} {P : α → Prop} {Q : β → Prop}

theorem pure {a : α} (h : P a) : Reads P (pure a) := fun _ hs => ⟨h, hs⟩

theorem throw {e : SchemaError} (h : e.IsSyntactic) : Reads P (throw e) := fun _ _ => h

theorem bind {x : Reader α} {f : α → Reader β} (hx : Reads P x) (hf : ∀ a, P a → Reads Q (f a)) :
    Reads Q (x >>= f) := by
  intro s hs
  have hrun : (x >>= f).run s = ExceptT.bindCont f (x.run s).1 (x.run s).2 := rfl
  have h := hx s hs
  rw [hrun]
  rcases hxs : x.run s with ⟨e | a, s'⟩
  · rw [hxs] at h
    exact h
  · rw [hxs] at h
    exact hf a h.1 s' h.2

theorem get : Reads (fun _ => True) (get : Reader TokenStream) := fun _ hs => ⟨trivial, hs⟩

theorem peek : Reads (IfAny fun t => t.kind = .ident → Undotted t.text) peek := by
  intro s hs
  obtain ⟨tokens, stop⟩ := s
  cases tokens with
  | cons t tokens => exact ⟨ifAny_some (hs t (by simp)), hs⟩
  | nil =>
    cases stop with
    | finished _ => exact ⟨ifAny_none, hs⟩
    | unexpected _ _ => exact trivial

theorem drop : Reads (fun _ => True) drop :=
  fun _ hs => ⟨trivial, fun t ht => hs t (List.mem_of_mem_tail ht)⟩

theorem position : Reads (fun _ => True) position := by
  refine peek.bind fun o _ => ?_
  split
  · exact pure trivial
  · refine get.bind fun s _ => ?_
    split <;> exact pure trivial

theorem refuse (what : Expectation) : Reads P (refuse what) :=
  position.bind fun _ _ => throw trivial

theorem takeIf (p : Token → Bool) :
    Reads (IfAny fun t => p t = true ∧ (t.kind = .ident → Undotted t.text)) (takeIf p) := by
  refine peek.bind fun o ho => ?_
  split
  · rename_i t
    split
    · rename_i hp
      exact drop.bind fun _ _ => pure (ifAny_some ⟨hp, ho t rfl⟩)
    · exact pure ifAny_none
  · exact pure ifAny_none

theorem accept (text : String) : Reads (fun _ => True) (accept text) :=
  (takeIf _).bind fun _ _ => pure trivial

theorem expect (text : String) : Reads (fun _ => True) (expect text) := by
  refine (accept text).bind fun found _ => ?_
  split
  · exact pure trivial
  · exact refuse _

theorem require {x : Reader (Option α)} (hx : Reads (IfAny P) x) (what : Expectation) :
    Reads P (require what x) := by
  refine hx.bind fun o ho => ?_
  split
  · exact pure (ho _ rfl)
  · exact refuse _

theorem ident? : Reads (IfAny fun i => Undotted i.text) ident? := by
  refine (takeIf _).bind fun o ho => pure ?_
  cases o with
  | none => exact ifAny_none
  | some t =>
    obtain ⟨hkind, hundotted⟩ := ho t rfl
    exact ifAny_some (hundotted (by simpa using hkind))

theorem nameTail (fuel : Nat) : Reads (fun _ => True) (nameTail fuel) := by
  induction fuel with
  | zero => exact pure trivial
  | succ fuel ih =>
    refine (accept _).bind fun found _ => ?_
    split
    · exact (ident?.require _).bind fun _ _ => ih.bind fun _ _ => pure trivial
    · exact pure trivial

theorem name? : Reads (fun _ => True) name? := by
  refine ident?.bind fun o _ => ?_
  split
  · exact get.bind fun _ _ => (nameTail _).bind fun _ _ => pure trivial
  · exact pure trivial

theorem value? : Reads (fun _ => True) value? := by
  refine (takeIf _).bind fun o _ => ?_
  cases o with
  | none => exact pure trivial
  | some t =>
    have hliteral : Reads (fun _ => True)
        (liftExcept (Literal.ofToken t.kind t.text t.position) : Reader Literal) := by
      unfold Literal.ofToken
      split
      · split
        · exact pure trivial
        · exact throw trivial
      · exact pure trivial
      · exact throw trivial
    exact hliteral.bind fun _ _ => pure trivial

theorem operand? : Reads (IfAny fun _ => True) operand? := by
  refine name?.bind fun o _ => ?_
  split
  · exact pure (ifAny_some trivial)
  · exact value?.bind fun _ _ => pure fun _ _ => trivial

theorem moreNames (fuel : Nat) : Reads (fun _ => True) (moreNames fuel) := by
  induction fuel with
  | zero => exact refuse _
  | succ fuel ih =>
    refine (accept _).bind fun colon _ => ?_
    split
    · exact pure trivial
    · refine (accept _).bind fun comma _ => ?_
      split
      · exact (ident?.require _).bind fun _ _ => ih.bind fun _ _ => pure trivial
      · exact refuse _

theorem between? {x : Reader α} (hx : Reads P x) (opening closing : String) :
    Reads (IfAny P) (between? opening closing x) := by
  refine (accept _).bind fun found _ => ?_
  split
  · exact hx.bind fun a ha => (expect _).bind fun _ _ => pure (ifAny_some ha)
  · exact pure ifAny_none

/-! ## Declarations -/

theorem bodyOf {statements : Reader (List Statement)}
    (hs : Reads Statement.AllUndotted statements) : Reads Body.Undotted (bodyOf statements) := by
  refine position.bind fun _ _ => hs.bind fun statements hstatements => pure ?_
  unfold Body.Undotted
  exact hstatements

theorem block? {statements : Reader (List Statement)}
    (hs : Reads Statement.AllUndotted statements) :
    Reads (IfAny Body.Undotted) (block? statements) :=
  (bodyOf hs).between? _ _

/-- The type that a block stands for. -/
theorem body {o : Option Body} (ho : IfAny Body.Undotted o) :
    Reads (IfAny TypeExpr.Undotted) (Pure.pure (o.map .body)) := by
  refine pure ?_
  cases o with
  | none => exact ifAny_none
  | some b =>
    apply ifAny_some
    unfold TypeExpr.Undotted
    exact ho b rfl

theorem enclosed? {statements : Reader (List Statement)} {type? : Reader (Option TypeExpr)}
    (hs : Reads Statement.AllUndotted statements) (ht : Reads (IfAny TypeExpr.Undotted) type?) :
    Reads (IfAny TypeExpr.Undotted) (enclosed? statements type?) := by
  refine ((ht.require _).between? _ _).bind fun o ho => ?_
  split
  · exact pure (ifAny_some (ho _ rfl))
  · exact (block? hs).bind fun o ho => body ho

theorem typeOrBlock? {block? : Reader (Option Body)} {type? : Reader (Option TypeExpr)}
    (hb : Reads (IfAny Body.Undotted) block?) (ht : Reads (IfAny TypeExpr.Undotted) type?) :
    Reads (IfAny TypeExpr.Undotted) (typeOrBlock? block? type?) := by
  refine (accept _).bind fun found _ => ?_
  split
  · exact (ht.require _).bind fun e he => pure (ifAny_some he)
  · exact hb.bind fun o ho => body ho

theorem fieldsOrConstraint (p : Position) (left : Operand) {type? : Reader (Option TypeExpr)}
    (ht : Reads (IfAny TypeExpr.Undotted) type?) :
    Reads Statement.Undotted (fieldsOrConstraint p left type?) := by
  refine (accept _).bind fun found _ => ?_
  split
  · refine (operand?.require _).bind fun right _ => pure ?_
    unfold Statement.Undotted
    trivial
  · split
    · refine get.bind fun _ _ => (moreNames _).bind fun _ _ => (ht.require _).bind fun e he =>
        pure ?_
      unfold Statement.Undotted
      exact he
    · exact throw trivial

theorem statement? {block? : Reader (Option Body)} {type? : Reader (Option TypeExpr)}
    (hb : Reads (IfAny Body.Undotted) block?) (ht : Reads (IfAny TypeExpr.Undotted) type?) :
    Reads (IfAny Statement.Undotted) (statement? block? type?) := by
  refine position.bind fun p _ => (accept _).bind fun isVariant _ => ?_
  split
  · refine ident?.bind fun name hname => hb.bind fun body hbody => pure (ifAny_some ?_)
    cases name <;> cases body <;> unfold Statement.Undotted
    · trivial
    · exact hbody _ rfl
    · exact hname _ rfl
    · exact ⟨hname _ rfl, hbody _ rfl⟩
  · refine (accept _).bind fun isSpace _ => ?_
    split
    · refine (ident?.require _).bind fun name hname => hb.bind fun body hbody =>
        pure (ifAny_some ?_)
      cases body <;> unfold Statement.Undotted
      · exact hname
      · exact ⟨hname, hbody _ rfl⟩
    · refine (accept _).bind fun isType _ => ?_
      split
      · refine (ident?.require _).bind fun name hname =>
          (typeOrBlock? hb ht).bind fun e he => pure (ifAny_some ?_)
        cases e <;> unfold Statement.Undotted
        · exact hname
        · exact ⟨hname, he _ rfl⟩
      · refine operand?.bind fun o _ => ?_
        split
        · exact (fieldsOrConstraint _ _ ht).bind fun s hs => pure (ifAny_some hs)
        · exact pure ifAny_none

theorem toArg (o : Operand) : o.toArg.Undotted := by
  cases o <;> exact trivial

mutual

theorem statements (fuel : Nat) : Reads Statement.AllUndotted (statements fuel) := by
  cases fuel with
  | zero => exact refuse _
  | succ fuel =>
    refine (accept _).bind fun empty _ => ?_
    split
    · exact statements fuel
    · refine (statement? (block? (statements fuel)) (type? fuel)).bind fun o ho => ?_
      split
      · exact (expect _).bind fun _ _ => (statements fuel).bind fun rest hrest =>
          pure ⟨ho _ rfl, hrest⟩
      · exact pure trivial

theorem type? (fuel : Nat) : Reads (IfAny TypeExpr.Undotted) (type? fuel) := by
  cases fuel with
  | zero => exact refuse _
  | succ fuel =>
    refine position.bind fun p _ => (enclosed? (statements fuel) (type? fuel)).bind fun o ho => ?_
    split
    · exact pure (ifAny_some (ho _ rfl))
    · refine operand?.bind fun head _ => ?_
      split
      · exact (typeArgs fuel).bind fun args hargs => pure (ifAny_some ⟨toArg _, hargs⟩)
      · exact pure ifAny_none

theorem typeArgs (fuel : Nat) : Reads TypeArg.AllUndotted (typeArgs fuel) := by
  cases fuel with
  | zero => exact refuse _
  | succ fuel =>
    refine (enclosed? (statements fuel) (type? fuel)).bind fun o ho => ?_
    split
    · exact (typeArgs fuel).bind fun rest hrest => pure ⟨ho _ rfl, hrest⟩
    · refine operand?.bind fun a _ => ?_
      split
      · exact (typeArgs fuel).bind fun rest hrest => pure ⟨toArg _, hrest⟩
      · exact pure trivial

end

theorem wholeBody : Reads Body.Undotted wholeBody := by
  refine (get.bind fun _ _ => bodyOf (statements _)).bind fun b hb => ?_
  refine peek.bind fun o _ => ?_
  split
  · exact pure hb
  · exact refuse _

end Reads

end TokenStream

/-- What is read has names without dots, and where reading fails the text is at fault. -/
theorem Body.ofText_reads (source text : String) :
    match ofText source text with
    | .ok b => b.Undotted
    | .error e => e.IsSyntactic := by
  have hclean := TokenStream.clean_ofSpot source ⟨.start, text.toList⟩
  have hreads := TokenStream.Reads.wholeBody _ hclean
  unfold ofText TokenStream.ofText
  split at hreads
  · rename_i hrun
    rw [hrun]
    exact hreads.1
  · rename_i hrun
    rw [hrun]
    exact hreads

theorem Body.ofText_undotted {source text : String} {b : Body} (h : ofText source text = .ok b) :
    b.Undotted := by
  simpa [h] using Body.ofText_reads source text

theorem Body.ofText_error {source text : String} {e : SchemaError}
    (h : ofText source text = .error e) : e.IsSyntactic := by
  simpa [h] using Body.ofText_reads source text

end PacketSchema
