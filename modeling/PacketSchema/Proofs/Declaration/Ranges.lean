import PacketSchema.Proofs.Declaration.Parsing

/-! Every number in declarations that have been read is a signed integer of 64 bits. -/

namespace PacketSchema

/-- A number in the range of numbers, or a text. -/
def Literal.Bounded : Literal → Prop
  | .number n => InRange n
  | .text _ => True

def Operand.Bounded : Operand → Prop
  | .name _ => True
  | .value v => v.literal.Bounded

mutual

/-- The literals in it are bounded. -/
def TypeArg.Bounded : TypeArg → Prop
  | .name _ => True
  | .value v => v.literal.Bounded
  | .type e => e.Bounded

def TypeExpr.Bounded : TypeExpr → Prop
  | .application _ head params => head.Bounded ∧ TypeArg.AllBounded params
  | .body b => b.Bounded

def Body.Bounded : Body → Prop
  | .mk _ statements => Statement.AllBounded statements

def Statement.Bounded : Statement → Prop
  | .space _ _ none | .type _ _ none | .variant _ _ none => True
  | .space _ _ (some body) | .variant _ _ (some body) => body.Bounded
  | .type _ _ (some e) => e.Bounded
  | .constraint _ left right => left.Bounded ∧ right.Bounded
  | .fields _ _ e => e.Bounded

def TypeArg.AllBounded : List TypeArg → Prop
  | [] => True
  | a :: rest => a.Bounded ∧ TypeArg.AllBounded rest

def Statement.AllBounded : List Statement → Prop
  | [] => True
  | s :: rest => s.Bounded ∧ Statement.AllBounded rest

end

namespace Grammar

variable {ts us : List Token}

theorem Operand.bounded {o : PacketSchema.Operand} (h : Operand ts o)
    (hrange : ∀ t ∈ ts, t.InRange) : o.Bounded := by
  cases h with
  | name _ _ => exact trivial
  | number ht hn => exact hrange _ (List.mem_singleton.2 rfl) ht _ hn
  | string _ => exact trivial

theorem bounded_toArg {o : PacketSchema.Operand} (h : o.Bounded) : o.toArg.Bounded := by
  cases o <;> exact h


mutual

theorem Body.bounded {p : Position} {ts : List Token} {b : PacketSchema.Body} :
    Body p ts b → (∀ t ∈ ts, t.InRange) → b.Bounded
  | .mk h, hrange => h.bounded hrange

theorem Statements.bounded {ts : List Token} {ss : List PacketSchema.Statement} :
    Statements ts ss → (∀ t ∈ ts, t.InRange) → Statement.AllBounded ss
  | .nil, _ => trivial
  | .skip _ h, hrange => h.bounded (List.forall_mem_cons.1 hrange).2
  | .cons hs _ h, hrange =>
    have hsplit := List.forall_mem_append.1 hrange
    ⟨hs.bounded hsplit.1, h.bounded (List.forall_mem_cons.1 hsplit.2).2⟩

theorem Statement.bounded {ts : List Token} {s : PacketSchema.Statement} :
    Statement ts s → (∀ t ∈ ts, t.InRange) → s.Bounded
  | .space _ _ .none, _ | .type _ _ .none, _ | .variant _ _ .none, _ | .proxy _ .none, _ => trivial
  | .space _ _ (.some h), hrange | .variant _ _ (.some h), hrange =>
    h.bounded fun t ht => hrange t (.tail _ (.tail _ ht))
  | .proxy _ (.some h), hrange => h.bounded (List.forall_mem_cons.1 hrange).2
  | .type _ _ (.spec _ h), hrange => h.bounded fun t ht => hrange t (.tail _ (.tail _ (.tail _ ht)))
  | .type _ _ (.block h), hrange => h.bounded fun t ht => hrange t (.tail _ (.tail _ ht))
  | .constraint hleft _ hright, hrange =>
    have hsplit := List.forall_mem_append.1 hrange
    ⟨hleft.bounded hsplit.1, hright.bounded (List.forall_mem_cons.1 hsplit.2).2⟩
  | .fields _ _ _ h, hrange =>
    h.bounded (List.forall_mem_cons.1 (List.forall_mem_append.1 hrange).2).2

theorem Block.bounded {ts : List Token} {b : PacketSchema.Body} :
    Block ts b → (∀ t ∈ ts, t.InRange) → b.Bounded
  | .mk _ h _, hrange =>
    h.bounded fun t ht => hrange t (List.mem_append_left _ (.tail _ ht))

theorem Spec.bounded {ts : List Token} {e : PacketSchema.TypeExpr} :
    Spec ts e → (∀ t ∈ ts, t.InRange) → e.Bounded
  | .enclosed h, hrange => h.bounded hrange
  | .application hhead h, hrange =>
    have hsplit := List.forall_mem_append.1 hrange
    ⟨bounded_toArg (hhead.bounded hsplit.1), h.bounded hsplit.2⟩

theorem Enclosed.bounded {ts : List Token} {e : PacketSchema.TypeExpr} :
    Enclosed ts e → (∀ t ∈ ts, t.InRange) → e.Bounded
  | .parentheses _ h _, hrange =>
    h.bounded fun t ht => hrange t (List.mem_append_left _ (.tail _ ht))
  | .block h, hrange => h.bounded hrange

theorem Args.bounded {ts : List Token} {args : List PacketSchema.TypeArg} :
    Args ts args → (∀ t ∈ ts, t.InRange) → TypeArg.AllBounded args
  | .nil, _ => trivial
  | .operand ha h, hrange =>
    have hsplit := List.forall_mem_append.1 hrange
    ⟨bounded_toArg (ha.bounded hsplit.1), h.bounded hsplit.2⟩
  | .enclosed he h, hrange =>
    have hsplit := List.forall_mem_append.1 hrange
    ⟨he.bounded hsplit.1, h.bounded hsplit.2⟩

end

end Grammar

theorem Body.ofText_bounded {source text : String} {b : Body} (h : ofText source text = .ok b) :
    b.Bounded := by
  obtain ⟨_, -, hrange, hbody⟩ :=
    TokenStream.derives_of_returns (Prod.ext h rfl : TokenStream.Returns _ _ b _)
  exact hbody.bounded hrange

end PacketSchema
