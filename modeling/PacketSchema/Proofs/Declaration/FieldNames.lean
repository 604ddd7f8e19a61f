import PacketSchema.Proofs.Declaration.Parsing

/-! Declarations of fields in a text that has been read name at least one field each. -/

namespace PacketSchema

mutual

/-- The declarations of fields in it have names. -/
def TypeArg.NamesFields : TypeArg → Prop
  | .name _ | .value _ => True
  | .type e => e.NamesFields

def TypeExpr.NamesFields : TypeExpr → Prop
  | .application _ head params => head.NamesFields ∧ TypeArg.AllNameFields params
  | .body b => b.NamesFields

def Body.NamesFields : Body → Prop
  | .mk _ statements => Statement.AllNameFields statements

def Statement.NamesFields : Statement → Prop
  | .space _ _ none | .type _ _ none | .variant _ _ none | .constraint _ _ _ => True
  | .space _ _ (some body) | .variant _ _ (some body) => body.NamesFields
  | .type _ _ (some e) => e.NamesFields
  | .fields _ names e => names ≠ [] ∧ e.NamesFields

def TypeArg.AllNameFields : List TypeArg → Prop
  | [] => True
  | a :: rest => a.NamesFields ∧ TypeArg.AllNameFields rest

def Statement.AllNameFields : List Statement → Prop
  | [] => True
  | s :: rest => s.NamesFields ∧ Statement.AllNameFields rest

end

theorem Statement.allNameFields_append {sts rest : List Statement} :
    Statement.AllNameFields (sts ++ rest) ↔
      Statement.AllNameFields sts ∧ Statement.AllNameFields rest := by
  induction sts with
  | nil => simp [Statement.AllNameFields]
  | cons st sts ih => simp [Statement.AllNameFields, ih, and_assoc]

theorem TypeArg.allNameFields_append {args rest : List TypeArg} :
    TypeArg.AllNameFields (args ++ rest) ↔
      TypeArg.AllNameFields args ∧ TypeArg.AllNameFields rest := by
  induction args with
  | nil => simp [TypeArg.AllNameFields]
  | cons a args ih => simp [TypeArg.AllNameFields, ih, and_assoc]

namespace Grammar

theorem namesFields_toArg (o : PacketSchema.Operand) : o.toArg.NamesFields := by
  cases o <;> exact trivial

mutual

theorem Body.namesFields {p : Position} {ts : List Token} {b : PacketSchema.Body} :
    Body p ts b → b.NamesFields
  | .mk h => h.namesFields

theorem Statements.namesFields {ts : List Token} {ss : List PacketSchema.Statement} :
    Statements ts ss → Statement.AllNameFields ss
  | .nil => trivial
  | .skip _ h => h.namesFields
  | .cons hs _ h => ⟨hs.namesFields, h.namesFields⟩

theorem Statement.namesFields {ts : List Token} {s : PacketSchema.Statement} :
    Statement ts s → s.NamesFields
  | .space _ _ .none | .type _ _ .none | .variant _ _ .none | .proxy _ .none => trivial
  | .space _ _ (.some h) | .variant _ _ (.some h) | .proxy _ (.some h) => h.namesFields
  | .type _ _ (.spec _ h) => h.namesFields
  | .type _ _ (.block h) => h.namesFields
  | .constraint _ _ _ => trivial
  | .fields _ _ _ h => ⟨List.cons_ne_nil _ _, h.namesFields⟩

theorem Block.namesFields {ts : List Token} {b : PacketSchema.Body} : Block ts b → b.NamesFields
  | .mk _ h _ => h.namesFields

theorem Spec.namesFields {ts : List Token} {e : PacketSchema.TypeExpr} :
    Spec ts e → e.NamesFields
  | .enclosed h => h.namesFields
  | .application _ h => ⟨namesFields_toArg _, h.namesFields⟩

theorem Enclosed.namesFields {ts : List Token} {e : PacketSchema.TypeExpr} :
    Enclosed ts e → e.NamesFields
  | .parentheses _ h _ => h.namesFields
  | .block h => h.namesFields

theorem Args.namesFields {ts : List Token} {args : List PacketSchema.TypeArg} :
    Args ts args → TypeArg.AllNameFields args
  | .nil => trivial
  | .operand _ h => ⟨namesFields_toArg _, h.namesFields⟩
  | .enclosed he h => ⟨he.namesFields, h.namesFields⟩

end

end Grammar

theorem Body.ofText_namesFields {source text : String} {b : Body}
    (h : ofText source text = .ok b) : b.NamesFields := by
  obtain ⟨_, -, -, hbody⟩ :=
    TokenStream.derives_of_returns (Prod.ext h rfl : TokenStream.Returns _ _ b _)
  exact hbody.namesFields

end PacketSchema
