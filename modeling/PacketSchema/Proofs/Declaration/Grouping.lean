import PacketSchema.Proofs.Declaration.FieldNames
import PacketSchema.Proofs.Declaration.Relocation

/-! Declarations that are grouped. Somewhere in a text, declarations in a row in the body of a
struct, a variant or a proxy are put into a proxy of their own. -/

namespace PacketSchema

/-- What belongs to the scope in which it is declared, and not to a proxy in it. -/
def Statement.isPart : Statement → Bool
  | .constraint _ _ _ | .fields _ _ _ => true
  | .space _ _ _ | .type _ _ _ | .variant _ _ _ => false

mutual

/-- The second one is the first one with a group in it. -/
inductive TypeArg.Groups : TypeArg → TypeArg → Prop
  | type {e e' : TypeExpr} (h : e.Groups e') : TypeArg.Groups (.type e) (.type e')

inductive TypeExpr.Groups : TypeExpr → TypeExpr → Prop
  | head {p : Position} {a a' : TypeArg} {params : List TypeArg} (h : a.Groups a') :
      TypeExpr.Groups (.application p a params) (.application p a' params)
  | param {p : Position} {head a a' : TypeArg} {front back : List TypeArg} (h : a.Groups a') :
      TypeExpr.Groups (.application p head (front ++ a :: back))
        (.application p head (front ++ a' :: back))
  | body {b b' : Body} (h : b.Groups true b') : TypeExpr.Groups (.body b) (.body b')

/-- Only in the body of a struct, a variant or a proxy there may be a proxy. -/
inductive Body.Groups : Body → Bool → Body → Prop
  | here {p q r : Position} {front group back : List Statement}
      (hgroup : ∀ st ∈ group, st.isPart = false) :
      Body.Groups (.mk p (front ++ (group ++ back))) true
        (.mk p (front ++ .variant q none (some (.mk r group)) :: back))
  | within {isStruct : Bool} {p : Position} {front back : List Statement} {st st' : Statement}
      (h : st.Groups st') :
      Body.Groups (.mk p (front ++ st :: back)) isStruct (.mk p (front ++ st' :: back))

inductive Statement.Groups : Statement → Statement → Prop
  | space {p : Position} {name : Ident} {b b' : Body} (h : b.Groups false b') :
      Statement.Groups (.space p name (some b)) (.space p name (some b'))
  | type {p : Position} {name : Ident} {e e' : TypeExpr} (h : e.Groups e') :
      Statement.Groups (.type p name (some e)) (.type p name (some e'))
  | variant {p : Position} {name : Option Ident} {b b' : Body} (h : b.Groups true b') :
      Statement.Groups (.variant p name (some b)) (.variant p name (some b'))
  | fields {p : Position} {names : List Ident} {e e' : TypeExpr} (h : e.Groups e') :
      Statement.Groups (.fields p names e) (.fields p names e')

end

theorem Body.Groups.position_eq {b b' : Body} {isStruct : Bool} (h : b.Groups isStruct b') :
    b'.position = b.position := by
  cases h <;> rfl

theorem TypeExpr.Groups.position_eq {e e' : TypeExpr} (h : e.Groups e') :
    e'.position = e.position := by
  cases h with
  | head _ => rfl
  | param _ => rfl
  | body h => exact h.position_eq

theorem TypeArg.Groups.position_eq {a a' : TypeArg} (h : a.Groups a') :
    a'.position = a.position := by
  cases h with
  | type h => exact h.position_eq

theorem TypeExpr.Groups.of_no_params {p : Position} {head : TypeArg} {e : TypeExpr}
    (h : TypeExpr.Groups (.application p head []) e) :
    ∃ head', e = .application p head' [] ∧ head.Groups head' := by
  generalize hparams : ([] : List TypeArg) = params at h ⊢
  cases h with
  | head h => exact ⟨_, rfl, h⟩
  | param _ => simp at hparams

/-! ### Fields with names, in another print -/

section

variable (r : Print)

mutual

theorem TypeArg.namesFields_reprint : ∀ a : TypeArg, a.NamesFields → (a.reprint r).NamesFields
  | .name _, _ | .value _, _ => trivial
  | .type e, h => TypeExpr.namesFields_reprint e h

theorem TypeExpr.namesFields_reprint :
    ∀ e : TypeExpr, e.NamesFields → (e.reprint r).NamesFields
  | .application _ head params, h =>
    ⟨TypeArg.namesFields_reprint head h.1, TypeArg.allNameFields_reprint params h.2⟩
  | .body b, h => Body.namesFields_reprint b h

theorem TypeArg.allNameFields_reprint :
    ∀ args : List TypeArg, TypeArg.AllNameFields args →
      TypeArg.AllNameFields (reprintArgs r args)
  | [], _ => trivial
  | a :: args, h =>
    ⟨TypeArg.namesFields_reprint a h.1, TypeArg.allNameFields_reprint args h.2⟩

theorem Body.namesFields_reprint : ∀ b : Body, b.NamesFields → (b.reprint r).NamesFields
  | .mk _ sts, h => Statement.allNameFields_reprint sts h

theorem Statement.namesFields_reprint :
    ∀ st : Statement, st.NamesFields → (st.reprint r).NamesFields
  | .space _ _ none, _ | .type _ _ none, _ | .variant _ _ none, _ | .constraint _ _ _, _ => trivial
  | .space _ _ (some b), h | .variant _ _ (some b), h => Body.namesFields_reprint b h
  | .type _ _ (some e), h => TypeExpr.namesFields_reprint e h
  | .fields _ names e, h =>
    ⟨by simpa using h.1, TypeExpr.namesFields_reprint e h.2⟩

theorem Statement.allNameFields_reprint :
    ∀ sts : List Statement, Statement.AllNameFields sts →
      Statement.AllNameFields (reprintAll r sts)
  | [], _ => trivial
  | st :: sts, h =>
    ⟨Statement.namesFields_reprint st h.1, Statement.allNameFields_reprint sts h.2⟩

end

end

end PacketSchema
