import PacketSchema.Proofs.Compilation.Composing
import PacketSchema.Proofs.Compilation.Stages
import PacketSchema.Proofs.Schema.Linking

/-! What compiling makes of declarations, as a judgment between the schema before and the schema
after. A derivation follows the syntax. It tells which scopes are opened and what is compiled in
them, what a name is bound to and what it was checked for before, and what refers to what has been
made. -/

namespace PacketSchema

/-- The type expression that an argument is, where it is taken for one. -/
def TypeArg.expr? : TypeArg → Option TypeExpr
  | .name n => some (.application n.position (.name n) [])
  | .value _ => none
  | .type e => some e

/-- An argument in which nothing can be declared. -/
def TypeArg.IsWord : TypeArg → Prop
  | .name _ | .value _ => True
  | .type _ => False

def Statement.isVariant : Statement → Bool
  | .variant _ _ _ => true
  | .space _ _ _ | .type _ _ _ | .constraint _ _ _ | .fields _ _ _ => false

theorem Scope.item_of_path {scope : Scope} (h : scope.kind.path?.isSome = true) (id : ScopeId) :
    scope.item id = .type (.struct id) := by
  unfold item
  cases hk : scope.kind <;> simp [hk, ScopeKind.path?] at h ⊢

namespace Compilation

open Schema

/-- What is to be compiled in a scope, and what comes of it. -/
inductive Job where
  /-- The inside of a new scope. -/
  | scope (scope : Scope) (body : List Statement) (id : ScopeId)
  | type (e : TypeExpr) (t : TypeRef)
  /-- An argument that is a length. -/
  | length (a : TypeArg)
  /-- The arguments of an applied type. -/
  | applied (args : List TypeArg) (t : ParamType)
  /-- What the name of a declaration stands for. -/
  | meaning (st : Statement) (item : Item)
  /-- A declaration together with its name. -/
  | bound (st : Statement) (item : Item)
  | statement (st : Statement)
  | statements (sts : List Statement)

/-- The scope that a declaration with a name opens, and what is declared in it. -/
inductive Stands (d : ScopeId) : Statement → Scope → List Statement → Prop
  | space (p : Position) (name : Ident) (body : Option Body) :
      Stands d (.space p name body) ⟨some name.text, some d, some p, .space, {}⟩ (Body.inside body)
  | struct (p : Position) (name : Ident) {e : Option TypeExpr} {body : List Statement}
      (h : TypeExpr.inside? e = some body) :
      Stands d (.type p name e) ⟨some name.text, some d, some p, .struct {}, {}⟩ body
  | variant (p : Position) (name : Ident) (body : Option Body) {kind : ScopeKind}
      (h : kind.path?.isSome = true) :
      Stands d (.variant p (some name) body) ⟨some name.text, some d, some p, kind, {}⟩
        (Body.inside body)

/-- Fields of one type that a scope gets in turn, with warnings about late ones. -/
inductive AddsFields (d : ScopeId) (t : TypeRef) : List Ident → Schema → Schema → Prop
  | nil {s : Schema} : AddsFields d t [] s s
  | warn {names : List Ident} {s s' : Schema} (f : Finding)
      (h : AddsFields d t names (s.addWarning f) s') : AddsFields d t names s s'
  | cons {name : Ident} {names : List Ident} {s s' : Schema} {layout : Layout}
      (hl : s.layout? d = some layout) (hnew : layout.fields.find? name.text = none)
      (h : AddsFields d t names
        (s.modifyLayout d (·.addField name.text ⟨t, name.position⟩)) s') :
      AddsFields d t (name :: names) s s'

/-- Somewhere in a run the type expression was resolved to the type. -/
def Resolved (ms : List Compilation) (d : ScopeId) (e : TypeExpr) (t : TypeRef) : Prop :=
  ∃ c ∈ ms, ∃ c' ∈ ms, (resolve d e : Build TypeRef).run c = (.ok t, c')

/-- In a run with these moments the schema after a job comes from the schema before it. -/
inductive Makes (ms : List Compilation) : ScopeId → Job → Schema → Schema → Prop
  | scope {d task scope body s s'} (hopens : Opens s d task scope)
      (h : Makes ms s.nextId (.statements body) (s.addScope scope) s') :
      Makes ms d (.scope scope body s.nextId) s s'
  | builtin {d p n b s} (hb : Builtin.ofName? (Name.text n) = some b)
      (hplain : b.isParameterized = false) :
      Makes ms d (.type (.application p (.name n) []) (.builtin b)) s s
  | application {d p n b args t s s'} (hb : Builtin.ofName? (Name.text n) = some b)
      (h : Makes ms d (.applied args t) s s') :
      Makes ms d (.type (.application p (.name n) args) (.param (s'.types.intern t).1)) s
        (s'.intern t)
  | named {d p n t s} (hb : Builtin.ofName? (Name.text n) = none)
      (hfound : s.lookup? d n.path = some (.type t)) :
      Makes ms d (.type (.application p (.name n) []) t) s s
  | grouped {d p e t s s'} (h : Makes ms d (.type e t) s s') :
      Makes ms d (.type (.application p (.type e) []) t) s s'
  | inline {d p body id s s'}
      (h : Makes ms d (.scope ⟨none, some d, some p, .struct {}, {}⟩ body id) s s') :
      Makes ms d (.type (.body (.mk p body)) (.struct id)) s s'
  | word {d a s} (ha : TypeArg.IsWord a) : Makes ms d (.length a) s s
  | counted {d a e b s s'} (he : a.expr? = some e) (h : Makes ms d (.type e (.builtin b)) s s') :
      Makes ms d (.length a) s s'
  | plain {d args t s} (hargs : ∀ a ∈ args, TypeArg.IsWord a) (ht : ParamType.elem? t = none) :
      Makes ms d (.applied args t) s s
  | measured {d a args t s s'} (hargs : ∀ a ∈ args, TypeArg.IsWord a)
      (ht : ParamType.elem? t = none) (h : Makes ms d (.length a) s s') :
      Makes ms d (.applied (a :: args) t) s s'
  | array {d l a e length t s s₁ s'} (hl : Makes ms d (.length l) s s₁) (he : a.expr? = some e)
      (h : Makes ms d (.type e t) s₁ s') : Makes ms d (.applied [l, a] (.array length t)) s s'
  | boolOptional {d a e t s s'} (he : a.expr? = some e) (h : Makes ms d (.type e t) s s') :
      Makes ms d (.applied [a] (.boolOptional t)) s s'
  | opened {d st scope body id s s'} (hst : Stands d st scope body)
      (h : Makes ms d (.scope scope body id) s s') : Makes ms d (.meaning st (scope.item id)) s s'
  | assigned {d p name q head args t s s'} (hrun : Resolved ms d (.application q head args) t)
      (h : Makes ms d (.type (.application q head args) t) s s') :
      Makes ms d (.meaning (.type p name (some (.application q head args))) (.type t)) s s'
  | bound {d st name item s s'} (hname : Statement.name? st = some name)
      (hfree : s.getLocal? d name.text = none) (h : Makes ms d (.meaning st item) s s') :
      Makes ms d (.bound st item) s (s'.bind d name.text item)
  | declared {d st item s s'} (hst : st.isVariant = false) (h : Makes ms d (.bound st item) s s') :
      Makes ms d (.statement st) s s'
  | variant {d p name body id a path layout s s'}
      (hclimb : climb none (some [name.text]) (s.chain d) = some a) (hpath : a.path = some path)
      (h : Makes ms d (.bound (.variant p (some name) body) (.type (.struct id))) s s')
      (hl : s'.layout? a.base = some layout) (hnew : layout.branches.find? path = none) :
      Makes ms d (.statement (.variant p (some name) body)) s
        (s'.modifyLayout a.base (·.addBranch path id))
  | proxy {d p kind body id s s'} (hk : ScopeKind.isProxy kind = true)
      (h : Makes ms d (.scope ⟨none, some d, some p, kind, {}⟩ (Body.inside body) id) s s') :
      Makes ms d (.statement (.variant p none body)) s s'
  | constraint {d p s layout} (name : Ident) (value : Value) (hl : s.layout? d = some layout) :
      Makes ms d (.statement (.constraint p (.name ⟨name, []⟩) (.value value))) s
        (s.modifyLayout d (·.addConstraint name.text value.literal))
  | fields {d p names e t s s₁ s'} (hnames : names ≠ []) (h : Makes ms d (.type e t) s s₁)
      (hadds : AddsFields d t names s₁ s') : Makes ms d (.statement (.fields p names e)) s s'
  | nil {d s} : Makes ms d (.statements []) s s
  | cons {d st sts s s₁ s'} (h : Makes ms d (.statement st) s s₁)
      (hrest : Makes ms d (.statements sts) s₁ s') : Makes ms d (.statements (st :: sts)) s s'

theorem Makes.append {ms : List Compilation} {d : ScopeId} {sts rest : List Statement}
    {s s₁ s' : Schema} (h : Makes ms d (.statements sts) s s₁)
    (hrest : Makes ms d (.statements rest) s₁ s') :
    Makes ms d (.statements (sts ++ rest)) s s' := by
  induction sts generalizing s with
  | nil =>
    cases h
    exact hrest
  | cons st sts ih =>
    cases h with
    | cons hst h => exact .cons hst (ih h)

/-- The declarations of all sources that can be read. -/
def statementsOf (sources : List (String × String)) : List Statement :=
  sources.flatMap fun (source, text) =>
    ((Body.ofText source text).toOption.map Body.statements).getD []

theorem statementsOf_append (sources more : List (String × String)) :
    statementsOf (sources ++ more) = statementsOf sources ++ statementsOf more :=
  List.flatMap_append

end Compilation

end PacketSchema
