import PacketSchema.Proofs.WireType.Interning
import PacketSchema.Schema.Naming

/-! Types spelled out. Applied types are replaced by what their numbers stand for, down to builtins
and structs. Where every applied type has one number, types are the same if they are spelled out
alike. -/

namespace PacketSchema

inductive TypeTree where
  | builtin (builtin : Builtin)
  | struct (id : ScopeId)
  | string (length : Length) (encoding : StringEncoding)
  | bytes (length : Length)
  | uuid (encoding : UuidEncoding)
  | array (length : Length) (elem : TypeTree)
  | boolOptional (elem : TypeTree)
deriving DecidableEq, Repr

/-- An applied type with its element spelled out, if it has one. -/
def ParamType.tree : ParamType → TypeTree → TypeTree
  | string length encoding, _ => .string length encoding
  | bytes length, _ => .bytes length
  | uuid encoding, _ => .uuid encoding
  | array length _, elem => .array length elem
  | boolOptional _, elem => .boolOptional elem

namespace Schema

inductive Unfolds (s : Schema) : TypeRef → TypeTree → Prop
  | builtin (b : Builtin) : s.Unfolds (.builtin b) (.builtin b)
  | struct (id : ScopeId) : s.Unfolds (.struct id) (.struct id)
  | param {id : ParamId} {t : ParamType} {elem : TypeTree} (ht : s.param? id = some t)
      (h : ∀ u, t.elem? = some u → s.Unfolds u elem) : s.Unfolds (.param id) (t.tree elem)

/-- A type is the element of another. -/
def ElemOf (s : Schema) (u t : TypeRef) : Prop :=
  ∃ id p, t = .param id ∧ s.param? id = some p ∧ p.elem? = some u

/-- The types that fields, names and other types refer to. -/
inductive Stores (s : Schema) : TypeRef → Prop
  | field {id : ScopeId} {l : Layout} {name : String} {field : Field} (hl : s.layout? id = some l)
      (h : (name, field) ∈ l.fields.entries) : s.Stores field.type
  | binding {id : ScopeId} {scope : Scope} {name : String} {t : TypeRef}
      (hs : s.scope? id = some scope) (h : (name, .type t) ∈ scope.names.entries) : s.Stores t
  | elem {t u : TypeRef} (h : s.ElemOf u t) : s.Stores u

variable {s : Schema}

theorem tree_congr {t : ParamType} {elem elem' : TypeTree}
    (h : ∀ u, t.elem? = some u → elem = elem') : t.tree elem = t.tree elem' := by
  cases t with
  | string _ _ => rfl
  | bytes _ => rfl
  | uuid _ => rfl
  | array _ u => rw [h u rfl]
  | boolOptional u => rw [h u rfl]

/-- Applied types are the same if they are spelled out alike and their elements are the same. -/
theorem eq_of_tree_eq {t t' : ParamType} {elem elem' : TypeTree}
    (htree : t.tree elem = t'.tree elem')
    (helem : elem = elem' → ∀ u u', t.elem? = some u → t'.elem? = some u' → u = u') : t = t' := by
  cases t with
  | string _ _ =>
    cases t' <;> cases htree
    rfl
  | bytes _ =>
    cases t' <;> cases htree
    rfl
  | uuid _ =>
    cases t' <;> cases htree
    rfl
  | array _ u =>
    cases t' <;> cases htree
    rw [helem rfl u _ rfl rfl]
  | boolOptional u =>
    cases t' <;> cases htree
    rw [helem rfl u _ rfl rfl]

/-- A type is spelled out in one way. -/
theorem Unfolds.unique {t : TypeRef} {tree tree' : TypeTree} (h : s.Unfolds t tree)
    (h' : s.Unfolds t tree') : tree = tree' := by
  induction h generalizing tree' with
  | builtin _ =>
    cases h'
    rfl
  | struct _ =>
    cases h'
    rfl
  | @param id p elem hp _ ih =>
    cases h' with
    | param hp' helem' =>
      cases hp.symm.trans hp'
      exact tree_congr fun u hu => ih u hu (helem' u hu)

/-- Types that are spelled out alike are the same, as types have no two numbers. -/
theorem Unfolds.injective (hcache : s.types.Inverse) {t u : TypeRef} {tree : TypeTree}
    (h : s.Unfolds t tree) (h' : s.Unfolds u tree) : t = u := by
  induction h generalizing u with
  | builtin _ =>
    generalize htree : TypeTree.builtin _ = tree at h'
    cases h' with
    | builtin _ => cases htree; rfl
    | struct _ => cases htree
    | @param _ p _ _ _ => cases p <;> cases htree
  | struct _ =>
    generalize htree : TypeTree.struct _ = tree at h'
    cases h' with
    | builtin _ => cases htree
    | struct _ => cases htree; rfl
    | @param _ p _ _ _ => cases p <;> cases htree
  | @param id p elem hp _ ih =>
    generalize htree : p.tree elem = tree at h'
    cases h' with
    | builtin _ => cases p <;> cases htree
    | struct _ => cases p <;> cases htree
    | @param id' p' elem' hp' helem' =>
      obtain rfl : p = p' := by
        refine eq_of_tree_eq htree ?_
        rintro rfl v v' hv hv'
        exact ih v hv (helem' v' hv')
      have hid := (hcache p id).2 hp
      rw [(hcache p id').2 hp'] at hid
      rw [Option.some.inj hid]

/-- A number of an applied type has been given to one. -/
def Knows (s : Schema) (t : TypeRef) : Prop := ∀ id, t = .param id → ∃ p, s.param? id = some p

/-- What is known can be spelled out, as long as no type is an element of itself. -/
theorem exists_unfolds (hwf : WellFounded s.ElemOf) (hknown : ∀ u t, s.ElemOf u t → s.Knows u)
    {t : TypeRef} (ht : s.Knows t) : ∃ tree, s.Unfolds t tree := by
  induction t using hwf.induction with
  | _ t ih =>
    cases t with
    | builtin b => exact ⟨_, .builtin b⟩
    | struct id => exact ⟨_, .struct id⟩
    | param id =>
      obtain ⟨p, hp⟩ := ht id rfl
      cases he : p.elem? with
      | none => exact ⟨p.tree (.struct root), .param hp fun u hu => by rw [he] at hu; cases hu⟩
      | some u =>
        have hu : s.ElemOf u (.param id) := ⟨id, p, rfl, hp, he⟩
        obtain ⟨tree, htree⟩ := ih u hu (hknown u _ hu)
        refine ⟨p.tree tree, .param hp fun v hv => ?_⟩
        obtain rfl := Option.some.inj (he.symm.trans hv)
        exact htree

end Schema

end PacketSchema
