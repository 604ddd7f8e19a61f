import PacketSchema.Proofs.Schema.Reprinting

/-! Scopes under other numbers. What a schema holds refers to scopes by their numbers, and nothing
that is done with it depends on which numbers these are, as long as they stay different. -/

namespace PacketSchema

namespace Table

variable {κ ι α : Type} [DecidableEq κ] [DecidableEq ι]

def mapKeys (g : κ → ι) (t : Table κ α) : Table ι α := ⟨t.entries.map (Prod.map g id)⟩

variable {g : κ → ι} (hg : Function.Injective g)

include hg

theorem lookup_mapKeys (k : κ) (entries : List (κ × α)) :
    lookup (g k) (entries.map (Prod.map g id)) = lookup k entries := by
  induction entries with
  | nil => rfl
  | cons entry rest ih =>
    obtain ⟨j, a⟩ := entry
    simp only [List.map_cons, lookup, Prod.map, id, ih, hg.eq_iff]

theorem put_mapKeys (k : κ) (a : α) (entries : List (κ × α)) :
    put (g k) a (entries.map (Prod.map g id)) = (put k a entries).map (Prod.map g id) := by
  induction entries with
  | nil => rfl
  | cons entry rest ih =>
    obtain ⟨j, b⟩ := entry
    simp only [List.map_cons, put, Prod.map, id, ih, hg.eq_iff]
    split <;> rfl

theorem find?_mapKeys (t : Table κ α) (k : κ) : (t.mapKeys g).find? (g k) = t.find? k :=
  lookup_mapKeys hg k t.entries

theorem insert_mapKeys (t : Table κ α) (k : κ) (a : α) :
    (t.mapKeys g).insert (g k) a = (t.insert k a).mapKeys g :=
  congrArg Table.mk (put_mapKeys hg k a t.entries)

end Table

section

variable (f : ScopeId → ScopeId)

def TypeRef.renumber : TypeRef → TypeRef
  | builtin b => builtin b
  | param id => param id
  | struct id => struct (f id)

def ParamType.renumber : ParamType → ParamType
  | string length encoding => string length encoding
  | bytes length => bytes length
  | uuid encoding => uuid encoding
  | array length elem => array length (elem.renumber f)
  | boolOptional elem => boolOptional (elem.renumber f)

def TypeCache.renumber (c : TypeCache) : TypeCache :=
  ⟨c.types.map (ParamType.renumber f), c.index.mapKeys (ParamType.renumber f)⟩

def Item.renumber : Item → Item
  | space id => space (f id)
  | type t => type (t.renumber f)

def Field.renumber (field : Field) : Field := { field with type := field.type.renumber f }

def Entry.renumber : Entry → Entry
  | field name => field name
  | constraint name value => constraint name value
  | branch path id => branch path (f id)

def Layout.renumber (l : Layout) : Layout where
  fields := l.fields.map (Field.renumber f)
  constraints := l.constraints
  branches := l.branches.map f
  order := l.order.map (Entry.renumber f)

def ScopeKind.renumber : ScopeKind → ScopeKind
  | space => space
  | struct layout => struct (layout.renumber f)
  | variant layout base path => variant (layout.renumber f) (f base) path
  | proxy layout base => proxy (layout.renumber f) (f base)

/-- Under other numbers for everything but the scope that it stands in. -/
def Scope.renumber (scope : Scope) : Scope :=
  { scope with kind := scope.kind.renumber f, names := scope.names.map (Item.renumber f) }

end

variable {f : ScopeId → ScopeId}

/-! ### Types -/

section

variable (hf : Function.Injective f)

include hf

theorem TypeRef.renumber_injective : Function.Injective (renumber f) := by
  intro t u h
  cases t <;> cases u <;> simp [renumber, hf.eq_iff] at h ⊢ <;> exact h

theorem ParamType.renumber_injective : Function.Injective (renumber f) := by
  intro t u h
  cases t <;> cases u <;>
    simp [renumber, (TypeRef.renumber_injective hf).eq_iff] at h ⊢ <;> exact h

theorem TypeCache.find?_renumber (c : TypeCache) (t : ParamType) :
    (c.renumber f).find? (t.renumber f) = c.find? t :=
  c.index.find?_mapKeys (ParamType.renumber_injective hf) t

theorem TypeCache.intern_renumber (c : TypeCache) (t : ParamType) :
    (c.renumber f).intern (t.renumber f) = ((c.intern t).1, (c.intern t).2.renumber f) := by
  have hsize : (c.renumber f).size = c.size := List.length_map _
  have hindex := c.index.insert_mapKeys (ParamType.renumber_injective hf) t ⟨c.size⟩
  unfold intern
  rw [c.find?_renumber hf, hsize]
  cases c.find? t with
  | some id => rfl
  | none => simp [renumber, hindex]

end

theorem TypeCache.get?_renumber (c : TypeCache) (id : ParamId) :
    (c.renumber f).get? id = (c.get? id).map (ParamType.renumber f) :=
  List.getElem?_map

@[simp] theorem ParamType.constructor_renumber (t : ParamType) :
    (t.renumber f).constructor = t.constructor := by
  cases t <;> rfl

theorem Item.scope?_renumber (item : Item) :
    (item.renumber f).scope? = item.scope?.map f := by
  cases item with
  | space id => rfl
  | type t => cases t <;> rfl

theorem Item.type?_renumber (item : Item) :
    (item.renumber f).type? = item.type?.map (TypeRef.renumber f) := by
  cases item <;> rfl

/-! ### Layouts -/

namespace Layout

variable (l : Layout)

theorem renumber_snapshot : l.snapshot.renumber f = (l.renumber f).snapshot := rfl

theorem renumber_addField (name : String) (field : Field) :
    (l.addField name field).renumber f = (l.renumber f).addField name (field.renumber f) := by
  have hinsert := l.fields.insert_map (Field.renumber f) name field
  simp [renumber, addField, hinsert, Entry.renumber]

theorem renumber_addConstraint (name : String) (value : Literal) :
    (l.addConstraint name value).renumber f = (l.renumber f).addConstraint name value := by
  simp [renumber, addConstraint, Entry.renumber]

theorem renumber_addBranch (path : Path) (id : ScopeId) :
    (l.addBranch path id).renumber f = (l.renumber f).addBranch path (f id) := by
  have hinsert := l.branches.insert_map f path id
  simp [renumber, addBranch, hinsert, Entry.renumber]

end Layout

namespace ScopeKind

variable (kind : ScopeKind)

theorem layout?_renumber : (kind.renumber f).layout? = kind.layout?.map (Layout.renumber f) := by
  cases kind <;> rfl

@[simp] theorem isProxy_renumber : (kind.renumber f).isProxy = kind.isProxy := by
  cases kind <;> rfl

theorem renumber_mapLayout {g h : Layout → Layout}
    (hg : ∀ l, (g l).renumber f = h (l.renumber f)) :
    (kind.mapLayout g).renumber f = (kind.renumber f).mapLayout h := by
  cases kind <;> simp [mapLayout, renumber, hg]

end ScopeKind

end PacketSchema
