import PacketSchema.Proofs.Compilation.Inheritance

/-! The entries behind what a scope holds: its own and, before them, all those that it has taken
over with what it copies. They account for every field and every constraint, and among them no
constraint contradicts another one. -/

namespace PacketSchema.Compilation

open Schema

/-- The entries that a scope declares itself. -/
def entries (c : Compilation) (id : ScopeId) : List Entry :=
  ((c.schema.layout? id).map Layout.order).getD []

/-- The entries behind what a scope took over: those of the scope that it copies up to the moment
in which it was declared, after the entries behind what that one took over. -/
def entriesTaken : List Compilation → ScopeId → List Entry
  | c' :: c :: past, id =>
    if (c.schema.scope? id).isSome then entriesTaken (c :: past) id
    else
      match source? c'.schema id with
      | some source => entriesTaken (c :: past) source ++ entries c source
      | none => []
  | _, _ => []

/-- All entries behind what a scope holds, in the order in which they were declared. -/
def lineage : List Compilation → ScopeId → List Entry
  | [], _ => []
  | c :: past, id => entriesTaken (c :: past) id ++ entries c id

theorem literalFits_of_prefix {s s' : Schema} (h : s.types.types <+: s'.types.types) {t : TypeRef}
    {value : Literal} (hfits : literalFits s t value = true) : literalFits s' t value = true := by
  cases t with
  | builtin b => cases value <;> exact hfits
  | struct id => cases value <;> exact hfits
  | param id =>
    cases value with
    | number n => exact hfits
    | text w =>
      have hstring : (s.param? id).any (fun t => t.constructor == .string) = true := hfits
      have hparam : s'.param? id = s.param? id := by
        obtain ⟨t, ht, -⟩ := (Option.any_eq_true _ _).1 hstring
        obtain ⟨more, hmore⟩ := h
        obtain ⟨hlt, -⟩ := List.getElem?_eq_some_iff.1 ht
        unfold param? TypeCache.get?
        rw [← hmore, List.getElem?_append_left hlt]
      show (s'.param? id).any (fun t => t.constructor == .string) = true
      rw [hparam, hstring]

/-- The entries account for what a layout holds. A literal fits if its field comes before it. -/
structure Accounts (c : Compilation) (es : List Entry) (l : Layout) : Prop where
  fields : ∀ name, .field name ∈ es ↔ ∃ field, l.fields.find? name = some field
  constraints : ∀ name value, .constraint name value ∈ es → l.constraints.find? name = some value
  fits : c.options.typedConstraints = true → ∀ before name value after field,
    es = before ++ .constraint name value :: after → .field name ∈ before →
    l.fields.find? name = some field → literalFits c.schema field.type value = true

/-- Where the last entry stands. -/
theorem concat_eq_split {α : Type} {es before after : List α} {e x : α}
    (h : es ++ [e] = before ++ x :: after) :
    (es = before ∧ e = x ∧ after = []) ∨
      ∃ rest, after = rest ++ [e] ∧ es = before ++ x :: rest := by
  rcases List.eq_nil_or_concat after with rfl | ⟨rest, y, rfl⟩
  · obtain ⟨hes, he⟩ := List.append_inj' h rfl
    exact .inl ⟨hes, List.head_eq_of_cons_eq he, rfl⟩
  · rw [List.concat_eq_append, ← List.cons_append, ← List.append_assoc] at h
    obtain ⟨hes, he⟩ := List.append_inj' h rfl
    rw [List.head_eq_of_cons_eq he]
    exact .inr ⟨rest, List.concat_eq_append, hes⟩

namespace Accounts

variable {c c' : Compilation} {es : List Entry} {l : Layout}

theorem empty (c : Compilation) : Accounts c [] {} where
  fields := fun _ => ⟨fun h => absurd h List.not_mem_nil, fun ⟨_, h⟩ => nomatch h⟩
  constraints := fun _ _ h => absurd h List.not_mem_nil
  fits := fun _ before _ _ _ _ h => by simp at h

/-- Later moments know at least as many types. -/
theorem later (h : Accounts c es l) (hoptions : c'.options = c.options)
    (htypes : c.schema.types.types <+: c'.schema.types.types) : Accounts c' es l where
  fields := h.fields
  constraints := h.constraints
  fits := by
    intro htyped before name value after field heq hbefore hfield
    rw [hoptions] at htyped
    have hfits := h.fits htyped before name value after field heq hbefore hfield
    exact literalFits_of_prefix htypes hfits

/-- An entry that is no field accounts for none. -/
theorem mem_field_concat (h : Accounts c es l) {e : Entry} (he : ∀ name, e ≠ .field name)
    (name : String) : .field name ∈ es ++ [e] ↔ ∃ field, l.fields.find? name = some field := by
  rw [List.mem_append, h.fields name, List.mem_singleton]
  exact or_iff_left fun heq => he name heq.symm

/-- An entry that is no constraint accounts for none. -/
theorem constraint_of_mem_concat (h : Accounts c es l) {e : Entry}
    (he : ∀ name value, e ≠ .constraint name value) {name : String} {value : Literal}
    (hmem : .constraint name value ∈ es ++ [e]) : l.constraints.find? name = some value := by
  obtain hmem | hmem := List.mem_append.1 hmem
  · exact h.constraints name value hmem
  · exact absurd (List.mem_singleton.1 hmem).symm (he name value)

theorem addField (h : Accounts c es l) {name : String} (field : Field)
    (hnew : l.fields.find? name = none) :
    Accounts c (es ++ [.field name]) (l.addField name field) := by
  have hfind : ∀ other, (l.addField name field).fields.find? other =
      if name = other then some field else l.fields.find? other :=
    fun other => Table.find?_insert _ _ _ _
  constructor
  case fields =>
    intro other
    rw [List.mem_append, h.fields other, List.mem_singleton, hfind]
    by_cases hname : name = other
    · subst hname
      simp
    · simp [hname, Ne.symm hname]
  case constraints => exact fun _ _ hmem => h.constraint_of_mem_concat (by simp) hmem
  case fits =>
    intro htyped before other value after found heq hbefore hfound
    obtain ⟨-, hentry, -⟩ | ⟨rest, -, hes⟩ := concat_eq_split heq
    · cases hentry
    · have hmem : Entry.field other ∈ es := hes ▸ List.mem_append_left _ hbefore
      obtain ⟨old, hold⟩ := (h.fields other).1 hmem
      rw [hfind, if_neg] at hfound
      · exact h.fits htyped before other value rest found hes hbefore hfound
      · rintro rfl
        rw [hnew] at hold
        cases hold

theorem addConstraint (h : Accounts c es l) {name : String} {value : Literal}
    (hfits : Fits c l name value)
    (hsame : ∀ existing, l.constraints.find? name = some existing → existing = value) :
    Accounts c (es ++ [.constraint name value]) (l.addConstraint name value) := by
  have hfind : ∀ other, (l.addConstraint name value).constraints.find? other =
      if name = other then some value else l.constraints.find? other :=
    fun other => Table.find?_insert _ _ _ _
  constructor
  case fields => exact h.mem_field_concat (by simp)
  case constraints =>
    intro other v hmem
    rw [hfind]
    obtain hmem | hmem := List.mem_append.1 hmem
    · have hold := h.constraints other v hmem
      split
      · rename_i hname
        subst hname
        rw [hsame v hold]
      · exact hold
    · cases List.mem_singleton.1 hmem
      exact if_pos rfl
  case fits =>
    intro htyped before other v after found heq hbefore hfound
    obtain ⟨-, hentry, -⟩ | ⟨rest, -, hes⟩ := concat_eq_split heq
    · cases hentry
      exact hfits htyped found hfound
    · exact h.fits htyped before other v rest found hes hbefore hfound

theorem addBranch (h : Accounts c es l) (path : Path) (id : ScopeId) :
    Accounts c (es ++ [.branch path id]) (l.addBranch path id) := by
  constructor
  case fields => exact h.mem_field_concat (by simp)
  case constraints => exact fun _ _ hmem => h.constraint_of_mem_concat (by simp) hmem
  case fits =>
    intro htyped before other v after found heq hbefore hfound
    obtain ⟨-, hentry, -⟩ | ⟨rest, -, hes⟩ := concat_eq_split heq
    · cases hentry
    · exact h.fits htyped before other v rest found hes hbefore hfound

end Accounts

/-- A new entry accounts for what is new. -/
theorem Extends.accounts {c : Compilation} {l l' : Layout} (h : Extends c l l') {es : List Entry}
    (hes : Accounts c es l) :
    ∃ new, l'.order = l.order ++ new ∧ Accounts c (es ++ new) l' := by
  cases h with
  | same => exact ⟨[], by simp, by simpa using hes⟩
  | field field hnew => exact ⟨_, rfl, hes.addField field hnew⟩
  | constraint hfits hsame => exact ⟨_, rfl, hes.addConstraint hfits hsame⟩
  | branch id hnew => exact ⟨_, rfl, hes.addBranch _ id⟩

section

variable {c c' : Compilation} {past : List Compilation} {id : ScopeId}

theorem entriesTaken_of_has (h : c.schema.Has id) :
    entriesTaken (c' :: c :: past) id = entriesTaken (c :: past) id := by
  obtain ⟨scope, hs⟩ := h.scope?
  rw [entriesTaken, hs]
  rfl

/-- What a scope is new at takes over the whole lineage of what it copies. -/
theorem entriesTaken_of_new (hnew : c.schema.scope? id = none) {source : ScopeId}
    (hcopies : Copies c'.schema id source) :
    entriesTaken (c' :: c :: past) id = lineage (c :: past) source := by
  rw [entriesTaken, hnew, show source? c'.schema id = some source from hcopies]
  rfl

theorem entriesTaken_of_struct (hnew : c.schema.scope? id = none)
    (hstruct : source? c'.schema id = none) : entriesTaken (c' :: c :: past) id = [] := by
  rw [entriesTaken, hnew, hstruct]
  rfl

theorem entries_of_layout? {l : Layout} (hl : c.schema.layout? id = some l) :
    entries c id = l.order := by
  unfold entries
  rw [hl]
  rfl

end

theorem lineage_of_layout? {c : Compilation} {past : List Compilation} {id : ScopeId} {l : Layout}
    (hl : c.schema.layout? id = some l) :
    lineage (c :: past) id = entriesTaken (c :: past) id ++ l.order := by
  rw [lineage, entries_of_layout? hl]

/-- The lineage of every scope accounts for what it holds, at all moments. -/
theorem History.accounts {c : Compilation} {past : List Compilation} (h : History (c :: past))
    {id : ScopeId} {l : Layout} (hl : c.schema.layout? id = some l) :
    Accounts c (lineage (c :: past) id) l := by
  refine h.layout_induction (motive := fun c past id l => Accounts c (lineage (c :: past) id) l)
    ?grow ?struct ?copy hl
  case grow =>
    intro c c' past id l l' _ hc hl' hl hext hold
    rw [lineage_of_layout? hl] at hold
    obtain ⟨new, horder, hnew⟩ := hext.accounts hold
    rw [lineage_of_layout? hl', entriesTaken_of_has (has_of_layout? hl), horder,
      ← List.append_assoc]
    exact hnew.later hc.options_eq hc.types_prefix
  case struct =>
    intro c c' past id scope _ _ hl hnew hs hk
    have hnone : source? c'.schema id = none := by
      cases hsource : source? c'.schema id with
      | none => rfl
      | some y => exact absurd hk (Copies.not_struct hsource hs)
    rw [lineage_of_layout? hl, entriesTaken_of_struct hnew hnone]
    exact .empty c'
  case copy =>
    intro c c' past id source held _ hc hl hnew hcopies _ hold
    have hlater := hold.later hc.options_eq hc.types_prefix
    rw [lineage_of_layout? hl, entriesTaken_of_new hnew hcopies,
      show held.snapshot.order = [] from rfl, List.append_nil]
    exact ⟨hlater.fields, hlater.constraints, hlater.fits⟩

end PacketSchema.Compilation
