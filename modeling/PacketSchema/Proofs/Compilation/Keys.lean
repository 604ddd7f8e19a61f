import PacketSchema.Proofs.Compilation.Branches
import PacketSchema.Proofs.Compilation.Inheritance

/-! The keys of the tables that a compiled schema is made of. No key stands in a table twice, and
what a scope binds are names without dots, so that a name of a branch without a dot is one that its
struct binds. -/

namespace PacketSchema

namespace Table

variable {κ α : Type}

theorem value_unique {t : Table κ α} (h : (t.entries.map Prod.fst).Nodup) {k : κ} {a b : α}
    (ha : (k, a) ∈ t.entries) (hb : (k, b) ∈ t.entries) : a = b :=
  congrArg Prod.snd (List.inj_on_of_nodup_map h ha hb rfl)

theorem find?_of_mem [DecidableEq κ] {t : Table κ α} (h : (t.entries.map Prod.fst).Nodup) {k : κ}
    {a : α} (ha : (k, a) ∈ t.entries) : t.find? k = some a := by
  cases hk : t.find? k with
  | none => exact absurd (List.mem_map_of_mem ha) (not_mem_keys hk)
  | some b => exact congrArg some (value_unique h (mem_of_find? hk) ha)

end Table

theorem Path.ofText_undotted {name : String} (h : Undotted name) : ofText name = [name] := by
  unfold ofText
  rw [Text.splitAll_of_not_mem h, List.map_cons, String.ofList_toList]
  rfl

namespace Compilation

open Schema

/-- Every scope binds a name once at most, and only names without dots. -/
def NamesKeyed (s : Schema) : Prop :=
  ∀ id scope, s.scope? id = some scope → (scope.names.entries.map Prod.fst).Nodup ∧
    ∀ name ∈ scope.names.entries.map Prod.fst, Undotted name

namespace NamesKeyed

variable {s s' : Schema}

/-- Nothing changes while scopes keep their names. -/
theorem view (h : NamesKeyed s)
    (hnames : ∀ id, (s'.scope? id).map Scope.names = (s.scope? id).map Scope.names) :
    NamesKeyed s' := by
  intro id scope' hs'
  have hid := hnames id
  rw [hs'] at hid
  obtain ⟨scope, hs, heq⟩ := Option.map_eq_some_iff.1 hid.symm
  exact heq ▸ h id scope hs

theorem modifyLayout (h : NamesKeyed s) (d : ScopeId) (f : Layout → Layout) :
    NamesKeyed (s.modifyLayout d f) :=
  h.view fun id => names_modifyLayout s d id f

theorem addScope (h : NamesKeyed s) {d : ScopeId} {task : Task} {scope : Scope}
    (hopens : Opens s d task scope) : NamesKeyed (s.addScope scope) := by
  intro id found hs
  rw [scope?_addScope] at hs
  split at hs
  · cases hs
    simp [hopens.names]
  · exact h id found hs

theorem bind (h : NamesKeyed s) {d : ScopeId} {name : String} (hundotted : Undotted name)
    (hfree : s.getLocal? d name = none) (item : Item) : NamesKeyed (s.bind d name item) := by
  intro id scope' hs'
  obtain ⟨scope, hs, hentries⟩ := entries_of_bind hfree hs'
  obtain ⟨hnodup, hkeys⟩ := h id scope hs
  rw [hentries]
  split
  · rename_i hid
    subst hid
    have hnew : scope.names.find? name = none := by
      unfold getLocal? names at hfree
      rwa [hs] at hfree
    refine ⟨Table.nodup_keys_concat item hnodup (Table.not_mem_keys hnew), fun other hother => ?_⟩
    rw [List.map_append, List.mem_append] at hother
    obtain hother | hother := hother
    · exact hkeys other hother
    · exact List.mem_singleton.1 hother ▸ hundotted
  · rw [List.append_nil]
    exact ⟨hnodup, hkeys⟩

end NamesKeyed

theorem Step.namesKeyed {st st' : Stage} (h : Step st st')
    (hnames : NamesSettled st.schema st.frames) (hkeyed : NamesKeyed st.schema) :
    NamesKeyed st'.schema := by
  cases h with
  | note h =>
    refine hkeyed.view fun id => ?_
    unfold scope?
    exact congrArg (fun scopes : List Scope => scopes[id.index]?.map Scope.names) h.scopes_eq
  | field _ _ _ => exact hkeyed.modifyLayout _ _
  | constraint _ _ _ => exact hkeyed.modifyLayout _ _
  | announce _ _ => exact hkeyed
  | enter h => exact hkeyed.addScope h
  | leave _ _ => exact hkeyed
  | assign t =>
    obtain ⟨hfree, hundotted⟩ := hnames.free _ _ (.head _)
    exact hkeyed.bind hundotted hfree _
  | conclude _ _ =>
    obtain ⟨hfree, hundotted⟩ := hnames.free _ _ (.tail _ (.head _))
    exact hkeyed.bind hundotted hfree _
  | register _ _ _ _ _ => exact hkeyed.modifyLayout _ _

theorem Steps.namesKeyed {options : Options} {st : Stage} (h : Steps (.start options) st) :
    NamesKeyed st.schema := by
  induction h with
  | refl =>
    intro id scope hs
    rw [List.mem_singleton.1 (List.mem_of_getElem? hs)]
    simp
  | tail hsteps h ih => exact h.namesKeyed (Steps.settled hsteps).names ih

/-- The tables of a schema have no key twice, and its branches are bound by their paths. -/
structure Keyed (s : Schema) : Prop where
  rooted : s.Rooted
  names : NamesKeyed s
  fields : ∀ id layout, s.layout? id = some layout →
    (layout.fields.entries.map Prod.fst).Nodup
  branches : s.BranchesMatch

theorem keyed_of_ok {options : Options} {sources : List (String × String)} {s : Schema}
    (h : ofSources options sources = .ok s) : Keyed s := by
  obtain ⟨r, -, rfl, hsteps⟩ := steps_of_ok h
  have hhistory := hsteps.history
  have hsettled := hsteps.settled
  constructor
  case rooted => exact hhistory.rooted
  case names => exact hsteps.namesKeyed
  case fields =>
    intro id layout hl
    obtain ⟨taken, hinherits⟩ := hhistory.inherits hl
    exact hinherits.replays.fields_nodup
  case branches =>
    exact branchesMatch_of_settled hsettled.sound.rooted hsettled.names hsettled.branches

namespace Keyed

variable {s : Schema}

/-- A branch that has a name for its path is what the name is bound to. -/
theorem name_of_branch (h : Keyed s) {base id : ScopeId} {scope : Scope} {layout : Layout}
    {path : Path} {item : Item} (hs : s.scope? base = some scope)
    (hl : s.layout? base = some layout) (hbranch : (path, id) ∈ layout.branches.entries)
    (hname : (path.text, item) ∈ scope.names.entries) : item = .type (.struct id) := by
  obtain ⟨⟨variant, own, hvariant, hkind⟩, hlookup⟩ :=
    h.branches.listed base layout path id hl hbranch
  obtain ⟨henclosing, -⟩ := h.branches.registered id variant own base path hvariant hkind
  obtain ⟨link, hfind, hbase⟩ := Option.map_eq_some_iff.1 henclosing
  have hlink := h.rooted.scope?_of_mem_chain (has_of_scope? hvariant)
    (List.mem_of_mem_tail (List.mem_of_find?_eq_some hfind))
  rw [hbase, hs] at hlink
  have hproxy : scope.isProxy = false := by
    rw [Option.some.inj hlink]
    have hstruct := List.find?_some hfind
    simp only [Bool.and_eq_true, Bool.not_eq_true'] at hstruct
    exact hstruct.2
  obtain ⟨hnodup, hundotted⟩ := h.names base scope hs
  have hbound : s.getLocal? base path.text = some item := by
    unfold getLocal? Schema.names
    rw [h.rooted.namesOwner_of_not_proxy hs hproxy, hs]
    exact Table.find?_of_mem hnodup hname
  rw [Path.ofText_undotted (hundotted _ (List.mem_map_of_mem hname))] at hlookup
  exact Option.some.inj (hbound.symm.trans hlookup)

end Keyed

end Compilation

end PacketSchema
