import PacketSchema.Proofs.Declaration.Relocation
import PacketSchema.Proofs.Schema.Ancestors
import PacketSchema.Schema.Outline
import PacketSchema.Schema.Walk

/-! Schemas of declarations that are printed otherwise. Nothing that is looked up in a schema, and
neither its outline nor a walk over it, depends on the sources and places of its scopes and
fields. -/

namespace PacketSchema

namespace Table

variable {κ α β : Type} [DecidableEq κ]

def map (g : α → β) (t : Table κ α) : Table κ β := ⟨t.entries.map (Prod.map id g)⟩

theorem lookup_map (g : α → β) (k : κ) (entries : List (κ × α)) :
    lookup k (entries.map (Prod.map id g)) = (lookup k entries).map g := by
  induction entries with
  | nil => rfl
  | cons entry rest ih =>
    obtain ⟨j, b⟩ := entry
    simp only [List.map_cons, lookup, Prod.map, id, ih]
    split <;> rfl

theorem put_map (g : α → β) (k : κ) (a : α) (entries : List (κ × α)) :
    put k (g a) (entries.map (Prod.map id g)) = (put k a entries).map (Prod.map id g) := by
  induction entries with
  | nil => rfl
  | cons entry rest ih =>
    obtain ⟨j, b⟩ := entry
    simp only [List.map_cons, put, Prod.map, id, ih]
    split <;> rfl

theorem find?_map (g : α → β) (t : Table κ α) (k : κ) :
    (t.map g).find? k = (t.find? k).map g :=
  lookup_map g k t.entries

theorem contains_map (g : α → β) (t : Table κ α) (k : κ) :
    (t.map g).contains k = t.contains k := by
  unfold contains
  rw [find?_map, Option.isSome_map]

theorem insert_map (g : α → β) (t : Table κ α) (k : κ) (a : α) :
    (t.map g).insert k (g a) = (t.insert k a).map g :=
  congrArg Table.mk (put_map g k a t.entries)

omit [DecidableEq κ] in
theorem map_id (t : Table κ α) : t.map id = t := by simp [map]

end Table

section

variable (r : Print)

def Field.reprint (field : Field) : Field :=
  { field with position := field.position.reprint r }

def Layout.reprint (l : Layout) : Layout := { l with fields := l.fields.map (Field.reprint r) }

def ScopeKind.reprint (kind : ScopeKind) : ScopeKind := kind.mapLayout (Layout.reprint r)

def Scope.reprint (scope : Scope) : Scope :=
  { scope with
    position := scope.position.map (Position.reprint r)
    kind := scope.kind.reprint r }

def Finding.reprint (finding : Finding) : Finding :=
  { finding with place := r.place finding.place }

def Schema.reprint (s : Schema) : Schema :=
  { s with
    scopes := s.scopes.map (Scope.reprint r)
    warnings := s.warnings.map (Finding.reprint r) }

end

/-! ### The same print -/

theorem Layout.reprint_same (l : Layout) : l.reprint .same = l :=
  congrArg (fun fields => Layout.mk fields _ _ _) (Table.map_id l.fields)

theorem Scope.reprint_same (scope : Scope) : scope.reprint .same = scope := by
  obtain ⟨name, parent, position, kind, names⟩ := scope
  cases position <;> cases kind <;>
    simp [reprint, ScopeKind.reprint, ScopeKind.mapLayout, Layout.reprint_same,
      Position.reprint_same]

theorem Schema.reprint_same (s : Schema) : s.reprint .same = s := by
  have hscopes : s.scopes.map (Scope.reprint .same) = s.scopes :=
    List.map_id'' Scope.reprint_same s.scopes
  have hwarnings : s.warnings.map (Finding.reprint .same) = s.warnings := List.map_id _
  rw [reprint, hscopes, hwarnings]

/-! ### Scopes -/

variable {r : Print}

@[simp] theorem Scope.isProxy_reprint (scope : Scope) :
    (scope.reprint r).isProxy = scope.isProxy := by
  unfold Scope.isProxy Scope.reprint
  cases scope.kind <;> rfl

theorem Scope.layout?_reprint (scope : Scope) :
    (scope.reprint r).layout? = scope.layout?.map (Layout.reprint r) := by
  unfold Scope.layout? Scope.reprint
  cases scope.kind <;> rfl

namespace Schema

variable (s : Schema)

theorem scope?_reprint (id : ScopeId) :
    (s.reprint r).scope? id = (s.scope? id).map (Scope.reprint r) :=
  List.getElem?_map

theorem layout?_reprint (id : ScopeId) :
    (s.reprint r).layout? id = (s.layout? id).map (Layout.reprint r) := by
  unfold layout?
  rw [scope?_reprint]
  cases s.scope? id with
  | none => rfl
  | some scope => exact scope.layout?_reprint

theorem nextId_reprint : (s.reprint r).nextId = s.nextId :=
  congrArg ScopeId.mk (List.length_map _)

theorem reprint_addScope (scope : Scope) :
    (s.addScope scope).reprint r = (s.reprint r).addScope (scope.reprint r) := by
  simp [addScope, reprint]

theorem reprint_modifyScope (id : ScopeId) {g h : Scope → Scope}
    (hg : ∀ scope, (g scope).reprint r = h (scope.reprint r)) :
    (s.modifyScope id g).reprint r = (s.reprint r).modifyScope id h := by
  have hmap : (s.scopes.modify id.index g).map (Scope.reprint r) =
      (s.scopes.map (Scope.reprint r)).modify id.index h := by
    apply List.ext_getElem?
    intro i
    rw [List.getElem?_map, List.getElem?_modify, List.getElem?_modify, List.getElem?_map]
    cases s.scopes[i]? with
    | none => rfl
    | some scope =>
      simp only [Option.map_some, Option.map_eq_map]
      split <;> simp [hg]
  unfold modifyScope reprint
  rw [hmap]

theorem reprint_modifyLayout (id : ScopeId) {g h : Layout → Layout}
    (hg : ∀ l, (g l).reprint r = h (l.reprint r)) :
    (s.modifyLayout id g).reprint r = (s.reprint r).modifyLayout id h := by
  refine s.reprint_modifyScope id fun scope => ?_
  unfold Scope.reprint ScopeKind.reprint
  cases scope.kind <;> simp [ScopeKind.mapLayout, hg]

theorem reprint_addWarning (finding : Finding) :
    (s.addWarning finding).reprint r = (s.reprint r).addWarning (finding.reprint r) := by
  simp [addWarning, reprint]

/-! ## Lookups -/

theorem chain_reprint (id : ScopeId) :
    (s.reprint r).chain id = (s.chain id).map (mapLink (Scope.reprint r)) := by
  fun_induction chain s id with
  | case1 id h =>
    rw [chain, scope?_reprint, h]
    rfl
  | case2 id scope h ih =>
    have hparent : (scope.reprint r).parent = scope.parent := rfl
    rw [chain, scope?_reprint, h]
    simp only [Option.map_some, List.map_cons, hparent]
    cases scope.parent with
    | none => rfl
    | some parent =>
      by_cases hlt : parent.index < id.index
      · simp [hlt, ih parent hlt, mapLink]
      · simp [hlt, mapLink]

theorem namesOwner_reprint (id : ScopeId) : (s.reprint r).namesOwner id = s.namesOwner id := by
  have hfind := find?_map_mapLink (g := Scope.reprint r) (p := fun scope => !scope.isProxy)
    (by simp) (s.chain id)
  unfold namesOwner
  rw [chain_reprint, hfind]

theorem getLocal?_reprint (id : ScopeId) (name : String) :
    (s.reprint r).getLocal? id name = s.getLocal? id name := by
  unfold getLocal? names
  rw [namesOwner_reprint, scope?_reprint, Option.map_map]
  rfl

theorem reprint_bind (id : ScopeId) (name : String) (item : Item) :
    (s.bind id name item).reprint r = (s.reprint r).bind id name item := by
  unfold bind
  rw [namesOwner_reprint]
  exact s.reprint_modifyScope _ fun _ => rfl

theorem lookupLocal?_reprint (id : ScopeId) (path : Path) :
    (s.reprint r).lookupLocal? id path = s.lookupLocal? id path := by
  fun_induction lookupLocal? s id path with
  | case1 id => rfl
  | case2 id name => exact s.getLocal?_reprint id name
  | case3 id name rest hne ih =>
    rw [lookupLocal?, getLocal?_reprint]
    · exact congrArg _ (funext ih)
    · exact hne

theorem lookup?_reprint (id : ScopeId) (path : Path) :
    (s.reprint r).lookup? id path = s.lookup? id path := by
  unfold lookup?
  rw [chain_reprint, List.findSome?_map]
  simp [Function.comp_def, mapLink, lookupLocal?_reprint]

theorem qualifiedName_reprint (id : ScopeId) :
    (s.reprint r).qualifiedName id = s.qualifiedName id := by
  unfold qualifiedName
  rw [chain_reprint, List.filterMap_map]
  rfl

theorem param?_reprint (id : ParamId) : (s.reprint r).param? id = s.param? id := rfl

theorem typeName_reprint (type : TypeRef) : (s.reprint r).typeName type = s.typeName type := by
  fun_induction typeName s type with
  | case1 b => rw [typeName]
  | case2 id => rw [typeName, structName, structName, qualifiedName_reprint]
  | case3 id h | case4 id _ _ h | case5 id _ h | case6 id _ h =>
    rw [typeName, param?_reprint, h]
  | case7 id _ elem h _ ih | case8 id elem h _ ih =>
    rw [typeName, param?_reprint, h]
    by_cases hlt : rank elem < rank (.param id) <;> simp +zetaDelta [hlt, ih]

/-! ## The outline -/

open Outline

theorem layoutLines_reprint (depth : Nat) (l : Layout) :
    layoutLines (s.reprint r) depth (l.reprint r) = layoutLines s depth l := by
  simp [layoutLines, Layout.reprint, Table.map, Field.reprint, Function.comp_def, Prod.map,
    typeName_reprint]

theorem itemLines_reprint (spell : ScopeId → String → List Line) (depth : Nat) (name : String)
    (item : Item) :
    itemLines (s.reprint r) spell depth name item = itemLines s spell depth name item := by
  obtain id | (b | id | id) := item
  · rfl
  · simp only [itemLines, typeName_reprint]
  · simp only [itemLines, typeName_reprint]
  · simp only [itemLines, typeName_reprint, scope?_reprint]
    cases s.scope? id with
    | none => rfl
    | some scope =>
      have hpath : (scope.reprint r).kind.path? = scope.kind.path? := by
        unfold Scope.reprint
        cases scope.kind <;> rfl
      simp only [Option.map_some, hpath]
      rfl

theorem nameLines_reprint (spell : ScopeId → String → List Line) (depth : Nat) (scope : Scope) :
    nameLines (s.reprint r) spell depth (scope.reprint r) = nameLines s spell depth scope := by
  unfold nameLines
  simp only [itemLines_reprint]
  rfl

theorem scopeLines_reprint (levels depth : Nat) (id : ScopeId) (name : String) :
    scopeLines (s.reprint r) levels depth id name = scopeLines s levels depth id name := by
  induction levels generalizing depth id name with
  | zero => rfl
  | succ levels ih =>
    have hspell : scopeLines (s.reprint r) levels (depth + 1) = scopeLines s levels (depth + 1) :=
      funext fun id => funext fun name => ih (depth + 1) id name
    unfold scopeLines
    rw [scope?_reprint, hspell]
    cases s.scope? id with
    | none => rfl
    | some scope =>
      have hword : (scope.reprint r).kind.word = scope.kind.word := by
        unfold Scope.reprint
        cases scope.kind <;> rfl
      have hbranches : branchLines (scopeLines s levels (depth + 1)) ∘ Layout.reprint r =
          branchLines (scopeLines s levels (depth + 1)) := rfl
      have hlayout : layoutLines (s.reprint r) (depth + 1) ∘ Layout.reprint r =
          layoutLines s (depth + 1) := funext fun l => s.layoutLines_reprint (depth + 1) l
      simp only [Option.map_some, hword, nameLines_reprint, scope.layout?_reprint, Option.map_map,
        hbranches, hlayout]

theorem outline_reprint : (s.reprint r).outline = s.outline := by
  have hlength : (s.reprint r).scopes.length = s.scopes.length := List.length_map _
  have hspell : scopeLines (s.reprint r) s.scopes.length 0 = scopeLines s s.scopes.length 0 :=
    funext fun id => funext fun name => s.scopeLines_reprint _ 0 id name
  unfold outline
  rw [scope?_reprint, hlength, hspell]
  cases s.scope? root with
  | none => rfl
  | some scope => exact s.nameLines_reprint _ 0 scope

theorem outlineOf_reprint (id : ScopeId) : (s.reprint r).outlineOf id = s.outlineOf id := by
  have hlength : (s.reprint r).scopes.length = s.scopes.length := List.length_map _
  have hname : ((s.reprint r).scope? id).bind Scope.name = (s.scope? id).bind Scope.name := by
    rw [scope?_reprint]
    cases s.scope? id <;> rfl
  unfold outlineOf
  rw [hlength, hname, scopeLines_reprint]

/-! ## The walk -/

theorem followScope_reprint (scope : Scope) (link : Link) :
    followScope (scope.reprint r) link = followScope scope link := by
  cases link with
  | names | child _ => rfl
  | fields =>
    unfold followScope
    rw [scope.layout?_reprint]
    cases scope.layout? with
    | none => rfl
    | some l =>
      simp [Layout.reprint, Table.map, Field.reprint, Function.comp_def, Prod.map]
  | branches =>
    unfold followScope
    rw [scope.layout?_reprint]
    cases scope.layout? <;> rfl

theorem children_reprint (n : Node) : (s.reprint r).children n = s.children n := by
  have hfollow : ∀ link, (s.reprint r).follow n link = s.follow n link := by
    intro link
    have hscope : ∀ id : ScopeId, (((s.reprint r).scope? id).map (followScope · link)) =
        (s.scope? id).map (followScope · link) := by
      intro id
      rw [scope?_reprint, Option.map_map]
      exact congrArg (Option.map · _) (funext fun scope => followScope_reprint scope link)
    obtain id | (b | id | id) := n
    · exact congrArg (Option.getD · []) (hscope id)
    · rfl
    · rfl
    · exact congrArg (Option.getD · []) (hscope id)
  have hlinks : (s.reprint r).links n = s.links n := by
    obtain id | (b | id | id) := n
    · rfl
    · rfl
    · rfl
    · simp only [links, layout?_reprint]
      cases s.layout? id <;> rfl
  unfold children
  rw [hlinks]
  exact List.flatMap_congr fun link _ => hfollow link

theorem run_reprint (w : Walker) : w.run (s.reprint r) = w.run s := by
  fun_induction Walker.run s w with
  | case1 w h =>
    rw [Walker.run]
    split <;> simp_all
  | case2 w path n rest h hn ih =>
    have hexpand : w.expand (s.reprint r) path n rest = w.expand s path n rest := by
      unfold Walker.expand
      rw [children_reprint]
    rw [Walker.run]
    split <;> simp_all
  | case3 w path n rest h hn ih =>
    rw [Walker.run]
    split <;> simp_all

theorem walk_reprint : (s.reprint r).walk = s.walk := s.run_reprint _

end Schema

/-! ### Other places -/

section

variable (f : Place → Place)

abbrev Field.relocate (field : Field) : Field := field.reprint (.places f)

abbrev Scope.relocate (scope : Scope) : Scope := scope.reprint (.places f)

abbrev Finding.relocate (finding : Finding) : Finding := finding.reprint (.places f)

abbrev Schema.relocate (s : Schema) : Schema := s.reprint (.places f)

end

end PacketSchema
