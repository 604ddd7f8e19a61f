import PacketSchema.Proofs.Compilation.Keys
import PacketSchema.Proofs.Schema.Scoping

/-! Looking names up in a compiled schema. A path is found in the nearest scope that has names of
its own and in which all of it resolves. From the root, the qualified name of a scope leads back to
this scope. -/

namespace PacketSchema.Compilation

open Schema

/-- A path is found in the nearest scope in which all of it resolves or not at all, a proxy answers
as the scope that owns its names, and wherever a path is cut at a dot, its second half is looked up
only within what its first half is bound to. -/
theorem ofSources_lookup {options : Options} {sources : List (String × String)} {s : Schema}
    (h : ofSources options sources = .ok s) {id : ScopeId} (hid : s.Has id) :
    (∀ text item, s.lookup? id (.ofText text) = some item ↔
      ∃ x, s.Nearest (.ofText text) (s.namesOwner id) x ∧
        s.lookupLocal? x (.ofText text) = some item) ∧
    (∀ text, s.lookup? id (.ofText text) = none ↔
      ∀ x, ¬ s.Nearest (.ofText text) (s.namesOwner id) x) ∧
    (∃ owner, s.scope? (s.namesOwner id) = some owner ∧ owner.isProxy = false) ∧
    (∀ path, s.lookup? id path = s.lookup? (s.namesOwner id) path ∧
      s.lookupLocal? id path = s.lookupLocal? (s.namesOwner id) path) ∧
    ∀ p q : String, s.lookupLocal? id (.ofText (p ++ "." ++ q)) =
      ((s.lookupLocal? id (.ofText p)).bind Item.scope?).bind fun inner =>
        s.lookupLocal? inner (.ofText q) := by
  have hr := (keyed_of_ok h).rooted
  obtain ⟨owner, howner, hown, -⟩ := hr.namesOwner_spec hid
  have hhas := has_of_scope? howner
  refine ⟨fun text item => ?_, fun text => ?_, ⟨owner, howner, hown⟩, fun path => ⟨?_, ?_⟩,
    fun p q => ?_⟩
  · rw [hr.lookup?_namesOwner hid]
    exact hr.lookup?_eq_some_iff hhas
  · rw [hr.lookup?_namesOwner hid]
    exact hr.lookup?_eq_none_iff hhas
  · exact hr.lookup?_namesOwner hid path
  · exact lookupLocal?_of_namesOwner (hr.namesOwner_idem hid).symm path
  · rw [Path.ofText_append_dot]
    exact s.lookupLocal?_append id (Path.ofText_ne_nil p) (Path.ofText_ne_nil q)

/-- From a proxy a path is found in the namespace around its struct, all of it or nothing. -/
theorem ofSources_lookup_proxy : ∃ s,
    ofSources {} [("t", "namespace n { type p { variant { variant a; }; }; };")] = .ok s ∧
      s.Has ⟨3⟩ ∧ (∃ x, s.Nearest (.ofText "p.a") (s.namesOwner ⟨3⟩) x ∧
        s.lookupLocal? x (.ofText "p.a") = some (.type (.struct ⟨4⟩))) ∧
      ∀ x, ¬ s.Nearest (.ofText "p.n") (s.namesOwner ⟨3⟩) x := by
  obtain ⟨s, hs, hp⟩ := exists_ok (show ((ofSources {}
    [("t", "namespace n { type p { variant { variant a; }; }; };")]).toOption.any
      fun s => 3 < s.scopes.length ∧
        s.lookup? ⟨3⟩ (.ofText "p.a") = some (.type (.struct ⟨4⟩)) ∧
        s.lookup? ⟨3⟩ (.ofText "p.n") = none) = true by decide +kernel)
  obtain ⟨hid, hfound, hnone⟩ := of_decide_eq_true hp
  have hhas : s.Has ⟨3⟩ := hid
  obtain ⟨hsome, habsent, -⟩ := ofSources_lookup hs hhas
  exact ⟨s, hs, hhas, (hsome _ _).1 hfound, (habsent _).1 hnone⟩

/-! ## Qualified names -/

/-- A scope that has a name or is a proxy, as all scopes around it but the root. -/
def Traceable (s : Schema) (id : ScopeId) : Prop :=
  ∀ link ∈ s.chain id, link.1 ≠ root → link.2.name.isSome ∨ link.2.isProxy = true

/-- A scope with a name that says where it is. -/
structure Qualified (s : Schema) (id : ScopeId) (scope : Scope) : Prop where
  found : s.scope? id = some scope
  named : scope.name.isSome
  traceable : Traceable s id

section

variable {s : Schema} {id p : ScopeId} {scope : Scope}

theorem qualifiedName_child (hr : s.Rooted) (hs : s.scope? id = some scope)
    (hp : scope.parent = some p) :
    s.qualifiedName id = s.qualifiedName p ++ scope.name.toList := by
  unfold qualifiedName
  rw [hr.chain_child hs hp]
  cases hname : scope.name <;> simp [hname]

theorem qualifiedName_root (hr : s.Rooted) (hs : s.scope? id = some scope)
    (hp : scope.parent = none) : s.qualifiedName id = [] := by
  obtain ⟨-, hname, -⟩ := hr.root hs hp
  simp [qualifiedName, chain_root hs hp, hname]

theorem Traceable.parent (h : Traceable s id) (hr : s.Rooted) (hs : s.scope? id = some scope)
    (hp : scope.parent = some p) : Traceable s p := by
  unfold Traceable at h ⊢
  rw [hr.chain_child hs hp] at h
  exact fun link hlink => h link (.tail _ hlink)

namespace NamesSettled

variable (h : NamesSettled s [⟨root, .idle⟩]) (hr : s.Rooted)
include h hr

/-- In the end every scope that has a name is what its parent binds it to. -/
theorem getLocal?_parent {name : String} (hs : s.scope? id = some scope)
    (hname : scope.name = some name) (hp : scope.parent = some p) :
    s.getLocal? p name = some (scope.item id) := by
  refine h.bound id scope name p hs hname hp fun hopen => ?_
  exact hr.ne_root hs hp (List.mem_singleton.1 hopen)

/-- From the root, the qualified name of a scope leads to where the names in this scope are. -/
theorem get?_append (hid : s.Has id) (htrace : Traceable s id) (name : String) :
    s.get? (s.qualifiedName id ++ [name]) = s.getLocal? id name := by
  replace hid := hr.placed hid
  induction hid generalizing name with
  | @root id scope hs hroot =>
    obtain ⟨rfl, -⟩ := hr.root hs hroot
    rw [qualifiedName_root hr hs hroot]
    rfl
  | @child id p scope hs hp _ ih =>
    have houter := ih (htrace.parent hr hs hp)
    rw [qualifiedName_child hr hs hp]
    cases hname : scope.name with
    | some own =>
      have hne : s.qualifiedName p ++ [own] ≠ [] := by simp
      have hhere : s.lookupLocal? root (s.qualifiedName p ++ [own]) = some (scope.item id) :=
        (houter own).trans (h.getLocal?_parent hr hs hname hp)
      rw [Option.toList_some, get?, s.lookupLocal?_append root hne (by simp), hhere,
        Option.bind_some, Scope.item_scope?]
      rfl
    | none =>
      -- Without a name it is a proxy, whose names are those of its parent.
      have hlink : (id, scope) ∈ s.chain id := hr.chain_child hs hp ▸ .head _
      have hproxy : scope.isProxy = true := by simpa [hname] using htrace _ hlink (hr.ne_root hs hp)
      rw [Option.toList_none, List.append_nil, houter,
        getLocal?_of_namesOwner (hr.namesOwner_of_proxy hs hproxy hp)]

theorem get?_qualifiedName (hid : Qualified s id scope) :
    s.get? (.ofText (s.qualifiedName id).text) = some (scope.item id) := by
  obtain ⟨hs, hnamed, htrace⟩ := hid
  obtain ⟨name, hname⟩ := Option.isSome_iff_exists.1 hnamed
  cases hp : scope.parent with
  | none =>
    obtain ⟨-, hnone, -⟩ := hr.root hs hp
    rw [hname] at hnone
    cases hnone
  | some p =>
    have hpath : s.qualifiedName id = s.qualifiedName p ++ [name] := by
      rw [qualifiedName_child hr hs hp, hname, Option.toList_some]
    have hundotted : ∀ part ∈ s.qualifiedName id, Undotted part := by
      intro part hpart
      unfold qualifiedName at hpart
      obtain ⟨link, hlink, hpart⟩ := List.mem_filterMap.1 (List.mem_reverse.1 hpart)
      exact h.undotted link.1 link.2 part
        (hr.scope?_of_mem_chain (has_of_scope? hs) hlink) hpart
    rw [Path.ofText_text (by simp [hpath]) hundotted, hpath,
      h.get?_append hr (hr.has_parent hs hp) (htrace.parent hr hs hp),
      h.getLocal?_parent hr hs hname hp]

end NamesSettled

end

/-- The qualified name of a scope leads back to it, so that no two scopes share one. -/
theorem ofSources_qualifiedName {options : Options} {sources : List (String × String)}
    {s : Schema} (h : ofSources options sources = .ok s) :
    (∀ id scope, Qualified s id scope →
      s.get? (.ofText (s.qualifiedName id).text) = some (scope.item id)) ∧
    ∀ id id' scope scope', Qualified s id scope → Qualified s id' scope' →
      (s.qualifiedName id).text = (s.qualifiedName id').text → id = id' := by
  obtain ⟨r, -, rfl, hsteps⟩ := steps_of_ok h
  have hnames : NamesSettled r.current.schema [⟨root, .idle⟩] := hsteps.settled.names
  have hr : r.current.schema.Rooted := hsteps.settled.sound.rooted
  refine ⟨fun id scope hid => hnames.get?_qualifiedName hr hid, ?_⟩
  intro id id' scope scope' hid hid' heq
  have hitems : some (scope.item id) = some (scope'.item id') := by
    rw [← hnames.get?_qualifiedName hr hid, heq, hnames.get?_qualifiedName hr hid']
  have hids := congrArg Item.scope? (Option.some.inj hitems)
  rw [scope.item_scope?, scope'.item_scope?] at hids
  exact Option.some.inj hids

/-- A variant in a proxy is bound in the struct around it. -/
theorem ofSources_qualifiedName_arm : ∃ s scope,
    ofSources {} [("t", "namespace n { type p { variant { variant a; }; }; };")] = .ok s ∧
      Qualified s ⟨4⟩ scope ∧ s.get? (.ofText "n.p.a") = some (scope.item ⟨4⟩) ∧
      ∀ id other, Qualified s id other → (s.qualifiedName id).text = "n.p.a" → id = ⟨4⟩ := by
  obtain ⟨s, hs, hp⟩ := exists_ok (show ((ofSources {}
    [("t", "namespace n { type p { variant { variant a; }; }; };")]).toOption.any
      fun s => (s.scope? ⟨4⟩).any (·.name.isSome) ∧ (s.qualifiedName ⟨4⟩).text = "n.p.a" ∧
        ∀ link ∈ s.chain ⟨4⟩, link.1 ≠ root → link.2.name.isSome ∨ link.2.isProxy = true) = true
      by decide +kernel)
  obtain ⟨hnamed, htext, htrace⟩ := of_decide_eq_true hp
  obtain ⟨scope, hscope, hnamed⟩ := (Option.any_eq_true _ _).1 hnamed
  have hid : Qualified s ⟨4⟩ scope := ⟨hscope, hnamed, htrace⟩
  obtain ⟨hget, hinj⟩ := ofSources_qualifiedName hs
  refine ⟨s, scope, hs, hid, htext ▸ hget _ _ hid, fun id other hother hsame => ?_⟩
  exact hinj id ⟨4⟩ other scope hother hid (hsame.trans htext.symm)

end PacketSchema.Compilation
