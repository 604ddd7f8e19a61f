import PacketSchema.Proofs.Compilation.Completing

/-! What walks get to see. All structs, variants and applied types of a compiled schema are found on
a walk from the root or from a proxy, and the walk from the root finds no proxies. -/

namespace PacketSchema

/-- A walk yields the type, be it from the root or from a proxy. -/
def Schema.Walked (s : Schema) (t : TypeRef) : Prop :=
  t ∈ s.walk.map Prod.snd ∨
    ∃ p scope, s.scope? p = some scope ∧ scope.isProxy = true ∧
      t ∈ (s.walkFrom (.type (.struct p))).map Prod.snd

namespace Compilation

open Schema

variable {s : Schema}

/-- The scope with number 0 is a namespace. -/
theorem item_root (hr : s.Rooted) {scope : Scope} (hs : s.scope? root = some scope) :
    scope.item root = .space root := by
  obtain ⟨-, -, hk⟩ := hr.root hs (hr.parent_root hs)
  simp [Scope.item, hk]

theorem LinksSettled.walked (h : LinksSettled s root none) (hr : s.Rooted) (hroot : s.Has root)
    {t : TypeRef} (ht : IsNode s (.type t)) (hb : ∀ b, t ≠ .builtin b) : s.Walked t := by
  obtain ⟨a, ha, hlead⟩ := h.reached _ ht fun b heq => hb b (Node.type.inj heq)
  obtain ⟨path, hpath⟩ := hlead.leads
  have hmem := mem_walkFrom_of_leads hpath
  cases ha with
  | @around x scope hs hx =>
    obtain rfl := hr.around_root hroot hx
    rw [item_root hr hs] at hmem
    exact .inl hmem
  | @proxy p scope hs hp =>
    have hitem : scope.item p = .type (.struct p) := by
      unfold Scope.isProxy at hp
      cases hk : scope.kind <;> simp [hk, ScopeKind.isProxy] at hp
      simp [Scope.item, hk]
    rw [hitem] at hmem
    exact .inr ⟨p, scope, hs, hp, hmem⟩
  | held heq => cases heq

/-- What the walk from the root yields is linked to, so it is no proxy. -/
theorem LinksSettled.isNode_of_mem_walk (h : LinksSettled s root none) {path : List String}
    {t : TypeRef} (ht : (path, t) ∈ s.walk) : IsNode s (.type t) := by
  have hlead := (leads_of_mem_walkFrom ht).leadsTo
  obtain heq | ⟨n, -, hlink⟩ := Relation.ReflTransGen.cases_tail hlead
  · cases heq
  · exact (h.complete hlink).1

/-- Nothing that is compiled stays hidden from walks: every struct, every variant and every applied
type is yielded by the walk from the root or by one from a proxy. Proxies and namespaces are not
yielded by the walk from the root. -/
theorem ofSources_walked {options : Options} {sources : List (String × String)} {s : Schema}
    (h : ofSources options sources = .ok s) :
    (∀ id scope, s.scope? id = some scope → scope.isStruct = true → scope.isProxy = false →
      s.Walked (.struct id)) ∧
    (∀ i < s.types.size, s.Walked (.param ⟨i⟩)) ∧
    ∀ path id, (path, .struct id) ∈ s.walk →
      ∃ scope, s.scope? id = some scope ∧ scope.isStruct = true ∧ scope.isProxy = false := by
  obtain ⟨hr, hroot, hsettled⟩ := linksSettled_of_ok h
  refine ⟨fun id scope hs hstruct hproxy => ?_, fun i hi => ?_, fun path id hmem => ?_⟩
  · exact hsettled.walked hr hroot ⟨scope, hs, hstruct, hproxy⟩ fun b heq => nomatch heq
  · have hparam : s.param? ⟨i⟩ = some s.types.types[i] := List.getElem?_eq_getElem hi
    exact hsettled.walked hr hroot ⟨_, hparam⟩ fun b heq => nomatch heq
  · exact hsettled.isNode_of_mem_walk hmem

/-- A struct that only a field of a proxy refers to, and an applied type that nothing but it
holds. -/
theorem ofSources_walked_proxy : ∃ s,
    ofSources {} [("t", "type s { variant { f : { g : array 3 byte; }; }; };")] = .ok s ∧
      s.walk.map Prod.snd = [.struct ⟨1⟩] ∧ s.scopes.length = 4 ∧ s.types.size = 1 ∧
      s.Walked (.struct ⟨3⟩) ∧ s.Walked (.param ⟨0⟩) := by
  obtain ⟨s, hs, hp⟩ := exists_ok (show ((ofSources {}
    [("t", "type s { variant { f : { g : array 3 byte; }; }; };")]).toOption.any fun s =>
      s.walk.map Prod.snd = [.struct ⟨1⟩] ∧ s.scopes.length = 4 ∧ s.types.size = 1 ∧
        (s.scope? ⟨3⟩).any fun scope => scope.isStruct && !scope.isProxy) = true by decide +kernel)
  obtain ⟨hwalk, hlength, hsize, hscope⟩ := of_decide_eq_true hp
  obtain ⟨scope, hfound, hkind⟩ := Option.any_eq_true _ _ |>.1 hscope
  obtain ⟨hstruct, hproxy⟩ := Bool.and_eq_true_iff.1 hkind
  obtain ⟨hstructs, hparams, -⟩ := ofSources_walked hs
  exact ⟨s, hs, hwalk, hlength, hsize,
    hstructs ⟨3⟩ scope hfound hstruct (by simpa using hproxy), hparams 0 (by omega)⟩

end Compilation

end PacketSchema
