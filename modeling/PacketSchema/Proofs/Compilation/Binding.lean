import PacketSchema.Proofs.Compilation.Branches
import PacketSchema.Proofs.Compilation.History

/-! Name tables while a compilation goes on. From each moment to the next they stay as they are, or
a scope comes with an empty one, or a name is bound that was free. Proxies bind nothing. -/

namespace PacketSchema

namespace Schema

/-- The names that the scopes bind themselves. -/
def tables (s : Schema) : List (Table String Item) := s.scopes.map Scope.names

/-- All names that are bound, those of different scopes apart. -/
def boundNames (s : Schema) : List String :=
  s.tables.flatMap fun table => table.entries.map Prod.fst

/-- No proxy binds names itself. -/
def BareProxies (s : Schema) : Prop :=
  ∀ id scope, s.scope? id = some scope → scope.isProxy = true → scope.names = {}

variable {s s' : Schema}

theorem tables_of_scopes_eq (h : s'.scopes = s.scopes) : s'.tables = s.tables :=
  congrArg (List.map Scope.names) h

theorem getElem?_tables (s : Schema) (i : Nat) :
    s.tables[i]? = (s.scope? ⟨i⟩).map Scope.names :=
  List.getElem?_map

theorem tables_modifyLayout (s : Schema) (id : ScopeId) (f : Layout → Layout) :
    (s.modifyLayout id f).tables = s.tables := by
  refine List.ext_getElem? fun i => ?_
  rw [getElem?_tables, getElem?_tables, names_modifyLayout]

theorem tables_addScope {scope : Scope} (h : scope.names = {}) :
    (s.addScope scope).tables = s.tables ++ [Table.mk []] := by
  unfold tables addScope
  rw [List.map_append, List.map_singleton, h]

theorem names_eq_of_tables (h : s'.tables = s.tables) (id : ScopeId) :
    (s'.scope? id).map Scope.names = (s.scope? id).map Scope.names := by
  rw [← getElem?_tables, ← getElem?_tables, h]

end Schema

namespace Compilation

open Schema

/-- What may happen to name tables from one moment to the next. -/
inductive NameChange (s s' : Schema) : Prop
  | same (hshapes : s.SameShapes s') (htables : s'.tables = s.tables)
  | scope {new : Scope} (hnames : new.names = {}) (hs : s' = s.addScope new)
  | bind {d : ScopeId} {name : String} {item : Item} (hd : s.Has d)
      (hfree : s.getLocal? d name = none) (hs : s' = s.bind d name item)

namespace NameChange

variable {s s' : Schema}

theorem modifyLayout (s : Schema) (id : ScopeId) (f : Layout → Layout) :
    NameChange s (s.modifyLayout id f) :=
  .same (.modifyLayout _ _ _) (tables_modifyLayout _ _ _)

/-- Names are bound by owners, and those are no proxies. -/
theorem bareProxies (h : NameChange s s') (hr : s.Rooted) (hbare : s.BareProxies) :
    s'.BareProxies := by
  intro id scope' hs' hproxy
  cases h with
  | same hshapes htables =>
    obtain ⟨scope, hs, heq⟩ := hshapes.symm.keeps id scope' hs'
    have hnames := names_eq_of_tables htables id
    rw [hs, hs'] at hnames
    rw [Option.some.inj hnames]
    exact hbare id scope hs (by rw [Scope.isProxy_eq heq, hproxy])
  | scope hnames heq =>
    subst heq
    rw [scope?_addScope] at hs'
    split at hs'
    · cases hs'
      exact hnames
    · exact hbare id scope' hs' hproxy
  | @bind d name item hd _ heq =>
    subst heq
    unfold Schema.bind at hs'
    rw [scope?_modifyScope] at hs'
    split at hs'
    · rename_i howner
      obtain ⟨owner, ho, hp, -⟩ := hr.namesOwner_spec hd
      rw [howner, ho] at hs'
      cases hs'
      exact absurd hproxy (by simpa [Scope.isProxy] using hp)
    · exact hbare id scope' hs' hproxy

end NameChange

theorem Step.nameChange {st st' : Stage} (h : Step st st') (hst : st.Settled) :
    st'.moments = st.moments ∨
      st'.moments = st'.now :: st.moments ∧ NameChange st.schema st'.schema := by
  obtain ⟨⟨-, hn⟩, hnames, -⟩ := hst
  cases h with
  | note h =>
    exact .inr ⟨rfl, .same (.of_scopes_eq h.scopes_eq) (tables_of_scopes_eq h.scopes_eq)⟩
  | field _ _ _ => exact .inr ⟨rfl, .modifyLayout _ _ _⟩
  | constraint _ _ _ => exact .inr ⟨rfl, .modifyLayout _ _ _⟩
  | announce _ _ => exact .inl rfl
  | enter h => exact .inr ⟨rfl, .scope h.names rfl⟩
  | leave _ _ => exact .inl rfl
  | assign t =>
    obtain ⟨hfree, -⟩ := hnames.free _ _ (.head _)
    exact .inr ⟨rfl, .bind hn.has hfree rfl⟩
  | conclude _ _ =>
    -- The name was free when its declaration began, and whatever was bound since then belongs to
    -- other owners.
    obtain ⟨hfree, -⟩ := hnames.free _ _ (.tail _ (.head _))
    exact .inr ⟨rfl, .bind hn.2.has hfree rfl⟩
  | register _ _ _ _ _ => exact .inr ⟨rfl, .modifyLayout _ _ _⟩

/-- At all moments, what is bound next was free. -/
theorem Steps.nameChanges {options : Options} {st : Stage} (h : Steps (.start options) st) :
    st.moments.IsChain fun c' c => NameChange c.schema c'.schema := by
  induction h with
  | refl => exact .singleton _
  | tail hsteps h ih =>
    obtain heq | ⟨heq, hchange⟩ := h.nameChange (Steps.settled hsteps)
    · rwa [heq]
    · rw [heq]
      exact .cons_cons hchange ih

theorem Steps.bareProxies {options : Options} {st : Stage} (h : Steps (.start options) st) :
    ∀ c ∈ st.moments, c.schema.BareProxies := by
  refine h.forall_moments (P := fun c => c.schema.BareProxies) ?_ fun st st' hsteps h hbare => ?_
  · intro id scope hs _
    rw [List.mem_singleton.1 (List.mem_of_getElem? hs)]
  · obtain heq | ⟨-, hchange⟩ := h.nameChange hsteps.settled
    · rwa [show st'.now = st.now from List.head_eq_of_cons_eq heq]
    · exact hchange.bareProxies hsteps.settled.sound.rooted hbare

end Compilation

end PacketSchema
