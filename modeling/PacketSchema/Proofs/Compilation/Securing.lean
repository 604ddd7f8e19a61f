import PacketSchema.Proofs.Compilation.WellFormed
import PacketSchema.Proofs.Declaration.Ranges
import PacketSchema.Proofs.Schema.Unfolding

/-! Schemas are well formed at all moments of a compilation, be it successful or not. A run is
described from the schema that it starts at. What is known of that schema and stays lasts for the
rest of the run. -/

namespace PacketSchema

theorem Statement.Bounded.inside {st : Statement} (h : st.Bounded) {body : List Statement}
    (hbody : st.inside? = some body) : AllBounded body := by
  obtain rfl | ⟨p, q, ⟨name, rfl⟩ | ⟨name, rfl⟩ | ⟨name, rfl⟩⟩ := inside?_cases hbody
  · exact trivial
  all_goals exact h

namespace Compilation

open Schema

/-- Run at a schema after well-formed moments, it comes to well-formed moments only, and keeps what
is there. Where it succeeds, the result and the schema after it are as described. -/
def Secures {α : Type} (s : Schema) (x : Recorded α) (Q : α → Schema → Prop) : Prop :=
  ∀ r : Recording, r.current.schema = s → (∀ c ∈ r.moments, WellFormed c.schema) →
    (∀ c ∈ (x.run r).2.moments, WellFormed c.schema) ∧
      Continues s (x.run r).2.current.schema ∧
      ∀ a, (x.run r).1 = .ok a → Q a (x.run r).2.current.schema

/-- What is run leaves the schema as it is. -/
abbrev Watches {α : Type} (s : Schema) (x : Recorded α) (P : α → Prop) : Prop :=
  Secures s x fun a s' => s' = s ∧ P a

/-- The compilation of what stands in a scope. -/
def SecuresInside (inside : ScopeId → Recorded Unit) : Prop :=
  ∀ s id, WellFormed s → s.Has id → Secures s (inside id) fun _ _ => True

/-- An argument with bounded literals, which resolves to a type that may be referred to. -/
structure Argument.Secured (d : ScopeId) (a : Argument Recorded) : Prop where
  bounded : a.arg.Bounded
  resolve : ∀ s, WellFormed s → s.Has d →
    Secures s a.resolve fun t s' => Refers s' (.type t)

namespace Secures

variable {α β : Type} {s : Schema} {Q : α → Schema → Prop}

theorem pure {a : α} (h : Q a s) : Secures s (pure a) Q := by
  rintro r rfl hr
  refine ⟨hr, .refl _, ?_⟩
  rintro _ ⟨⟩
  exact h

theorem throw {e : SchemaError} : Secures s (throw e) Q := by
  rintro r rfl hr
  exact ⟨hr, .refl _, fun _ h => by cases h⟩

theorem bind {x : Recorded α} {f : α → Recorded β} {R : β → Schema → Prop} (hx : Secures s x Q)
    (hf : ∀ a s', Continues s s' → WellFormed s' → Q a s' → Secures s' (f a) R) :
    Secures s (x >>= f) R := by
  intro r hs hr
  obtain ⟨hmoments, hc, hQ⟩ := hx r hs hr
  rw [run_bind]
  rcases hrun : x.run r with ⟨e | a, r'⟩
  · rw [hrun] at hmoments hc
    exact ⟨hmoments, hc, fun _ h => by cases h⟩
  · rw [hrun] at hmoments hc hQ
    have hwell : WellFormed r'.current.schema := hmoments _ List.mem_cons_self
    obtain ⟨hmoments', hc', hR⟩ := hf a _ hc hwell (hQ a rfl) r' rfl hmoments
    exact ⟨hmoments', hc.trans hc', hR⟩

theorem imp {x : Recorded α} {R : α → Schema → Prop} (hx : Secures s x Q)
    (h : ∀ a s', Q a s' → R a s') : Secures s x R := by
  intro r hs hr
  obtain ⟨hmoments, hc, hQ⟩ := hx r hs hr
  exact ⟨hmoments, hc, fun a ha => h a _ (hQ a ha)⟩

theorem get_bind {f : Compilation → Recorded α}
    (hf : ∀ c, c.schema = s → Secures s (f c) Q) : Secures s (get >>= f) Q :=
  fun r hs hr => hf r.current hs r hs hr

/-- The schema where a run starts is well formed. -/
theorem assuming {x : Recorded α} (h : WellFormed s → Secures s x Q) : Secures s x Q := by
  rintro r rfl hr
  exact h (hr _ List.mem_cons_self) r rfl hr

theorem modify {g : Compilation → Compilation} {R : Unit → Schema → Prop}
    (h : ∀ c, c.schema = s → WellFormed s →
      WellFormed (g c).schema ∧ Continues s (g c).schema ∧ R () (g c).schema) :
    Secures s (modify g) R := by
  intro r hs hr
  obtain ⟨hwell, hc, hR⟩ := h r.current hs (hs ▸ hr _ List.mem_cons_self)
  refine ⟨fun c hmem => ?_, hc, fun _ _ => hR⟩
  obtain rfl | hmem := List.mem_cons.1 hmem
  · exact hwell
  · exact hr c hmem

/-- A step that changes nothing comes before others. -/
theorem watches_bind {x : Recorded α} {f : α → Recorded β} {P : α → Prop}
    {R : β → Schema → Prop} (hx : Watches s x P) (hf : ∀ a, P a → Secures s (f a) R) :
    Secures s (x >>= f) R := by
  refine Secures.bind hx fun a s' _ _ h => ?_
  obtain ⟨rfl, hP⟩ := h
  exact hf a hP

/-! ## Steps -/

theorem modifySchema {g : Schema → Schema} (hwell : WellFormed s → WellFormed (g s))
    (hc : Continues s (g s)) :
    Secures s (modifySchema g : Recorded Unit) fun _ s' => s' = g s := by
  refine modify fun c hs h => ?_
  subst hs
  exact ⟨hwell h, hc, rfl⟩

theorem report (e : Event) : Watches s (report e) fun _ => True :=
  modify fun c hs h => by
    subst hs
    exact ⟨h, .refl _, rfl, trivial⟩

theorem report_bind {e : Event} {f : Unit → Recorded β} {R : β → Schema → Prop}
    (hf : Secures s (f ()) R) : Secures s (Compilation.report e >>= f) R :=
  watches_bind (report e) fun _ _ => hf

theorem refuseIf {p : Prop} [Decidable p] {e : SchemaError} :
    Watches s (refuseIf p e) fun _ => ¬ p := by
  unfold Compilation.refuseIf
  split
  · exact throw
  · exact pure ⟨rfl, ‹_›⟩

theorem addScope {d : ScopeId} (hd : s.Has d) {scope : Scope} (hp : scope.parent = some d)
    (hscope : WellFormed s → ScopeWellFormed s scope) :
    Secures s (addScope scope) fun id s' => s'.scope? id = some scope := by
  refine get_bind fun c hs => ?_
  subst hs
  have hadd : Secures c.schema (Compilation.modifySchema (·.addScope scope)) _ :=
    modifySchema (fun h => h.addScope hd hp (hscope h)) (.addScope _ _)
  refine hadd.bind ?_
  rintro _ s' - - rfl
  exact pure (scope?_addScope_self _ _)

theorem bindName (d : ScopeId) (name : String) (item : Item) (hitem : Refers s item.node) :
    Secures s (Compilation.bind d name item) fun _ _ => True :=
  Secures.imp (modifySchema (fun h => h.bind d name hitem) (.of_shapes (.bind _ _ _ _) rfl))
    fun _ _ _ => trivial

theorem modifyLayout (id : ScopeId) {g : Layout → Layout}
    (hg : ∀ l, LayoutWellFormed s l → LayoutWellFormed s (g l)) :
    Secures s (Compilation.modifySchema (·.modifyLayout id g)) fun _ _ => True :=
  Secures.imp (modifySchema (fun h => h.modifyLayout id hg)
    (.of_shapes (.modifyLayout _ _ _) rfl)) fun _ _ _ => trivial

theorem intern {t : ParamType} (ht : ParamWellFormed s t) :
    Secures s (intern t) fun u s' => Refers s' (.type u) := by
  refine assuming fun h => get_bind fun c hs => ?_
  subst hs
  have hadd : Secures c.schema (Compilation.modifySchema fun s =>
      { s with types := (c.schema.types.intern t).2 }) _ :=
    modifySchema (fun h => h.intern ht) (.intern _ t)
  refine report_bind (hadd.bind ?_)
  rintro _ s' - - rfl
  exact pure (h.refers_intern t)

theorem checkFree (d : ScopeId) (name : Ident) : Watches s (checkFree d name) fun _ => True :=
  get_bind fun _ _ => refuseIf.imp fun _ _ h => ⟨h.1, trivial⟩

theorem anchor (d : ScopeId) (name : Option String) (p : Position) :
    Watches s (anchor d name p) fun a => climb none (name.map ([·])) (s.chain d) = some a := by
  refine get_bind fun c hs => ?_
  subst hs
  split
  · exact pure ⟨rfl, ‹_›⟩
  · exact throw

theorem takeSnapshot (source : ScopeId) :
    Watches s (takeSnapshot source) fun layout => LayoutWellFormed s layout := by
  have hmark : Watches s (MonadStateOf.modifyGet fun c : Compilation =>
      ((), { c with snapshotted := source :: c.snapshotted }) : Recorded Unit) fun _ => True :=
    modify fun c hs h => by
      subst hs
      exact ⟨h, .refl _, rfl, trivial⟩
  refine assuming fun h => watches_bind hmark fun _ _ => get_bind fun c hs => pure ⟨rfl, ?_⟩
  rw [hs]
  cases hl : s.layout? source with
  | none => exact layoutWellFormed_empty s
  | some l => exact (h.layout hl).snapshot

theorem addBranch (base : ScopeId) (path : Path) {id : ScopeId}
    (hid : Refers s (.type (.struct id))) (p : Position) :
    Secures s (addBranch base path id p) fun _ _ => True := by
  refine get_bind fun c _ => ?_
  split
  · exact throw
  · exact watches_bind refuseIf fun _ _ => modifyLayout base fun l hl => hl.addBranch path hid

theorem warnLate (d : ScopeId) (name : Ident) : Secures s (warnLate d name) fun _ _ => True :=
  get_bind fun _ _ => report_bind (Secures.imp (modifySchema (fun h => h.of_scopes_eq rfl rfl)
    (.of_shapes (.of_scopes_eq rfl) rfl)) fun _ _ _ => trivial)

theorem addField (d : ScopeId) {t : TypeRef} (ht : Refers s (.type t)) (name : Ident) :
    Secures s (addField d t name) fun _ _ => True := by
  refine get_bind fun c _ => ?_
  split
  · exact throw
  · refine watches_bind refuseIf fun _ _ =>
      (modifyLayout d fun l hl => hl.addField name.text ht).bind fun _ _ _ _ _ => report_bind ?_
    split
    · exact warnLate d name
    · exact pure trivial

theorem fields (d : ScopeId) {t : TypeRef} : ∀ (names : List Ident) {s : Schema},
    Refers s (.type t) → Secures s (names.forM (Compilation.addField d t)) fun _ _ => True
  | [], _, _ => pure trivial
  | name :: names, _, ht =>
    (addField d ht name).bind fun _ _ hc _ _ => fields d names (hc.refers ht)

theorem checkFits (layout : Layout) (p : Position) (name : String) (value : Literal) :
    Watches s (checkFits layout p name value) fun _ => True := by
  refine get_bind fun c _ => ?_
  split
  · exact pure ⟨rfl, trivial⟩
  · exact refuseIf.imp fun _ _ h => ⟨h.1, trivial⟩

theorem checkConsistent (layout : Layout) (p : Position) (name : String) (value : Literal) :
    Watches s (checkConsistent layout p name value) fun _ => True := by
  unfold Compilation.checkConsistent
  split
  · exact pure ⟨rfl, trivial⟩
  · exact refuseIf.imp fun _ _ h => ⟨h.1, trivial⟩

theorem constrainedName (o : Operand) : Watches s (constrainedName o) fun _ => True := by
  unfold Compilation.constrainedName
  split
  · exact pure ⟨rfl, trivial⟩
  · exact throw

theorem constrainingLiteral (o : Operand) : Watches s (constrainingLiteral o) fun _ => True := by
  unfold Compilation.constrainingLiteral
  split
  · exact pure ⟨rfl, trivial⟩
  · exact throw

theorem addConstraint (d : ScopeId) (p : Position) (left right : Operand) :
    Secures s (addConstraint d p left right) fun _ _ => True := by
  refine get_bind fun c _ => ?_
  split
  · exact throw
  · exact watches_bind (constrainedName _) fun name _ =>
      watches_bind (constrainingLiteral _) fun value _ =>
      watches_bind (checkFits _ _ _ _) fun _ _ =>
      watches_bind (checkConsistent _ _ _ _) fun _ _ =>
      report_bind (modifyLayout d fun l hl => hl.addConstraint name value)

/-! ## Arguments -/

section

variable {d : ScopeId} {a : Argument Recorded}

theorem prefixedLength (h : a.Secured d) (hd : s.Has d) (owner : Builtin) :
    Secures s (a.prefixedLength owner) fun l _ => l.Fits owner := by
  refine assuming fun hwell => (h.resolve s hwell hd).bind fun t _ _ _ _ => ?_
  split
  · split
    · rename_i hinteger
      exact pure hinteger
    · exact throw
  · exact throw

theorem length (h : a.Secured d) (hd : s.Has d) (owner : Builtin) :
    Secures s (a.length owner) fun l _ => l.Fits owner := by
  have hprefixed := prefixedLength h hd owner
  have hbounded := h.bounded
  unfold Argument.length
  split
  case h_1 n _ _ harg =>
    rw [harg] at hbounded
    split
    · rename_i hn
      refine pure ?_
      have hle : n ≤ Literal.maxNumber := hbounded.2
      exact (Int.toNat_of_nonneg hn).trans_le hle
    · exact throw
  case h_2 => exact throw
  case h_3 =>
    split
    · split
      · rename_i howner
        exact pure howner
      · exact throw
    · exact hprefixed
  case h_4 => exact hprefixed

theorem word (owner : Builtin) : Watches s (a.word owner) fun _ => True := by
  unfold Argument.word
  split
  · exact pure ⟨rfl, trivial⟩
  · exact pure ⟨rfl, trivial⟩
  · exact throw

theorem encoding {γ : Type} (owner : Builtin) (ofName? : String → Option γ) :
    Watches s (a.encoding owner ofName?) fun _ => True := by
  refine watches_bind (word owner) fun w _ => ?_
  split
  · exact pure ⟨rfl, trivial⟩
  · exact throw

/-- A builtin that counts its length with a varint, or has none, is applied well. -/
theorem paramWellFormed_of_length {t : ParamType} (he : t.elem? = none)
    (hl : ∀ l, t.length? = some l → l.Fits t.constructor) : ParamWellFormed s t where
  length := fun h => hl _ h
  elem := by
    intro u hu
    rw [he] at hu
    cases hu

theorem paramType? {as : List (Argument Recorded)} (h : ∀ a ∈ as, a.Secured d) (hd : s.Has d)
    {b : Builtin} {x : Recorded ParamType} (hx : paramType? b as = some x) :
    Secures s x fun t s' => ParamWellFormed s' t := by
  unfold Compilation.paramType? at hx
  split at hx
  case h_1 =>
    split at hx <;> cases hx <;> refine pure (paramWellFormed_of_length rfl ?_) <;>
      rintro _ ⟨⟩ <;> exact rfl
  case h_2 a =>
    have ha : a.Secured d := h a (by simp)
    split at hx
    · cases hx
      refine (length ha hd _).bind fun l s' _ _ hl => pure (paramWellFormed_of_length rfl ?_)
      rintro _ ⟨⟩
      exact hl
    · cases hx
      refine (length ha hd _).bind fun l s' _ _ hl => pure (paramWellFormed_of_length rfl ?_)
      rintro _ ⟨⟩
      exact hl
    · cases hx
      refine watches_bind (encoding _ _) fun e _ => pure (paramWellFormed_of_length rfl ?_)
      rintro _ ⟨⟩
    · cases hx
      refine assuming fun hwell => (ha.resolve s hwell hd).bind fun t s' _ _ ht => pure ⟨?_, ?_⟩
      · rintro _ ⟨⟩
        exact rfl
      · rintro _ ⟨⟩
        exact ht
    · cases hx
  case h_3 l e =>
    have hl : l.Secured d := h l (by simp)
    have he : e.Secured d := h e (by simp)
    split at hx
    · cases hx
      refine (length hl hd _).bind fun n s' _ _ hn => watches_bind (encoding _ _) fun _ _ =>
        pure (paramWellFormed_of_length rfl ?_)
      rintro _ ⟨⟩
      exact hn
    · cases hx
      refine (length hl hd _).bind fun n s₁ hc hwell hn =>
        (he.resolve s₁ hwell (hc.has hd)).bind fun t s' _ _ ht => pure ⟨?_, ?_⟩
      · rintro _ ⟨⟩
        exact hn
      · rintro _ ⟨⟩
        exact ht
    · cases hx
  case h_4 => cases hx

theorem apply {as : List (Argument Recorded)} (h : ∀ a ∈ as, a.Secured d) (hd : s.Has d)
    (b : Builtin) (p : Position) :
    Secures s (apply b p as) fun t s' => Refers s' (.type t) := by
  unfold Compilation.apply
  split
  case h_1 x hx => exact (paramType? h hd hx).bind fun t s' _ _ ht => intern ht
  case h_2 =>
    split
    · exact throw
    · rename_i hnone
      obtain ⟨hplain, -⟩ : b.isParameterized = false ∧ as = [] := by simpa using hnone
      refine pure ⟨trivial, ?_⟩
      rintro _ ⟨⟩
      exact hplain

theorem resolveName {as : List (Argument Recorded)} (h : ∀ a ∈ as, a.Secured d) (hd : s.Has d)
    (n : Name) (p : Position) :
    Secures s (resolveName d n p as) fun t s' => Refers s' (.type t) := by
  unfold Compilation.resolveName
  split
  case h_1 b _ => exact apply h hd b p
  case h_2 =>
    refine assuming fun hwell => get_bind fun c hs => ?_
    split
    case h_1 t ht =>
      split
      · refine pure ?_
        obtain ⟨item, hfound, hitem⟩ := Option.bind_eq_some_iff.1 ht
        rw [hs] at hfound
        have hrefers := hwell.refers_of_lookup? hfound
        cases item with
        | space id => cases hitem
        | type u =>
          cases hitem
          exact hrefers
      · exact throw
    case h_2 => exact throw

end

/-! ## Scopes -/

section

variable {inside : ScopeId → Recorded Unit} {d : ScopeId}

theorem addScopeWith (hinside : SecuresInside inside) (hd : s.Has d) {scope : Scope}
    (hp : scope.parent = some d) (hscope : WellFormed s → ScopeWellFormed s scope) :
    Secures s (addScopeWith scope inside) fun id s' =>
      scope.isProxy = false → Refers s' (scope.item id).node := by
  refine (addScope hd hp hscope).bind fun id s₁ _ hwell hs =>
    (hinside s₁ id hwell (has_of_scope? hs)).bind fun _ s' hc _ _ => pure fun hproxy => ?_
  obtain ⟨scope', hs', heq⟩ := hc.keeps id scope hs
  have hrefers := refers_item hs' (by rw [Scope.isProxy_eq heq, hproxy])
  rwa [Scope.item_shape heq] at hrefers

theorem addStruct (hinside : SecuresInside inside) (hd : s.Has d) (name : Option String)
    (p : Position) :
    Secures s (addStruct d name p inside) fun t s' => Refers s' (.type t) := by
  refine (addScopeWith hinside hd rfl fun _ => ⟨?_, ?_, ?_⟩).bind
    fun id s' _ _ hrefers => pure (hrefers rfl)
  · rintro _ ⟨⟩
  · rintro _ ⟨⟩
    exact layoutWellFormed_empty s
  · exact fun h => absurd h List.not_mem_nil

theorem addSpace (hinside : SecuresInside inside) (hd : s.Has d) (name : Ident) (p : Position) :
    Secures s (addSpace d name p inside) fun _ _ => True := by
  refine watches_bind (checkFree d name) fun _ _ => report_bind
    ((addScopeWith hinside hd rfl fun _ => ⟨?_, ?_, ?_⟩).bind
      fun id s' _ _ hrefers => bindName d name.text (.space id) (hrefers rfl))
  · rintro _ ⟨⟩
  · rintro _ ⟨⟩
  · exact fun h => absurd h List.not_mem_nil

theorem addType {x : Recorded TypeRef} (hx : Secures s x fun t s' => Refers s' (.type t))
    (name : Ident) (p : Position) : Secures s (addType d name p x) fun _ _ => True :=
  watches_bind (checkFree d name) fun _ _ => report_bind
    (hx.bind fun t _ _ _ ht => bindName d name.text (.type t) ht)

theorem addVariant (hinside : SecuresInside inside) (hd : s.Has d) (name : Option Ident)
    (p : Position) : Secures s (addVariant d name p inside) fun _ _ => True := by
  have hfree : Watches s (name.forM (Compilation.checkFree d)) fun _ => True := by
    cases name with
    | none => exact pure ⟨rfl, trivial⟩
    | some name => exact checkFree d name
  refine assuming fun hwell => watches_bind hfree fun _ _ =>
    watches_bind (anchor d _ p) fun a hclimb => watches_bind (takeSnapshot _) fun layout hl =>
    get_bind fun c _ => report_bind ?_
  have hbase := hwell.refers_base hd hclimb
  refine (addScopeWith hinside hd rfl fun _ => ⟨?_, ?_, ?_⟩).bind fun id s' hc _ hrefers => ?_
  · intro b hb
    rw [a.kind_base?] at hb
    cases hb
    exact hbase
  · intro l hlayout
    unfold Scope.layout? at hlayout
    rw [a.kind_layout?] at hlayout
    cases hlayout
    exact hl
  · exact fun h => absurd h List.not_mem_nil
  · split
    case h_1 text path _ hpath =>
      have hitem := hrefers (by simp [Scope.isProxy, a.kind_isProxy, hpath])
      rw [Scope.item_of_path (by simp [a.kind_path?, hpath])] at hitem
      exact (bindName d text _ hitem).bind fun _ _ hbound _ _ =>
        addBranch a.base path (hbound.refers hitem) p
    case h_2 => exact pure trivial

end

/-! ## Declarations -/

/-- What is compiled in a schema that is well formed keeps it so. -/
theorem closed : Cases (m := Recorded)
    (fun d e x => e.Bounded → ∀ s, WellFormed s → s.Has d →
      Secures s x fun t s' => Refers s' (.type t))
    (fun d a x => a.Bounded → ∀ s, WellFormed s → s.Has d →
      Secures s x fun t s' => Refers s' (.type t))
    (fun d as xs => TypeArg.AllBounded as → ∀ x ∈ xs, x.Secured d)
    (fun d st x => st.Bounded → ∀ s, WellFormed s → s.Has d → Secures s x fun _ _ => True)
    (fun d body x => Statement.AllBounded body → ∀ s, WellFormed s → s.Has d →
      Secures s x fun _ _ => True) where
  applied hargs p n h _ _ hd := resolveName (hargs h.2) hd n p
  grouped he _ h := he h.1
  literal _ _ _ _ _ _ _ := throw
  headed _ _ _ _ _ _ _ _ := throw
  inline hbody _ p h _ _ hd := addStruct (fun s id => hbody id h s) hd none p
  nameArg _ n _ _ _ hd := resolveName (by simp) hd n n.position
  literalArg _ _ _ _ _ _ := throw
  typeArg he := he
  noArgs _ _ := by simp
  moreArgs ha has h := List.forall_mem_cons.2 ⟨⟨h.1, ha h.1⟩, has h.2⟩
  space hbody _ p name h _ _ hd := addSpace (fun s id => hbody id (h.inside rfl) s) hd name p
  struct he hbody _ p name h _ _ hd :=
    addType (addStruct (fun s id => hbody id (h.inside he) s) hd _ p) name p
  synonym _ hx p name h s hwell hd := addType (hx h s hwell hd) name p
  variant hbody _ p name h _ _ hd := addVariant (fun s id => hbody id (h.inside rfl) s) hd name p
  constraint d p left right _ _ _ _ := addConstraint d p left right
  fields he _ names h s hwell hd := (he h s hwell hd).bind fun _ _ _ _ ht => fields _ names ht
  nil _ _ _ _ _ := pure trivial
  cons hst hsts h s hwell hd := (hst h.1 s hwell hd).bind fun _ s' hc hwell' _ =>
    hsts h.2 s' hwell' (hc.has hd)

/-! ## Texts -/

theorem addText (source text : String) :
    Secures s (addText source text) fun _ _ => True := by
  refine assuming fun hwell => report_bind ?_
  split
  case h_1 body hbody =>
    have hbounded := Body.ofText_bounded hbody
    obtain ⟨p, statements⟩ := body
    unfold Body.Bounded at hbounded
    exact closed.declareAll root statements hbounded s hwell hwell.root
  case h_2 => exact throw

theorem addTexts : ∀ (sources : List (String × String)) {s : Schema},
    Secures s (addTexts sources) fun _ _ => True
  | [], _ => pure trivial
  | (source, text) :: sources, _ => (addText source text).bind fun _ _ _ _ _ => addTexts sources

end Secures

/-- The schema is well formed at every moment of a compilation, also of one that fails. -/
theorem wellFormed_of_mem_history {options : Options} {sources : List (String × String)}
    {c : Compilation} (hc : c ∈ history options sources) : WellFormed c.schema := by
  have hstart : ∀ c ∈ (⟨.start options, []⟩ : Recording).moments, WellFormed c.schema := by
    intro c hmem
    rw [List.mem_singleton.1 hmem]
    exact wellFormed_empty
  exact (Secures.addTexts sources _ rfl hstart).1 c hc

theorem wellFormed_of_ok {options : Options} {sources : List (String × String)} {s : Schema}
    (h : ofSources options sources = .ok s) : WellFormed s := by
  obtain ⟨c, past, hhistory, rfl, -⟩ := history_of_ok h
  exact wellFormed_of_mem_history (hhistory ▸ List.mem_cons_self)

/-! ## Types -/

theorem WellFormed.refers_of_stores {s : Schema} (h : WellFormed s) {t : TypeRef}
    (ht : s.Stores t) : Refers s (.type t) := by
  cases ht with
  | field hl hmem => exact (h.layout hl).fields hmem
  | binding hs hmem => exact (h.scope hs).names hmem
  | elem hu =>
    obtain ⟨id, p, -, hp, he⟩ := hu
    exact (h.param hp).elem he

/-- Every type of a compiled schema is well formed. The length of an applied type is a count of 63
bits, an integer type or, for bytes only, the word for what is left. Builtins that take arguments
are never the type of a field, of an element or behind a name by themselves. -/
theorem ofSources_types_wellFormed {options : Options} {sources : List (String × String)}
    {s : Schema} (h : ofSources options sources = .ok s) :
    (∀ id t l, s.param? id = some t → t.length? = some l → l.Fits t.constructor) ∧
    ∀ b, s.Stores (.builtin b) → b ∉ [.string, .bytes, .uuid, .array, .boolOptional] :=
  ⟨fun _ _ _ ht hl => ((wellFormed_of_ok h).param ht).length hl, fun b hb =>
    Builtin.isParameterized_eq_false_iff.1 (((wellFormed_of_ok h).refers_of_stores hb).plain b rfl)⟩

/-- The length of a string is an alias, and the element of an array is reached through a name. -/
theorem ofSources_types_wellFormed_alias : ∃ s,
    ofSources {} [("t", "type n : varint; type a : string (n); type b { x : array 3 a; };")]
        = .ok s ∧
      s.types.types =
        [.string (.prefixed .varint) .utf8, .array (.fixed 3) (.param ⟨0⟩)] ∧
      (∀ id t l, s.param? id = some t → t.length? = some l → l.Fits t.constructor) ∧
      ∀ b, s.Stores (.builtin b) → b ∉ [.string, .bytes, .uuid, .array, .boolOptional] := by
  obtain ⟨s, hs, hp⟩ := exists_ok (show ((ofSources {}
    [("t", "type n : varint; type a : string (n); type b { x : array 3 a; };")]
      ).toOption.any fun s => s.types.types =
        [.string (.prefixed .varint) .utf8, .array (.fixed 3) (.param ⟨0⟩)]) = true by
    decide +kernel)
  exact ⟨s, hs, of_decide_eq_true hp, ofSources_types_wellFormed hs⟩

end Compilation

end PacketSchema
