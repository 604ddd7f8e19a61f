import PacketSchema.Proofs.Compilation.History
import PacketSchema.Proofs.Compilation.Making
import PacketSchema.Proofs.Declaration.FieldNames

/-! Compiling makes what the judgment says. Every step is described by what it does to the schema
where it succeeds, and the descriptions of successive steps are put together. -/

namespace PacketSchema

theorem Statement.NamesFields.inside {st : Statement} (h : st.NamesFields)
    {body : List Statement} (hbody : st.inside? = some body) : AllNameFields body := by
  obtain rfl | ⟨p, q, ⟨name, rfl⟩ | ⟨name, rfl⟩ | ⟨name, rfl⟩⟩ := inside?_cases hbody
  · exact trivial
  all_goals exact h

namespace Compilation

open Schema

/-- Where what is run succeeds, it keeps the moments before it. If they belong to a longer run, the
result and the states before and after are as described. -/
def Yields {α : Type} (ms : List Compilation) (x : Recorded α)
    (J : α → Compilation → Compilation → Prop) : Prop :=
  ∀ r a r', x.run r = (.ok a, r') →
    r.moments <:+ r'.moments ∧ (r'.moments <:+ ms → J a r.current r'.current)

namespace Yields

variable {α β : Type} {ms : List Compilation} {J : α → Compilation → Compilation → Prop}

theorem pure {a : α} (h : ∀ c, J a c c) : Yields ms (pure a) J := by
  intro r b r' hrun
  cases hrun
  exact ⟨List.suffix_rfl, fun _ => h _⟩

theorem throw {e : SchemaError} : Yields ms (throw e) J := by
  intro r b r' hrun
  cases hrun

theorem bind {x : Recorded α} {f : α → Recorded β} {L : β → Compilation → Compilation → Prop}
    (hx : Yields ms x J) (hf : ∀ a, Yields ms (f a) fun b c₁ c' => ∀ c, J a c c₁ → L b c c') :
    Yields ms (x >>= f) L := by
  intro r b r' hrun
  rw [run_bind] at hrun
  rcases hx' : x.run r with ⟨e | a, r₁⟩
  · rw [hx'] at hrun
    cases hrun
  · rw [hx'] at hrun
    obtain ⟨hbefore, hJ⟩ := hx r a r₁ hx'
    obtain ⟨hafter, hL⟩ := hf a r₁ b r' hrun
    exact ⟨hbefore.trans hafter, fun hms => hL hms _ (hJ (hafter.trans hms))⟩

theorem imp {x : Recorded α} {K : α → Compilation → Compilation → Prop} (hx : Yields ms x J)
    (h : ∀ a c c', J a c c' → K a c c') : Yields ms x K := by
  intro r a r' hrun
  obtain ⟨hmoments, hJ⟩ := hx r a r' hrun
  exact ⟨hmoments, fun hms => h _ _ _ (hJ hms)⟩

theorem get_bind {f : Compilation → Recorded α}
    (hf : ∀ c, Yields ms (f c) fun a c₀ c' => c₀ = c → J a c₀ c') :
    Yields ms (get >>= f) J := by
  intro r a r' hrun
  obtain ⟨hmoments, hJ⟩ := hf r.current r a r' hrun
  exact ⟨hmoments, fun hms => hJ hms rfl⟩

theorem modify {g : Compilation → Compilation} {K : Unit → Compilation → Compilation → Prop}
    (h : ∀ c, K () c (g c)) : Yields ms (modify g) K := by
  intro r a r' hrun
  cases hrun
  exact ⟨List.suffix_cons _ _, fun _ => h _⟩

/-- The run itself is one of those among the moments. -/
theorem among {x : Recorded α} (hx : Yields ms x J) :
    Yields ms x fun a c c' => J a c c' ∧
      ∃ r r', x.run r = (.ok a, r') ∧ r.current = c ∧ r'.current = c' ∧ c ∈ ms ∧ c' ∈ ms := by
  intro r a r' hrun
  obtain ⟨hmoments, hJ⟩ := hx r a r' hrun
  refine ⟨hmoments, fun hms => ⟨hJ hms, r, r', hrun, rfl, rfl, ?_, ?_⟩⟩
  · exact (hmoments.trans hms).subset List.mem_cons_self
  · exact hms.subset List.mem_cons_self

end Yields

/-- Where what is run succeeds, the schemas before and after are as described. -/
def Performs {α : Type} (ms : List Compilation) (x : Recorded α)
    (J : α → Schema → Schema → Prop) : Prop :=
  Yields ms x fun a c c' => J a c.schema c'.schema

/-- What is run does not change the schema. -/
abbrev Observes {α : Type} (ms : List Compilation) (x : Recorded α) (P : α → Schema → Prop) :
    Prop :=
  Performs ms x fun a s s' => s' = s ∧ P a s

/-- An argument resolves to what its type expression makes. -/
def Argument.Performs (ms : List Compilation) (d : ScopeId) (a : Argument Recorded) : Prop :=
  Compilation.Performs ms a.resolve fun t s s' =>
    ∃ e, a.arg.expr? = some e ∧ Makes ms d (.type e t) s s'

namespace Performs

variable {α β : Type} {ms : List Compilation} {J : α → Schema → Schema → Prop}

theorem pure {a : α} (h : ∀ s, J a s s) : Performs ms (pure a) J := Yields.pure fun _ => h _

theorem throw {e : SchemaError} : Performs ms (throw e) J := Yields.throw

theorem bind {x : Recorded α} {f : α → Recorded β} {L : β → Schema → Schema → Prop}
    (hx : Performs ms x J) (hf : ∀ a, Performs ms (f a) fun b s₁ s' => ∀ s, J a s s₁ → L b s s') :
    Performs ms (x >>= f) L :=
  Yields.bind hx fun a => Yields.imp (hf a) fun _ _ _ h _ => h _

theorem imp {x : Recorded α} {K : α → Schema → Schema → Prop} (hx : Performs ms x J)
    (h : ∀ a s s', J a s s' → K a s s') : Performs ms x K :=
  Yields.imp hx fun _ _ _ => h _ _ _

theorem get_bind {f : Compilation → Recorded α}
    (hf : ∀ c, Performs ms (f c) fun a s s' => s = c.schema → J a s s') :
    Performs ms (get >>= f) J :=
  Yields.get_bind fun c => Yields.imp (hf c) fun _ _ _ h heq => h (congrArg schema heq)

theorem modify {g : Compilation → Compilation} {K : Unit → Schema → Schema → Prop}
    (h : ∀ c, K () c.schema (g c).schema) : Performs ms (modify g) K :=
  Yields.modify h

theorem among {x : Recorded α} (hx : Performs ms x J) :
    Performs ms x fun a s s' => J a s s' ∧
      ∃ r r', x.run r = (.ok a, r') ∧ r.current ∈ ms ∧ r'.current ∈ ms := by
  refine Yields.imp (Yields.among hx) ?_
  rintro a c c' ⟨hJ, r, r', hrun, rfl, rfl, hc, hc'⟩
  exact ⟨hJ, r, r', hrun, hc, hc'⟩

/-! ## Steps -/

theorem report (e : Event) : Performs ms (report e) fun _ s s' => s' = s := .modify fun _ => rfl

theorem modifySchema (f : Schema → Schema) :
    Performs ms (modifySchema f) fun _ s s' => s' = f s :=
  .modify fun _ => rfl

theorem report_bind {e : Event} {f : Unit → Recorded β} {L : β → Schema → Schema → Prop}
    (hf : Performs ms (f ()) L) : Performs ms (Compilation.report e >>= f) L := by
  refine (report e).bind fun _ => hf.imp fun b s₁ s' h s heq => ?_
  subst heq
  exact h

theorem addScope (scope : Scope) :
    Performs ms (addScope scope) fun id s s' => id = s.nextId ∧ s' = s.addScope scope := by
  refine .get_bind fun c => (modifySchema _).bind fun _ => .pure fun s₁ s hadded hs => ?_
  subst hs
  exact ⟨rfl, hadded⟩

theorem intern (t : ParamType) :
    Performs ms (intern t) fun u s s' =>
      u = .param (s.types.intern t).1 ∧ s' = s.intern t := by
  refine .get_bind fun c => .report_bind ((modifySchema _).bind fun _ => .pure ?_)
  rintro s₁ s rfl rfl
  exact ⟨rfl, rfl⟩

theorem refuseIf_bind {p : Prop} [Decidable p] {e : SchemaError} {f : Unit → Recorded α}
    (hf : ¬ p → Performs ms (f ()) J) : Performs ms (refuseIf p e >>= f) J := by
  unfold refuseIf
  split
  · exact throw
  · exact hf ‹_›

theorem refuseIf {p : Prop} [Decidable p] {e : SchemaError} :
    Observes ms (refuseIf p e) fun _ _ => ¬ p := by
  unfold Compilation.refuseIf
  split
  · exact throw
  · exact .pure fun _ => ⟨rfl, ‹_›⟩

theorem checkFree (d : ScopeId) (name : Ident) :
    Observes ms (checkFree d name) fun _ s => s.getLocal? d name.text = none := by
  refine .get_bind fun c => refuseIf.imp ?_
  rintro _ s s' ⟨rfl, hfree⟩ rfl
  exact ⟨rfl, by simpa using hfree⟩

theorem anchor (d : ScopeId) (name : Option String) (p : Position) :
    Observes ms (anchor d name p) fun a s =>
      climb none (name.map ([·])) (s.chain d) = some a := by
  refine .get_bind fun c => ?_
  split
  · rename_i a hclimb
    exact .pure fun s hs => ⟨rfl, hs ▸ hclimb⟩
  · exact throw

theorem takeSnapshot (source : ScopeId) :
    Observes ms (takeSnapshot source) fun layout s =>
      layout = ((s.layout? source).map Layout.snapshot).getD {} := by
  refine Performs.bind (J := fun _ s s' => s' = s) (modify fun _ => rfl) fun _ =>
    .get_bind fun c => .pure ?_
  rintro s₁ rfl s rfl
  exact ⟨rfl, rfl⟩

theorem addBranch (base : ScopeId) (path : Path) (id : ScopeId) (p : Position) :
    Performs ms (addBranch base path id p) fun _ s s' =>
      ∃ layout, s.layout? base = some layout ∧ layout.branches.find? path = none ∧
        s' = s.modifyLayout base (·.addBranch path id) := by
  refine .get_bind fun c => ?_
  split
  · exact throw
  · rename_i layout hl
    refine refuseIf_bind fun hnew => (modifySchema _).imp ?_
    rintro _ s s' rfl rfl
    exact ⟨layout, hl, by simpa [Table.contains] using hnew, rfl⟩

theorem warnLate (d : ScopeId) (name : Ident) :
    Performs ms (warnLate d name) fun _ s s' => ∃ f, s' = s.addWarning f := by
  refine .get_bind fun c => .report_bind ((modifySchema _).imp ?_)
  rintro _ s s' rfl -
  exact ⟨_, rfl⟩

theorem addField (d : ScopeId) (t : TypeRef) (name : Ident) :
    Performs ms (addField d t name) fun _ s s' =>
      ∀ names s'', AddsFields d t names s' s'' → AddsFields d t (name :: names) s s'' := by
  refine .get_bind fun c => ?_
  split
  · exact throw
  · rename_i layout hl
    refine refuseIf_bind fun hnew => (modifySchema _).bind fun _ => .report_bind ?_
    have hnew : layout.fields.find? name.text = none := by simpa [Table.contains] using hnew
    split
    · refine (warnLate d name).imp ?_
      rintro _ s₁ s' ⟨f, rfl⟩ s rfl rfl names s'' h
      exact .cons hl hnew (.warn f h)
    · refine .pure ?_
      rintro s₁ s rfl rfl names s'' h
      exact .cons hl hnew h

theorem fields (d : ScopeId) (t : TypeRef) : ∀ names : List Ident,
    Performs ms (names.forM (Compilation.addField d t)) fun _ s s' => AddsFields d t names s s'
  | [] => .pure fun _ => .nil
  | name :: names => (addField d t name).bind fun _ => (fields d t names).imp
    fun _ _ _ h _ hfield => hfield _ _ h

theorem checkFits (layout : Layout) (p : Position) (name : String) (value : Literal) :
    Observes ms (checkFits layout p name value) fun _ _ => True := by
  refine .get_bind fun c => ?_
  split
  · exact .pure fun _ _ => ⟨rfl, trivial⟩
  · exact refuseIf.imp fun _ _ _ h _ => ⟨h.1, trivial⟩

theorem checkConsistent (layout : Layout) (p : Position) (name : String) (value : Literal) :
    Observes ms (checkConsistent layout p name value) fun _ _ => True := by
  unfold Compilation.checkConsistent
  split
  · exact .pure fun _ => ⟨rfl, trivial⟩
  · exact refuseIf.imp fun _ _ _ h => ⟨h.1, trivial⟩

theorem constrainedName (o : Operand) :
    Observes ms (constrainedName o) fun text _ =>
      ∃ name : Ident, o = .name ⟨name, []⟩ ∧ text = name.text := by
  unfold Compilation.constrainedName
  split
  · exact .pure fun _ => ⟨rfl, _, rfl, rfl⟩
  · exact throw

theorem constrainingLiteral (o : Operand) :
    Observes ms (constrainingLiteral o) fun literal _ =>
      ∃ value : Value, o = .value value ∧ literal = value.literal := by
  unfold Compilation.constrainingLiteral
  split
  · exact .pure fun _ => ⟨rfl, _, rfl, rfl⟩
  · exact throw

/-- A step that changes nothing comes before others. -/
theorem observes_bind {x : Recorded α} {f : α → Recorded β} {P : α → Schema → Prop}
    {L : β → Schema → Schema → Prop} (hx : Observes ms x P)
    (hf : ∀ a, Performs ms (f a) fun b s s' => P a s → L b s s') : Performs ms (x >>= f) L := by
  refine Performs.bind hx fun a => (hf a).imp ?_
  rintro b s₁ s' h s ⟨rfl, hP⟩
  exact h hP

theorem addConstraint (d : ScopeId) (p : Position) (left right : Operand) :
    Performs ms (addConstraint d p left right) fun _ s s' =>
      Makes ms d (.statement (.constraint p left right)) s s' := by
  refine .get_bind fun c => ?_
  split
  · exact throw
  · rename_i layout hl
    refine observes_bind (constrainedName _) fun text =>
      observes_bind (constrainingLiteral _) fun literal =>
      observes_bind (checkFits _ _ _ _) fun _ =>
      observes_bind (checkConsistent _ _ _ _) fun _ => .report_bind ((modifySchema _).imp ?_)
    rintro _ s s' rfl - - ⟨value, rfl, rfl⟩ ⟨name, rfl, rfl⟩ rfl
    exact .constraint name value hl

/-! ## Arguments -/

section

variable {d : ScopeId} {a : Argument Recorded}

theorem prefixedLength (h : a.Performs ms d) (owner : Builtin) :
    Performs ms (a.prefixedLength owner) fun _ s s' => Makes ms d (.length a.arg) s s' := by
  refine Performs.bind h fun t => ?_
  split
  · split
    · refine .pure ?_
      rintro s₁ s ⟨e, he, h⟩
      exact .counted he h
    · exact throw
  · exact throw

theorem length (h : a.Performs ms d) (owner : Builtin) :
    Performs ms (a.length owner) fun _ s s' => Makes ms d (.length a.arg) s s' := by
  have hprefixed := prefixedLength h owner
  unfold Argument.length
  split
  case h_1 harg =>
    split
    · exact .pure fun s => .word (harg ▸ trivial)
    · exact throw
  case h_2 => exact throw
  case h_3 harg =>
    split
    · split
      · exact .pure fun s => .word (harg ▸ trivial)
      · exact throw
    · exact hprefixed
  case h_4 => exact hprefixed

theorem word (owner : Builtin) : Observes ms (a.word owner) fun _ _ => a.arg.IsWord := by
  unfold Argument.word
  split
  case h_1 harg => exact .pure fun _ => ⟨rfl, harg ▸ trivial⟩
  case h_2 harg => exact .pure fun _ => ⟨rfl, harg ▸ trivial⟩
  case h_3 => exact throw

theorem encoding {γ : Type} (owner : Builtin) (ofName? : String → Option γ) :
    Observes ms (a.encoding owner ofName?) fun _ _ => a.arg.IsWord := by
  refine observes_bind (word owner) fun w => ?_
  split
  · exact .pure fun _ hword => ⟨rfl, hword⟩
  · exact throw

theorem paramType? {as : List (Argument Recorded)} (h : ∀ a ∈ as, a.Performs ms d)
    {b : Builtin} {x : Recorded ParamType} (hx : paramType? b as = some x) :
    Performs ms x fun t s s' => Makes ms d (.applied (as.map Argument.arg) t) s s' := by
  unfold Compilation.paramType? at hx
  split at hx
  case h_1 =>
    split at hx <;> cases hx <;> exact .pure fun _ => .plain (by simp) rfl
  case h_2 a =>
    have ha : a.Performs ms d := h a (by simp)
    split at hx
    · cases hx
      exact (length ha _).bind fun _ => .pure fun _ _ hl => .measured (by simp) rfl hl
    · cases hx
      exact (length ha _).bind fun _ => .pure fun _ _ hl => .measured (by simp) rfl hl
    · cases hx
      exact observes_bind (encoding _ _) fun _ => .pure fun _ hword =>
        .plain (by simpa using hword) rfl
    · cases hx
      refine Performs.bind ha fun t => .pure ?_
      rintro s₁ s ⟨e, he, h⟩
      exact .boolOptional he h
    · cases hx
  case h_3 l e =>
    have hl : l.Performs ms d := h l (by simp)
    have he : e.Performs ms d := h e (by simp)
    split at hx
    · cases hx
      exact (length hl _).bind fun _ => observes_bind (encoding _ _) fun _ => .pure
        fun _ hword _ hl => .measured (by simpa using hword) rfl hl
    · cases hx
      refine (length hl _).bind fun n => Performs.bind he fun t => .pure ?_
      rintro s₂ s₁ ⟨e, he, h⟩ s hl
      exact .array hl he h
    · cases hx
  case h_4 => cases hx

/-- A builtin with arguments is an applied type, and without any it may be a type by itself. -/
theorem apply {as : List (Argument Recorded)} (h : ∀ a ∈ as, a.Performs ms d) {n : Name}
    {b : Builtin} (hb : Builtin.ofName? n.text = some b) (p q : Position) :
    Performs ms (apply b p as) fun t s s' =>
      Makes ms d (.type (.application q (.name n) (as.map Argument.arg)) t) s s' := by
  unfold Compilation.apply
  split
  case h_1 x hx =>
    refine (paramType? h hx).bind fun t => (intern t).imp ?_
    rintro u s₁ s' ⟨rfl, rfl⟩ s h
    exact .application hb h
  case h_2 =>
    split
    · exact throw
    · rename_i hnone
      obtain ⟨hplain, rfl⟩ : b.isParameterized = false ∧ as = [] := by simpa using hnone
      exact .pure fun _ => .builtin hb hplain

theorem resolveName {as : List (Argument Recorded)} (h : ∀ a ∈ as, a.Performs ms d) (n : Name)
    (p q : Position) :
    Performs ms (resolveName d n p as) fun t s s' =>
      Makes ms d (.type (.application q (.name n) (as.map Argument.arg)) t) s s' := by
  unfold Compilation.resolveName
  split
  case h_1 b hb => exact apply h hb p q
  case h_2 hb =>
    refine .get_bind fun c => ?_
    split
    case h_1 t ht =>
      split
      · rename_i hargs
        obtain rfl : as = [] := by simpa using hargs
        refine .pure fun s hs => .named hb ?_
        obtain ⟨item, hfound, hitem⟩ := Option.bind_eq_some_iff.1 ht
        cases item with
        | space id => cases hitem
        | type u =>
          cases hitem
          rw [hs, hfound]
      · exact throw
    case h_2 => exact throw

end

/-! ## Scopes -/

section

variable {inside : ScopeId → Recorded Unit} {body : List Statement}

theorem addScopeWith
    (hinside : ∀ id, Performs ms (inside id) fun _ s s' => Makes ms id (.statements body) s s')
    (d : ScopeId) (scope : Scope) :
    Performs ms (addScopeWith scope inside) fun id s s' =>
      ∀ task, Opens s d task scope → Makes ms d (.scope scope body id) s s' := by
  refine (addScope scope).bind fun id => (hinside id).bind fun _ => .pure ?_
  rintro s₂ s₁ h s ⟨rfl, rfl⟩ task hopens
  exact .scope hopens h

theorem addStruct
    (hinside : ∀ id, Performs ms (inside id) fun _ s s' => Makes ms id (.statements body) s s')
    (d : ScopeId) (name : Option String) (p : Position) :
    Performs ms (addStruct d name p inside) fun t s s' =>
      ∃ id, t = .struct id ∧
        Makes ms d (.scope ⟨name, some d, some p, .struct {}, {}⟩ body id) s s' := by
  refine (addScopeWith hinside d _).bind fun id => .pure fun s₁ s h => ⟨id, rfl, ?_⟩
  cases name with
  | none => exact h (.ofName none) (.inline p)
  | some name => exact h _ (.struct name p)

theorem addSpace {o : Option Body}
    (hinside : ∀ id, Performs ms (inside id)
      fun _ s s' => Makes ms id (.statements (Body.inside o)) s s') (d : ScopeId) (name : Ident)
    (p : Position) :
    Performs ms (addSpace d name p inside) fun _ s s' =>
      Makes ms d (.statement (.space p name o)) s s' := by
  refine observes_bind (checkFree d name) fun _ => .report_bind ?_
  refine (addScopeWith hinside d _).bind fun id => (modifySchema _).imp ?_
  rintro _ s₁ s' rfl s h hfree
  have hscope := h _ (.space name.text p)
  have hmeaning := Makes.opened (.space p name o) hscope
  exact .declared rfl (.bound rfl hfree hmeaning)

theorem addType {d : ScopeId} {e : Option TypeExpr} {x : Recorded TypeRef} (name : Ident)
    (p : Position)
    (hx : Performs ms x fun t s s' => Makes ms d (.meaning (.type p name e) (.type t)) s s') :
    Performs ms (addType d name p x) fun _ s s' =>
      Makes ms d (.statement (.type p name e)) s s' := by
  refine observes_bind (checkFree d name) fun _ => .report_bind ?_
  refine hx.bind fun t => (modifySchema _).imp ?_
  rintro _ s₁ s' rfl s h hfree
  exact .declared rfl (.bound rfl hfree h)

theorem addType_struct {e : Option TypeExpr} (he : TypeExpr.inside? e = some body)
    (hinside : ∀ id, Performs ms (inside id) fun _ s s' => Makes ms id (.statements body) s s')
    (d : ScopeId) (name : Ident) (p : Position) :
    Performs ms (Compilation.addType d name p (Compilation.addStruct d (some name.text) p inside))
      fun _ s s' => Makes ms d (.statement (.type p name e)) s s' := by
  refine addType name p ((addStruct hinside d _ p).imp ?_)
  rintro _ s s' ⟨id, rfl, h⟩
  exact .opened (.struct p name he) h

theorem addProxy {o : Option Body}
    (hinside : ∀ id, Performs ms (inside id)
      fun _ s s' => Makes ms id (.statements (Body.inside o)) s s') (d : ScopeId) (p : Position) :
    Performs ms (addVariant d none p inside) fun _ s s' =>
      Makes ms d (.statement (.variant p none o)) s s' := by
  have hnone : Observes ms ((none : Option Ident).forM (Compilation.checkFree d) : Recorded Unit)
      fun _ _ => True := .pure fun _ => ⟨rfl, trivial⟩
  refine observes_bind hnone fun _ => observes_bind (anchor d none p) fun a =>
    observes_bind (takeSnapshot a.source) fun l => .get_bind fun c => .report_bind ?_
  refine (addScopeWith hinside d _).bind fun id => .pure ?_
  rintro s₁ s h - rfl hclimb -
  have hproxy : (a.kind (((s.layout? a.source).map Layout.snapshot).getD {})).isProxy = true := by
    have hpath := climb_path_isSome hclimb
    rw [Anchor.kind_isProxy]
    cases hp : a.path <;> simp_all
  exact .proxy hproxy (h _ (.arm none p hclimb))

theorem addVariant {o : Option Body}
    (hinside : ∀ id, Performs ms (inside id)
      fun _ s s' => Makes ms id (.statements (Body.inside o)) s s') (d : ScopeId) (name : Ident)
    (p : Position) :
    Performs ms (Compilation.addVariant d (some name) p inside) fun _ s s' =>
      Makes ms d (.statement (.variant p (some name) o)) s s' := by
  refine observes_bind (checkFree d name) fun _ =>
    observes_bind (anchor d (some name.text) p) fun a => observes_bind (takeSnapshot a.source)
    fun l => .get_bind fun c => .report_bind ?_
  refine (addScopeWith hinside d _).bind fun id => ?_
  cases hpath : a.path with
  | none =>
    refine .pure ?_
    rintro s₁ s - - - hclimb
    have hsome := climb_path_isSome hclimb
    rw [hpath] at hsome
    cases hsome
  | some path =>
    refine (modifySchema _).bind fun _ => (addBranch a.base path id p).imp ?_
    rintro _ s₂ s' ⟨layout, hl, hnew, rfl⟩ s₁ rfl s h - rfl hclimb hfree
    have hscope := h _ (.arm (some name.text) p hclimb)
    have hkind : (a.kind (((s.layout? a.source).map Layout.snapshot).getD {})).path?.isSome := by
      rw [Anchor.kind_path?, hpath]
      rfl
    have hmeaning := Makes.opened (.variant p name o hkind) hscope
    rw [Scope.item_of_path hkind] at hmeaning
    exact .variant hclimb hpath (.bound rfl hfree hmeaning) hl hnew

end

/-! ## Declarations -/

/-- What a recorded run resolves to, the plain one does as well. -/
theorem resolved {d : ScopeId} {e : TypeExpr} {t : TypeRef} {r r' : Recording}
    (hrun : (Compilation.resolve d e : Recorded TypeRef).run r = (.ok t, r'))
    (h : r.current ∈ ms) (h' : r'.current ∈ ms) : Resolved ms d e t := by
  have hplain := (Mirrors.closed (r := .same)).resolve d e r
  rw [hrun, TypeExpr.reprint_same] at hplain
  simp only [reprint_same] at hplain
  exact ⟨_, h, _, h', hplain⟩

/-- What is compiled makes what the judgment says. -/
theorem closed : Cases (m := Recorded)
    (fun d e x => e.NamesFields → Performs ms x fun t s s' => Makes ms d (.type e t) s s')
    (fun d a x => a.NamesFields → Argument.Performs ms d ⟨a, x⟩)
    (fun d as xs => TypeArg.AllNameFields as → ∀ x ∈ xs, x.Performs ms d)
    (fun d st x => st.NamesFields → Performs ms x fun _ s s' => Makes ms d (.statement st) s s')
    (fun d body x => Statement.AllNameFields body →
      Performs ms x fun _ s s' => Makes ms d (.statements body) s s') where
  applied hargs p n h := by
    have happlied := resolveName (hargs h.2) n p p
    rwa [map_arg_arguments] at happlied
  grouped he _ h := (he h.1).imp fun _ _ _ => .grouped
  literal _ _ _ _ := throw
  headed _ _ _ _ _ := throw
  inline hbody d p h := by
    refine (addStruct (fun id => hbody id h) d none p).imp ?_
    rintro _ s s' ⟨id, rfl, hscope⟩
    exact .inline hscope
  nameArg d n _ := by
    have hnone : ∀ a ∈ ([] : List (Argument Recorded)), a.Performs ms d := by simp
    exact (resolveName hnone n n.position n.position).imp fun _ _ _ h => ⟨_, rfl, h⟩
  literalArg _ _ _ := throw
  typeArg he h := (he h).imp fun _ _ _ h => ⟨_, rfl, h⟩
  noArgs _ _ := by simp
  moreArgs ha has h := List.forall_mem_cons.2 ⟨ha h.1, has h.2⟩
  space hbody d p name h := addSpace (fun id => hbody id (h.inside rfl)) d name p
  struct he hbody d p name h := addType_struct he (fun id => hbody id (h.inside he)) d name p
  synonym {_ e} he hx p name h := by
    cases e with
    | body _ => cases he
    | application q head params =>
      refine addType name p ((hx h).among.imp ?_)
      rintro t s s' ⟨hmakes, r, r', hrun, hr, hr'⟩
      exact .assigned (resolved hrun hr hr') hmakes
  variant hbody d p name h := by
    cases name with
    | none => exact addProxy (fun id => hbody id (h.inside rfl)) d p
    | some name => exact addVariant (fun id => hbody id (h.inside rfl)) d name p
  constraint d p left right _ := addConstraint d p left right
  fields he p names h := (he h.2).bind fun t => (fields _ t names).imp
    fun _ _ _ hadds _ hmakes => .fields h.1 hmakes hadds
  nil _ _ := .pure fun _ => .nil
  cons hst hsts h := (hst h.1).bind fun _ => (hsts h.2).imp
    fun _ _ _ hrest _ hmakes => .cons hmakes hrest

/-! ## Texts -/

theorem addText (source text : String) :
    Performs ms (addText source text) fun _ s s' =>
      Makes ms root (.statements (statementsOf [(source, text)])) s s' := by
  refine report_bind ?_
  split
  case h_1 body hbody =>
    have hfields := Body.ofText_namesFields hbody
    obtain ⟨p, statements⟩ := body
    unfold Body.NamesFields at hfields
    have hof : statementsOf [(source, text)] = statements := by
      simp [statementsOf, hbody, Except.toOption, Body.statements]
    rw [hof]
    exact closed.declareAll root statements hfields
  case h_2 => exact throw

theorem addTexts : ∀ sources : List (String × String),
    Performs ms (addTexts sources) fun _ s s' =>
      Makes ms root (.statements (statementsOf sources)) s s'
  | [] => .pure fun _ => .nil
  | (source, text) :: sources => by
    refine (addText source text).bind fun _ => (addTexts sources).imp ?_
    intro _ s₁ s' hrest s hfirst
    have hall := hfirst.append hrest
    rwa [← statementsOf_append] at hall

end Performs

/-- A compiled schema is made of the declarations of its sources. -/
theorem makes_of_ok {options : Options} {sources : List (String × String)} {s : Schema}
    (h : ofSources options sources = .ok s) :
    Makes (history options sources) root (.statements (statementsOf sources)) .empty s := by
  obtain ⟨r, hrun, rfl⟩ := recorded_of_ok h
  rw [history, hrun]
  exact (Performs.addTexts sources _ _ _ hrun).2 List.suffix_rfl

/-- What is recorded of a run describes the plain run too. -/
theorem performs_of_run {α : Type} {x : Recorded α} {y : Build α}
    {J : List Compilation → α → Schema → Schema → Prop} (hm : Mirrors .same id x y)
    (hx : ∀ ms, Performs ms x (J ms)) {c c' : Compilation} {a : α}
    (h : y.run c = (.ok a, c')) : ∃ ms, J ms a c.schema c'.schema := by
  have hplain := hm ⟨c, []⟩
  dsimp only at hplain
  rw [reprint_same, reprint_same, h] at hplain
  rcases hrun : x.run ⟨c, []⟩ with ⟨e | b, r⟩
  · rw [hrun] at hplain
    cases hplain
  · rw [hrun] at hplain
    cases hplain
    exact ⟨_, (hx _ _ _ _ hrun).2 List.suffix_rfl⟩

theorem makes_of_run {d : ScopeId} {sts : List Statement} {c c' : Compilation}
    (h : (declareAll d sts : Build Unit).run c = (.ok (), c'))
    (hfields : Statement.AllNameFields sts) :
    ∃ ms, Makes ms d (.statements sts) c.schema c'.schema := by
  have hm := (Mirrors.closed (r := .same)).declareAll d sts
  rw [reprintAll_same] at hm
  exact performs_of_run hm (fun _ => Performs.closed.declareAll d sts hfields) h

end Compilation

end PacketSchema
