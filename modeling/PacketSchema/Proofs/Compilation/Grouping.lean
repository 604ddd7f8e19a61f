import PacketSchema.Proofs.Compilation.Mirroring
import PacketSchema.Proofs.Declaration.Grouping
import PacketSchema.Proofs.Schema.GroupedUpdates

/-! Compiling with and without a proxy. In the proxy or behind it, the same declarations are refused
for the same reasons in both schemas, and where they are compiled, the schemas go on to differ by
the proxy only. Reports and warnings have no part in it. -/

namespace PacketSchema

/-- An error without the text of a type, in which structs without a name go by their numbers. -/
def SchemaError.unnumbered : SchemaError → SchemaError
  | constraintType p name value _ => constraintType p name value ""
  | e => e

namespace Compilation

open Schema Grouping

/-- Both results are as described, or both are errors of the same kind. -/
def Agree {α β : Type} (P : α → Compilation → β → Compilation → Prop) :
    Except SchemaError α × Compilation → Except SchemaError β × Compilation → Prop
  | (.ok a, c), (.ok b, c') => P a c b c'
  | (.error e, _), (.error e', _) => e'.unnumbered = e.unnumbered
  | _, _ => False

theorem Agree.imp {α β : Type} {P Q : α → Compilation → β → Compilation → Prop}
    {r : Except SchemaError α × Compilation} {r' : Except SchemaError β × Compilation}
    (h : Agree P r r') (hPQ : ∀ a c b c', P a c b c' → Q a c b c') : Agree Q r r' := by
  obtain ⟨e | a, c₁⟩ := r <;> obtain ⟨e' | b, c₁'⟩ := r'
  · exact h
  · cases h
  · cases h
  · exact hPQ _ _ _ _ h

/-- The second compilation has a proxy more in its schema. -/
structure Abreast (g : Grouping) (phase : Phase) (c c' : Compilation) : Prop where
  options : c'.options = c.options
  schema : Grouped g phase c.schema c'.schema

/-- From compilations that differ by a proxy to such compilations. -/
def Matches {α β : Type} (g : Grouping) (phase : Phase) (V : α → β → Prop) (x : Build α)
    (y : Build β) : Prop :=
  ∀ c c', Abreast g phase c c' →
    Agree (fun a c b c' => V a b ∧ Abreast g phase c c') (x.run c) (y.run c')

/-- A run that reports and warns about late fields at most. -/
def Quiet (x : Build Unit) : Prop :=
  ∀ c, ∃ c', x.run c = (.ok (), c') ∧ c'.options = c.options ∧
    c'.schema.scopes = c.schema.scopes ∧ c'.schema.types = c.schema.types ∧
    c'.schema.otherWarnings = c.schema.otherWarnings

theorem quiet_pure : Quiet (pure ()) := fun c => ⟨c, rfl, rfl, rfl, rfl, rfl⟩

theorem quiet_report (e : Event) : Quiet (report e) := fun _ => ⟨_, rfl, rfl, rfl, rfl, rfl⟩

theorem quiet_warnLate (d : ScopeId) (name : Ident) : Quiet (warnLate d name) := by
  refine fun c => ⟨_, rfl, rfl, rfl, rfl, ?_⟩
  simp [otherWarnings, addWarning, Finding.isLate]

/-- The same argument, which is resolved to the same type but for numbers. -/
structure Argument.Matches (g : Grouping) (phase : Phase) (a b : Argument Build) : Prop where
  arg : b.arg = a.arg
  resolve : Compilation.Matches g phase (fun t t' => t' = t.renumber g.shift) a.resolve b.resolve

theorem Argument.Matches.position_eq {g : Grouping} {phase : Phase} {a b : Argument Build}
    (h : a.Matches g phase b) : b.position = a.position :=
  congrArg TypeArg.position h.arg

namespace Matches

variable {α β γ δ : Type} {g : Grouping} {phase : Phase} {V : α → β → Prop} {W : γ → δ → Prop}

theorem pure {a : α} {b : β} (h : V a b) : Matches g phase V (pure a) (pure b) :=
  fun _ _ hc => ⟨h, hc⟩

theorem throw {e e' : SchemaError} (h : e'.unnumbered = e.unnumbered) :
    Matches g phase V (throw e) (throw e') :=
  fun _ _ _ => h

theorem bind {x : Build α} {y : Build β} {f : α → Build γ} {f' : β → Build δ}
    (hx : Matches g phase V x y) (hf : ∀ a b, V a b → Matches g phase W (f a) (f' b)) :
    Matches g phase W (x >>= f) (y >>= f') := by
  intro c c' hc
  have hagree := hx c c' hc
  rw [run_bind, run_bind]
  generalize x.run c = r at hagree
  generalize y.run c' = r' at hagree
  obtain ⟨_ | a, c₁⟩ := r <;> obtain ⟨_ | b, c₁'⟩ := r'
  · exact hagree
  · cases hagree
  · cases hagree
  · exact hf a b hagree.1 c₁ c₁' hagree.2

theorem get_bind {f : Compilation → Build γ} {f' : Compilation → Build δ}
    (hf : ∀ c c', Abreast g phase c c' → Matches g phase W (f c) (f' c')) :
    Matches g phase W (get >>= f) (get >>= f') :=
  fun c c' hc => hf c c' hc c c' hc

theorem quiet {x y : Build Unit} (hx : Quiet x) (hy : Quiet y) : Matches g phase Eq x y := by
  intro c c' hc
  obtain ⟨c₁, hrun, hoptions, hscopes, htypes, hwarnings⟩ := hx c
  obtain ⟨c₁', hrun', hoptions', hscopes', htypes', hwarnings'⟩ := hy c'
  rw [hrun, hrun']
  refine ⟨rfl, ?_, hc.schema.of_scopes_eq hscopes hscopes' ?_ ?_⟩
  · rw [hoptions', hc.options, hoptions]
  · rw [htypes', hc.schema.types, htypes]
  · rw [hwarnings', hc.schema.warnings, hwarnings]

theorem modifySchema {f f' : Schema → Schema}
    (h : ∀ s s', Grouped g phase s s' → Grouped g phase (f s) (f' s')) :
    Matches g phase Eq (modifySchema f) (modifySchema f') :=
  fun _ _ hc => ⟨rfl, hc.options, h _ _ hc.schema⟩

theorem report (e e' : Event) : Matches g phase Eq (report e) (report e') :=
  quiet (quiet_report e) (quiet_report e')

theorem refuseIf {p q : Prop} [Decidable p] [Decidable q] (h : p ↔ q) {e e' : SchemaError}
    (he : e'.unnumbered = e.unnumbered) : Matches g phase Eq (refuseIf p e) (refuseIf q e') := by
  unfold Compilation.refuseIf
  by_cases hp : p
  · rw [if_pos hp, if_pos (h.1 hp)]
    exact throw he
  · rw [if_neg hp, if_neg (mt h.2 hp)]
    exact pure rfl

theorem forM {names : List Ident} {f f' : Ident → Build Unit}
    (h : ∀ name, Matches g phase Eq (f name) (f' name)) :
    Matches g phase Eq (names.forM f) (names.forM f') := by
  induction names with
  | nil => exact pure rfl
  | cons name names ih => exact (h name).bind fun _ _ _ => ih

theorem forOption {name : Option Ident} {f f' : Ident → Build Unit}
    (h : ∀ name, Matches g phase Eq (f name) (f' name)) :
    Matches g phase Eq (name.forM f) (name.forM f') := by
  cases name with
  | none => exact pure rfl
  | some name => exact h name

/-! ## Steps -/

section

variable {x x' : ScopeId} (hx : g.Pairs phase x x')

include hx

theorem bindName (name : String) (item : Item) :
    Matches g phase Eq (Compilation.bind x name item)
      (Compilation.bind x' name (item.renumber g.shift)) :=
  modifySchema fun _ _ hs => hs.bind hx name item

theorem checkFree (name : Ident) :
    Matches g phase Eq (checkFree x name) (checkFree x' name) := by
  refine get_bind fun c c' hc => refuseIf ?_ rfl
  rw [hc.schema.getLocal? hx, Option.isSome_map]

theorem anchor (name : Option String) (p : Position) :
    Matches g phase (g.Anchors (phase = .within)) (anchor x name p) (anchor x' name p) := by
  refine get_bind fun c c' hc => ?_
  have hclimb := hc.schema.climb hx (name.map ([·]))
  generalize climb none (name.map ([·])) (c.schema.chain x) = a at hclimb
  generalize climb none (name.map ([·])) (c'.schema.chain x') = a' at hclimb
  cases hclimb with
  | none => exact throw rfl
  | some ha => exact pure ha

end

theorem takeSnapshot {x x' : ScopeId} (hx : g.Sources (phase = .within) x x') :
    Matches g phase (fun l l' => l' = l.renumber g.shift) (takeSnapshot x) (takeSnapshot x') := by
  refine bind (V := Eq) (fun c c' hc => ⟨rfl, hc.options, hc.schema⟩) fun _ _ _ =>
    get_bind fun c c' hc => pure ?_
  exact hc.schema.snapshot hx

theorem intern (t : ParamType) :
    Matches g phase (fun t t' => t' = t.renumber g.shift) (intern t)
      (intern (t.renumber g.shift)) := by
  refine get_bind fun c c' hc => ?_
  have hintern := TypeCache.intern_renumber (shift_injective (g := g)) c.schema.types t
  rw [← hc.schema.types] at hintern
  rw [hintern]
  refine (report _ _).bind fun _ _ _ => bind (modifySchema fun s s' hs => ?_) fun _ _ _ => pure rfl
  exact hs.of_scopes_eq rfl rfl rfl hs.warnings

theorem addBranch (base : ScopeId) (path : Path) (id : ScopeId) (p : Position) :
    Matches g phase Eq (addBranch base path id p)
      (addBranch (g.shift base) path (g.shift id) p) := by
  refine get_bind fun c c' hc => ?_
  rw [hc.schema.layout? base]
  cases c.schema.layout? base with
  | none => exact throw rfl
  | some layout =>
    refine (refuseIf ?_ rfl).bind fun _ _ _ => modifySchema fun s s' hs => hs.modifyLayout base
      (fun l => (l.renumber_addBranch path id).symm) fun _ _ _ => rfl
    exact iff_of_eq (congrArg (· = true) (layout.branches.contains_map _ path).symm)

section

variable {x : ScopeId} (hx : g.Admits phase x)

include hx

/-- While the proxy is open, nothing but variants comes to the scope around it. -/
theorem modifyLayout {f f' : Layout → Layout}
    (hf : ∀ l, f' (l.renumber g.shift) = (f l).renumber g.shift) :
    Matches g phase Eq (Compilation.modifySchema (·.modifyLayout x f))
      (Compilation.modifySchema (·.modifyLayout (g.shift x) f')) := by
  refine modifySchema fun s s' hs => hs.modifyLayout x hf fun hwithin hdest => ?_
  subst hdest
  exact absurd (hx.2 hwithin) not_inside_dest

theorem addField (t : TypeRef) (name : Ident) :
    Matches g phase Eq (addField x t name)
      (addField (g.shift x) (t.renumber g.shift) name) := by
  refine get_bind fun c c' hc => ?_
  rw [hc.schema.layout? x]
  cases c.schema.layout? x with
  | none => exact throw rfl
  | some layout =>
    have hquiet : ∀ (p : Prop) [Decidable p] (d : ScopeId),
        Quiet (if p then warnLate d name else Pure.pure ()) := by
      intro p _ d
      split
      · exact quiet_warnLate d name
      · exact quiet_pure
    refine (refuseIf ?_ rfl).bind fun _ _ _ => (modifyLayout hx fun l => ?_).bind fun _ _ _ =>
      (report _ _).bind fun _ _ _ => quiet (hquiet _ _) (hquiet _ _)
    · exact iff_of_eq (congrArg (· = true) (layout.fields.contains_map _ name.text).symm)
    · exact (l.renumber_addField name.text ⟨t, name.position⟩).symm

end

theorem checkFits (layout : Layout) (p : Position) (name : String) (value : Literal) :
    Matches g phase Eq (checkFits layout p name value)
      (checkFits (layout.renumber g.shift) p name value) := by
  refine get_bind fun c c' hc => ?_
  rw [show (layout.renumber g.shift).fields.find? name = _ from layout.fields.find?_map _ name]
  cases layout.fields.find? name with
  | none => exact pure rfl
  | some field =>
    refine refuseIf ?_ rfl
    rw [hc.options, show (field.renumber g.shift).type = field.type.renumber g.shift from rfl,
      hc.schema.literalFits]

theorem checkConsistent (layout : Layout) (p : Position) (name : String) (value : Literal) :
    Matches g phase Eq (checkConsistent layout p name value)
      (checkConsistent (layout.renumber g.shift) p name value) := by
  unfold Compilation.checkConsistent
  dsimp only [Layout.renumber]
  split
  · exact pure rfl
  · exact refuseIf .rfl rfl

theorem constrainedName (o : Operand) :
    Matches g phase Eq (constrainedName o) (constrainedName o) := by
  unfold Compilation.constrainedName
  split
  · exact pure rfl
  · exact throw rfl

theorem constrainingLiteral (o : Operand) :
    Matches g phase Eq (constrainingLiteral o) (constrainingLiteral o) := by
  unfold Compilation.constrainingLiteral
  split
  · exact pure rfl
  · exact throw rfl

theorem addConstraint {x : ScopeId} (hx : g.Admits phase x) (p : Position)
    (left right : Operand) :
    Matches g phase Eq (addConstraint x p left right) (addConstraint (g.shift x) p left right) := by
  refine get_bind fun c c' hc => ?_
  rw [hc.schema.layout? x]
  cases c.schema.layout? x with
  | none => exact throw rfl
  | some layout =>
    refine (constrainedName left).bind fun name _ hname =>
      (constrainingLiteral right).bind fun value _ hvalue => ?_
    subst hname hvalue
    exact (checkFits _ _ _ _).bind fun _ _ _ => (checkConsistent _ _ _ _).bind fun _ _ _ =>
      (report _ _).bind fun _ _ _ => modifyLayout hx fun l =>
        (l.renumber_addConstraint name value).symm

/-! ## Arguments -/

section

variable {a b : Argument Build} (h : a.Matches g phase b)

include h

theorem prefixedLength (owner : Builtin) :
    Matches g phase Eq (a.prefixedLength owner) (b.prefixedLength owner) := by
  refine h.resolve.bind fun t _ ht => ?_
  subst ht
  rw [h.position_eq]
  cases t with
  | builtin b =>
    simp only [TypeRef.renumber]
    split
    · exact pure rfl
    · exact throw rfl
  | param _ => exact throw rfl
  | struct _ => exact throw rfl

theorem length (owner : Builtin) :
    Matches g phase Eq (a.length owner) (b.length owner) := by
  have hprefixed := prefixedLength h owner
  unfold Argument.length
  rw [h.arg]
  split
  · split
    · exact pure rfl
    · exact throw rfl
  · exact throw rfl
  · split
    · split
      · exact pure rfl
      · exact throw rfl
    · exact hprefixed
  · exact hprefixed

theorem word (owner : Builtin) : Matches g phase Eq (a.word owner) (b.word owner) := by
  unfold Argument.word
  rw [h.arg, h.position_eq]
  split
  · exact pure rfl
  · exact pure rfl
  · exact throw rfl

theorem encoding {α : Type} (owner : Builtin) (ofName? : String → Option α) :
    Matches g phase Eq (a.encoding owner ofName?) (b.encoding owner ofName?) := by
  refine (word h owner).bind fun w _ hw => ?_
  subst hw
  rw [h.position_eq]
  split
  · exact pure rfl
  · exact throw rfl

end

section

variable {as bs : List (Argument Build)} (h : List.Forall₂ (Argument.Matches g phase) as bs)

include h

/-- A builtin takes arguments or does not take them on both sides. -/
theorem paramType? (b : Builtin) :
    Option.Rel (Matches g phase fun t t' => t' = t.renumber g.shift) (paramType? b as)
      (paramType? b bs) := by
  unfold Compilation.paramType?
  cases h with
  | nil => cases b <;> first | exact .some (pure rfl) | exact .none
  | cons h₁ h =>
    cases h with
    | nil =>
      cases b
      case string => exact .some ((length h₁ _).bind fun _ _ hl => pure (hl ▸ rfl))
      case bytes => exact .some ((length h₁ _).bind fun _ _ hl => pure (hl ▸ rfl))
      case uuid => exact .some ((encoding h₁ _ _).bind fun _ _ he => pure (he ▸ rfl))
      case boolOptional => exact .some (h₁.resolve.bind fun _ _ ht => pure (ht ▸ rfl))
      all_goals exact .none
    | cons h₂ h =>
      cases h with
      | nil =>
        cases b
        case string =>
          exact .some ((length h₁ _).bind fun _ _ hl => (encoding h₂ _ _).bind fun _ _ he =>
            pure (hl ▸ he ▸ rfl))
        case array =>
          exact .some ((length h₁ _).bind fun _ _ hl => h₂.resolve.bind fun _ _ ht =>
            pure (hl ▸ ht ▸ rfl))
        all_goals exact .none
      | cons _ _ => exact .none

theorem apply (b : Builtin) (p : Position) :
    Matches g phase (fun t t' => t' = t.renumber g.shift) (apply b p as) (apply b p bs) := by
  have hempty : as.isEmpty = bs.isEmpty := by cases h <;> rfl
  have hparam := paramType? h b
  unfold Compilation.apply
  rw [hempty]
  generalize Compilation.paramType? b as = x at hparam
  generalize Compilation.paramType? b bs = y at hparam
  cases hparam with
  | some ht =>
    refine ht.bind fun t _ heq => ?_
    subst heq
    exact intern t
  | none =>
    dsimp only
    split
    · exact throw rfl
    · exact pure rfl

theorem resolveName {x x' : ScopeId} (hx : g.Pairs phase x x') (name : Name) (p : Position) :
    Matches g phase (fun t t' => t' = t.renumber g.shift) (resolveName x name p as)
      (resolveName x' name p bs) := by
  have hempty : as.isEmpty = bs.isEmpty := by cases h <;> rfl
  unfold Compilation.resolveName
  split
  · exact apply h _ _
  · refine get_bind fun c c' hc => ?_
    rw [hc.schema.lookup? hx, hempty]
    cases c.schema.lookup? x name.path with
    | none => exact throw rfl
    | some item =>
      simp only [Option.map_some, Option.bind_some, Item.type?_renumber]
      cases item.type? with
      | none => exact throw rfl
      | some t =>
        dsimp only [Option.map_some]
        split
        · exact pure rfl
        · exact throw rfl

end

/-! ## Declarations -/

section

variable {inside inside' : ScopeId → Build Unit}
  (h : ∀ x, g.Admits phase x → Matches g phase Eq (inside x) (inside' (g.shift x)))
  {x x' : ScopeId} (hx : g.Pairs phase x x')

include h hx

theorem addScopeWith (name : Option String) (p : Option Position) (kind : ScopeKind) :
    Matches g phase (fun id id' => id' = g.shift id)
      (addScopeWith ⟨name, some x, p, kind, {}⟩ inside)
      (addScopeWith ⟨name, some x', p, kind.renumber g.shift, {}⟩ inside') := by
  have hadd : Matches g phase (fun id id' => id' = g.shift id ∧ g.Admits phase id)
      (Compilation.addScope ⟨name, some x, p, kind, {}⟩)
      (Compilation.addScope ⟨name, some x', p, kind.renumber g.shift, {}⟩) :=
    fun c c' hc => ⟨⟨hc.schema.nextId, hc.schema.admits_nextId⟩, hc.options,
      hc.schema.addScope hx name p kind⟩
  refine hadd.bind fun id _ ⟨hid, hadmits⟩ => ?_
  subst hid
  exact (h id hadmits).bind fun _ _ _ => pure rfl

theorem addStruct (name : Option String) (p : Position) :
    Matches g phase (fun t t' => t' = t.renumber g.shift) (addStruct x name p inside)
      (addStruct x' name p inside') :=
  (addScopeWith h hx name (some p) (.struct {})).bind fun _ _ hid => pure (hid ▸ rfl)

theorem addSpace (name : Ident) (p : Position) :
    Matches g phase Eq (addSpace x name p inside) (addSpace x' name p inside') := by
  refine (checkFree hx name).bind fun _ _ _ => (report _ _).bind fun _ _ _ =>
    (addScopeWith h hx _ (some p) .space).bind fun id _ hid => ?_
  subst hid
  exact bindName hx name.text (.space id)

theorem addVariant (name : Option Ident) (p : Position) :
    Matches g phase Eq (addVariant x name p inside) (addVariant x' name p inside') := by
  unfold Compilation.addVariant
  refine (forOption (checkFree hx)).bind fun _ _ _ => (anchor hx _ p).bind fun a a' ha =>
    (takeSnapshot ha.source).bind fun layout _ hlayout => get_bind fun c c' hc =>
    (report _ _).bind fun _ _ _ => ?_
  have hkind : a'.kind (layout.renumber g.shift) = (a.kind layout).renumber g.shift := by
    unfold Anchor.kind
    rw [ha.path, ha.base]
    cases a.path <;> rfl
  subst hlayout
  rw [hkind, ha.path, ha.base]
  refine (addScopeWith h hx _ (some p) (a.kind layout)).bind fun id _ hid => ?_
  subst hid
  split
  · exact (bindName hx _ (.type (.struct id))).bind fun _ _ _ => addBranch _ _ _ _
  · exact pure rfl

end

theorem addType {x x' : ScopeId} (hx : g.Pairs phase x x') {r r' : Build TypeRef}
    (h : Matches g phase (fun t t' => t' = t.renumber g.shift) r r') (name : Ident)
    (p : Position) : Matches g phase Eq (addType x name p r) (addType x' name p r') := by
  refine (checkFree hx name).bind fun _ _ _ => (report _ _).bind fun _ _ _ =>
    h.bind fun t _ ht => ?_
  subst ht
  exact bindName hx name.text (.type t)

/-- Where declarations are compiled alike, so they are in a scope that is new on both sides. -/
theorem inside {body : List Statement}
    (h : ∀ x x', g.Pairs phase x x' →
      (∀ st ∈ body, st.isPart = true → g.Admits phase x ∧ x' = g.shift x) →
        Matches g phase Eq (declareAll x body) (declareAll x' body)) (x : ScopeId)
    (hx : g.Admits phase x) :
    Matches g phase Eq (declareAll x body) (declareAll (g.shift x) body) :=
  h x (g.shift x) (.inl ⟨hx, rfl⟩) fun _ _ _ => ⟨hx, rfl⟩

/-- The same declarations compile alike. -/
theorem closed : Cases (m := Build)
    (fun x e t => ∀ x', g.Pairs phase x x' →
      Matches g phase (fun t t' => t' = t.renumber g.shift) t (resolve x' e))
    (fun x a t => ∀ x', g.Pairs phase x x' →
      Matches g phase (fun t t' => t' = t.renumber g.shift) t (resolveArg x' a))
    (fun x as ts => ∀ x', g.Pairs phase x x' →
      List.Forall₂ (Argument.Matches g phase) ts (arguments x' as))
    (fun x st y => ∀ x', g.Pairs phase x x' →
      (st.isPart = true → g.Admits phase x ∧ x' = g.shift x) →
        Matches g phase Eq y (declare x' st))
    (fun x body y => ∀ x', g.Pairs phase x x' →
      (∀ st ∈ body, st.isPart = true → g.Admits phase x ∧ x' = g.shift x) →
        Matches g phase Eq y (declareAll x' body)) where
  applied hargs _ _ x' hx := by
    rw [resolve_name]
    exact resolveName (hargs x' hx) hx _ _
  grouped he _ x' hx := by
    rw [resolve_grouped]
    exact he x' hx
  literal _ _ _ _ _ := by
    rw [resolve_literal]
    exact throw rfl
  headed hhead hparams _ _ _ _ := by
    rw [resolve_of_params _ _ hhead hparams]
    exact throw rfl
  inline hbody _ _ _ hx := by
    rw [resolve_body]
    exact addStruct (inside hbody) hx _ _
  nameArg _ _ _ hx := by
    rw [resolveArg_name]
    exact resolveName .nil hx _ _
  literalArg _ _ _ _ := by
    rw [resolveArg_literal]
    exact throw rfl
  typeArg he x' hx := by
    rw [resolveArg_type]
    exact he x' hx
  noArgs _ _ _ := by
    rw [arguments_nil]
    exact .nil
  moreArgs ha has x' hx := by
    rw [arguments_cons]
    exact .cons ⟨rfl, ha x' hx⟩ (has x' hx)
  space hbody _ _ _ _ hx _ := by
    rw [declare_space]
    exact addSpace (inside hbody) hx _ _
  struct he hbody _ _ _ _ hx _ := by
    rw [declare_struct _ _ _ he]
    exact addType hx (addStruct (inside hbody) hx _ _) _ _
  synonym he hresolve _ _ x' hx _ := by
    rw [declare_synonym _ _ _ he]
    exact addType hx (hresolve x' hx) _ _
  variant hbody _ _ _ _ hx _ := by
    rw [declare_variant]
    exact addVariant (inside hbody) hx _ _
  constraint _ _ _ _ _ _ hpart := by
    obtain ⟨hadmits, rfl⟩ := hpart rfl
    rw [declare_constraint]
    exact addConstraint hadmits _ _ _
  fields he _ _ x' hx hpart := by
    obtain ⟨hadmits, rfl⟩ := hpart rfl
    rw [declare_fields]
    refine (he _ hx).bind fun t _ ht => ?_
    subst ht
    exact forM (addField hadmits t)
  nil _ _ _ _ := by
    rw [declareAll_nil]
    exact pure rfl
  cons hst hsts x' hx hparts := by
    rw [declareAll_cons]
    exact (hst x' hx (hparts _ List.mem_cons_self)).bind fun _ _ _ =>
      hsts x' hx fun st hmem => hparts st (.tail _ hmem)

end Matches

end Compilation

end PacketSchema
