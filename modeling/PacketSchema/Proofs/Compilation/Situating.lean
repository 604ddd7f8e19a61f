import PacketSchema.Proofs.Compilation.Confining
import PacketSchema.Proofs.Compilation.Mirroring

/-! Where compiled scopes stand. A new scope stands where its declaration does, and so do its
fields. What it takes over comes from scopes around it. -/

namespace PacketSchema.Compilation

open Schema

/-- The print keeps where a scope and its fields stand. -/
def At (r : Print) (s : Schema) (x : ScopeId) : Prop :=
  (s.reprint r).scope? x = s.scope? x

section

variable {r : Print} {s s' : Schema} {d x : ScopeId}

theorem At.of_scope?_eq (h : At r s x) (hs : s'.scope? x = s.scope? x) : At r s' x := by
  unfold At at h ⊢
  rw [scope?_reprint] at h ⊢
  rw [hs, h]

theorem At.layout (h : At r s x) {layout : Layout} (hl : s.layout? x = some layout) :
    layout.reprint r = layout := by
  have hmoved := s.layout?_reprint (r := r) x
  unfold Schema.layout? at hmoved hl
  rw [h, hl] at hmoved
  exact (Option.some.inj hmoved).symm

theorem At.modifyLayout (h : At r s x) (id : ScopeId) {g : Layout → Layout}
    (hg : ∀ l, (g l).reprint r = g (l.reprint r)) : At r (s.modifyLayout id g) x := by
  unfold At at h ⊢
  rw [s.reprint_modifyLayout id hg]
  unfold Schema.modifyLayout
  rw [scope?_modifyScope, scope?_modifyScope, h]

theorem At.bind (h : At r s x) (id : ScopeId) (name : String) (item : Item) :
    At r (s.bind id name item) x := by
  unfold At at h ⊢
  rw [s.reprint_bind id name item]
  unfold Schema.bind
  rw [namesOwner_reprint, scope?_modifyScope, scope?_modifyScope, h]

theorem At.addScope {scope : Scope} (hscope : scope.reprint r = scope) :
    At r (s.addScope scope) s.nextId := by
  unfold At
  rw [scope?_reprint, scope?_addScope_self, Option.map_some, hscope]

theorem at_of_not_has (h : ¬ s.Has x) : At r s x := by
  unfold At
  rw [scope?_reprint]
  cases hs : s.scope? x with
  | none => rfl
  | some scope => exact absurd (has_of_scope? hs) h

theorem around_source {path : Option Path} {a : Anchor}
    (h : climb none path (s.chain d) = some a) : s.Around d a.source := by
  obtain ⟨link, hlink, heq⟩ := Option.map_eq_some_iff.1 (climb_source h)
  exact List.mem_map.2 ⟨link, List.mem_of_find?_eq_some hlink, heq⟩

/-- The print keeps a new scope if it keeps its position and the scopes around it. -/
theorem Opens.reprint_eq {task : Task} {scope : Scope} (h : Opens s d task scope)
    (hp : scope.position.map (Position.reprint r) = scope.position)
    (haround : ∀ x, s.Around d x → At r s x) : scope.reprint r = scope := by
  have hempty : Layout.reprint r {} = {} := rfl
  cases h with
  | space _ _ => simp_all [Scope.reprint, ScopeKind.reprint, ScopeKind.mapLayout]
  | struct _ _ => simp_all [Scope.reprint, ScopeKind.reprint, ScopeKind.mapLayout]
  | inline _ => simp_all [Scope.reprint, ScopeKind.reprint, ScopeKind.mapLayout]
  | @arm name a p hclimb =>
    have hlayout : (((s.layout? a.source).map Layout.snapshot).getD {}).reprint r =
        ((s.layout? a.source).map Layout.snapshot).getD {} := by
      cases hl : s.layout? a.source with
      | none => rfl
      | some layout =>
        have hkept := (haround _ (around_source hclimb)).layout hl
        exact congrArg Layout.snapshot hkept
    simp_all [Scope.reprint, Anchor.reprint_kind]

/-- The print keeps the scopes around a scope and all new ones. -/
def Situated (r : Print) (d : ScopeId) (s s' : Schema) : Prop :=
  ∀ x, s.Around d x ∨ ¬ s.Has x → At r s' x

end

namespace Situated

variable {r : Print} {s s₁ s' : Schema} {d : ScopeId}

theorem modifyLayout (h : Situated r d s s) (id : ScopeId) {g : Layout → Layout}
    (hg : ∀ l, (g l).reprint r = g (l.reprint r)) : Situated r d s (s.modifyLayout id g) :=
  fun x hx => (h x hx).modifyLayout id hg

theorem of_scopes_eq (h : Situated r d s s) (hs : s'.scopes = s.scopes) : Situated r d s s' :=
  fun x hx => (h x hx).of_scope?_eq (congrArg (·[x.index]?) hs)

/-- What was around or new before the next step is so after it. -/
theorem step (hr : s.Rooted) (hd : s.Has d) (hc : Confined d s s₁) (h : Situated r d s s₁) :
    Situated r d s₁ s₁ := by
  intro x hx
  refine h x (hx.imp ?_ ?_)
  · exact (around_keeps hc.keeps hr hc.rooted hd).1
  · exact mt hc.keeps.has

theorem trans (h : Situated r d s s₁) (hc' : Confined d s₁ s') (h' : Situated r d s₁ s') :
    Situated r d s s' := by
  intro x hx
  by_cases haround : s₁.Around d x
  · exact h' x (.inl haround)
  · by_cases hhas : s₁.Has x
    · exact (h x hx).of_scope?_eq (hc'.outside hhas haround)
    · exact h' x (.inr hhas)

/-- In a new scope it is around what is compiled next. -/
theorem enter (hr : s.Rooted) (hd : s.Has d) (h : Situated r d s s) {scope : Scope}
    (hp : scope.parent = some d) (hscope : scope.reprint r = scope) :
    Situated r s.nextId (s.addScope scope) (s.addScope scope) := by
  rintro x (hx | hx)
  · have hr' := hr.addScope hd hp
    have hnew := scope?_addScope_self s scope
    obtain rfl | hx := (hr'.around_child hnew hp).1 hx
    · exact .addScope hscope
    · rw [around_keeps (keeps_addScope s scope) hr hr' hd] at hx
      have hhas : s.Has x := Nat.lt_of_le_of_lt (hr.around_le hd hx) hd
      exact (h x (.inl hx)).of_scope?_eq (scope?_addScope_of_has hhas scope)
  · exact at_of_not_has hx

theorem leave (hr : s.Rooted) (hd : s.Has d) {scope : Scope} (hp : scope.parent = some d)
    (h : Situated r s.nextId (s.addScope scope) s') : Situated r d s s' := by
  have hr' := hr.addScope hd hp
  have hnew := scope?_addScope_self s scope
  rintro x (hx | hx)
  · refine h x (.inl ((hr'.around_child hnew hp).2 (.inr ?_)))
    exact (around_keeps (keeps_addScope s scope) hr hr' hd).2 hx
  · by_cases hid : x = s.nextId
    · subst hid
      exact h _ (.inl ((hr'.around_child hnew hp).2 (.inl rfl)))
    · refine h x (.inr fun hhas => hx ?_)
      obtain ⟨found, hs⟩ := hhas.scope?
      rw [scope?_addScope, if_neg hid] at hs
      exact has_of_scope? hs

end Situated

/-- The print keeps what a job compiles. -/
def Job.Kept (r : Print) : Job → Prop
  | .scope new body _ =>
    new.position.map (Position.reprint r) = new.position ∧ reprintAll r body = body
  | .type e _ => e.reprint r = e
  | .length a => a.reprint r = a
  | .applied args _ => reprintArgs r args = args
  | .meaning st _ | .bound st _ | .statement st => st.reprint r = st
  | .statements sts => reprintAll r sts = sts

theorem Stands.kept {r : Print} {d : ScopeId} {st : Statement} {scope : Scope}
    {body : List Statement} (h : Stands d st scope body) (hst : st.reprint r = st)
    (id : ScopeId) : (Job.scope scope body id).Kept r := by
  cases h with
  | space p name body =>
    rw [Statement.reprint_space, Statement.space.injEq] at hst
    exact ⟨congrArg some hst.1, Body.inside_kept hst.2.2⟩
  | struct p name he =>
    rw [Statement.reprint_type, Statement.type.injEq] at hst
    exact ⟨congrArg some hst.1, TypeExpr.inside?_kept hst.2.2 he⟩
  | variant p name body hk =>
    rw [Statement.reprint_variant, Statement.variant.injEq] at hst
    exact ⟨congrArg some hst.1, Body.inside_kept hst.2.2⟩

theorem reprint_of_expr? {r : Print} {a : TypeArg} {e : TypeExpr}
    (he : a.expr? = some e) (ha : a.reprint r = a) : e.reprint r = e := by
  cases a with
  | name n =>
    cases he
    have hn : n.reprint r = n := TypeArg.name.inj ha
    have hp : n.position.reprint r = n.position := congrArg Name.position hn
    simp only [TypeExpr.reprint, TypeArg.reprint, reprintArgs, hn, hp]
  | value _ => cases he
  | type _ =>
    cases he
    simpa [TypeArg.reprint] using ha

theorem AddsFields.situated {r : Print} {d : ScopeId} {t : TypeRef} {names : List Ident}
    {s s' : Schema} (h : AddsFields d t names s s') (hr : s.Rooted) (hd : s.Has d)
    (hnames : names.map (Ident.reprint r) = names) (hs : Situated r d s s) :
    Situated r d s s' := by
  induction h with
  | nil => exact hs
  | @warn names s s' w h ih =>
    have hwarn : Confined d s (s.addWarning w) :=
      .of_scopes_eq hr rfl List.prefix_rfl (List.prefix_append _ _)
    have hs₁ : Situated r d s (s.addWarning w) := hs.of_scopes_eq rfl
    have hd₁ := hwarn.keeps.has hd
    exact hs₁.trans (h.confined hwarn.rooted hd₁)
      (ih hwarn.rooted hd₁ hnames (hs₁.step hr hd hwarn))
  | @cons name names s s' layout hl hnew h ih =>
    obtain ⟨hname, hrest⟩ := List.cons.inj hnames
    have hposition : name.position.reprint r = name.position := congrArg Ident.position hname
    have hfield : Confined d s _ :=
      .modifyLayout hr (hr.around_self hd) (·.addField name.text ⟨t, name.position⟩)
    have hs₁ : Situated r d s (s.modifyLayout d (·.addField name.text ⟨t, name.position⟩)) := by
      refine hs.modifyLayout d fun l => ?_
      have hinsert := l.fields.insert_map (Field.reprint r) name.text ⟨t, name.position⟩
      simp only [Field.reprint, hposition] at hinsert
      exact congrArg (fun fields => Layout.mk fields _ _ _) hinsert.symm
    have hd₁ := hfield.keeps.has hd
    exact hs₁.trans (h.confined hfield.rooted hd₁)
      (ih hfield.rooted hd₁ hrest (hs₁.step hr hd hfield))

theorem Makes.situated {r : Print} {ms : List Compilation} {d : ScopeId} {job : Job}
    {s s' : Schema} (h : Makes ms d job s s') (hr : s.Rooted) (hd : s.Has d) (hjob : job.Kept r)
    (hs : Situated r d s s) : Situated r d s s' := by
  induction h with
  | @scope d task scope body s s' hopens h ih =>
    have hscope := hopens.reprint_eq hjob.1 fun x hx => hs x (.inl hx)
    have hp := hopens.parent
    exact (ih (hr.addScope hd hp) (has_addScope s scope) hjob.2
      (hs.enter hr hd hp hscope)).leave hr hd hp
  | builtin _ _ => exact hs
  | @application d p n b args t s s' _ h ih =>
    simp only [Job.Kept, TypeExpr.reprint, TypeExpr.application.injEq] at hjob
    exact fun x hx => (ih hr hd hjob.2.2 hs x hx).of_scope?_eq rfl
  | named _ _ => exact hs
  | grouped _ ih =>
    simp only [Job.Kept, TypeExpr.reprint, TypeArg.reprint, TypeExpr.application.injEq,
      TypeArg.type.injEq] at hjob
    exact ih hr hd hjob.2.1 hs
  | inline _ ih =>
    simp only [Job.Kept, TypeExpr.reprint, Body.reprint, TypeExpr.body.injEq,
      Body.mk.injEq] at hjob
    exact ih hr hd ⟨congrArg some hjob.1, hjob.2⟩ hs
  | word _ => exact hs
  | counted he _ ih => exact ih hr hd (reprint_of_expr? he hjob) hs
  | plain _ _ => exact hs
  | measured _ _ _ ih =>
    simp only [Job.Kept, reprintArgs, List.cons.injEq] at hjob
    exact ih hr hd hjob.1 hs
  | array hl he h ihl ih =>
    simp only [Job.Kept, reprintArgs, List.cons.injEq] at hjob
    have hlength := hl.confined hr hd
    have hd₁ := hlength.keeps.has hd
    have hs₁ := ihl hr hd hjob.1 hs
    exact hs₁.trans (h.confined hlength.rooted hd₁)
      (ih hlength.rooted hd₁ (reprint_of_expr? he hjob.2.1) (hs₁.step hr hd hlength))
  | boolOptional he _ ih =>
    simp only [Job.Kept, reprintArgs, List.cons.injEq] at hjob
    exact ih hr hd (reprint_of_expr? he hjob.1) hs
  | opened hst _ ih => exact ih hr hd (hst.kept hjob _) hs
  | assigned _ _ ih =>
    simp only [Job.Kept, Statement.reprint, Statement.type.injEq, Option.some.injEq] at hjob
    exact ih hr hd hjob.2.2 hs
  | bound _ _ _ ih => exact fun x hx => (ih hr hd hjob hs x hx).bind _ _ _
  | declared _ _ ih => exact ih hr hd hjob hs
  | variant _ _ _ _ _ ih =>
    exact fun x hx => (ih hr hd hjob hs x hx).modifyLayout _ fun _ => rfl
  | @proxy d p kind body id s s' hk _ ih =>
    have hst : (Statement.variant p none body).reprint r = .variant p none body := hjob
    rw [Statement.reprint_variant, Statement.variant.injEq] at hst
    exact ih hr hd ⟨congrArg some hst.1, Body.inside_kept hst.2.2⟩ hs
  | constraint _ _ _ => exact hs.modifyLayout _ fun _ => rfl
  | fields _ h hadds ih =>
    simp only [Job.Kept, Statement.reprint, Statement.fields.injEq] at hjob
    have htype := h.confined hr hd
    have hd₁ := htype.keeps.has hd
    have hs₁ := ih hr hd hjob.2.2 hs
    exact hs₁.trans (hadds.confined htype.rooted hd₁)
      (hadds.situated htype.rooted hd₁ hjob.2.1 (hs₁.step hr hd htype))
  | nil => exact hs
  | cons h hrest ih ihrest =>
    simp only [Job.Kept, reprintAll, List.cons.injEq] at hjob
    have hfirst := h.confined hr hd
    have hd₁ := hfirst.keeps.has hd
    have hs₁ := ih hr hd hjob.1 hs
    exact hs₁.trans (hrest.confined hfirst.rooted hd₁)
      (ihrest hfirst.rooted hd₁ hjob.2 (hs₁.step hr hd hfirst))

end PacketSchema.Compilation
