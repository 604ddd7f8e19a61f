import PacketSchema.Proofs.Compilation.Completing

/-! What a further source cannot reach. A job changes nothing but the scopes around the one that it
stands in, and there it adds to what they have. Around the root there is only the root itself, which
can do nothing but bind names. -/

namespace PacketSchema

/-- A namespace is what it was but for its names. -/
theorem Scope.eq_of_space {scope scope' : Scope} (h : scope'.shape = scope.shape)
    (hk : scope.kind = .space) : scope' = { scope with names := scope'.names } := by
  obtain ⟨name, parent, position, kind, names⟩ := scope
  obtain ⟨name', parent', position', kind', names'⟩ := scope'
  simp only [shape, mk.injEq] at h
  obtain ⟨rfl, rfl, rfl, hkind, -⟩ := h
  cases hk
  cases kind' <;> cases hkind
  rfl

namespace Compilation

open Schema

/-- Scopes that do not stand around a scope stay as they are. Names, types and warnings come behind
those that there were before. -/
structure Confined (d : ScopeId) (s s' : Schema) : Prop where
  keeps : s.Keeps s'
  rooted : s'.Rooted
  outside : ∀ {x}, s.Has x → ¬ s.Around d x → s'.scope? x = s.scope? x
  names : ∀ {x scope scope'}, s.scope? x = some scope → s'.scope? x = some scope' →
    scope.names.entries <+: scope'.names.entries
  types : s.types.types <+: s'.types.types
  warnings : s.warnings <+: s'.warnings

namespace Confined

variable {d : ScopeId} {s s₁ s' : Schema}

theorem of_scopes_eq (hr : s.Rooted) (h : s'.scopes = s.scopes)
    (htypes : s.types.types <+: s'.types.types) (hwarnings : s.warnings <+: s'.warnings) :
    Confined d s s' where
  keeps := (SameShapes.of_scopes_eq h).keeps
  rooted := (SameShapes.of_scopes_eq h).rooted hr
  outside := fun _ _ => congrArg (·[_]?) h
  names := by
    intro x scope scope' hs hs'
    rw [show s'.scope? x = s.scope? x from congrArg (·[_]?) h, hs] at hs'
    cases hs'
    exact List.prefix_rfl
  types := htypes
  warnings := hwarnings

theorem refl (hr : s.Rooted) : Confined d s s :=
  of_scopes_eq hr rfl List.prefix_rfl List.prefix_rfl

theorem trans (hr : s.Rooted) (hd : s.Has d) (h : Confined d s s₁) (h' : Confined d s₁ s') :
    Confined d s s' where
  keeps := h.keeps.trans h'.keeps
  rooted := h'.rooted
  outside := by
    intro x hx haround
    have hout := mt (around_keeps h.keeps hr h.rooted hd).1 haround
    rw [h'.outside (h.keeps.has hx) hout, h.outside hx haround]
  names := by
    intro x scope scope' hs hs'
    obtain ⟨scope₁, hs₁, -⟩ := h.keeps x scope hs
    exact (h.names hs hs₁).trans (h'.names hs₁ hs')
  types := h.types.trans h'.types
  warnings := h.warnings.trans h'.warnings

theorem modifyLayout (hr : s.Rooted) {id : ScopeId} (hid : s.Around d id) (f : Layout → Layout) :
    Confined d s (s.modifyLayout id f) where
  keeps := (SameShapes.modifyLayout _ _ _).keeps
  rooted := (SameShapes.modifyLayout _ _ _).rooted hr
  outside := by
    intro x _ haround
    refine (scope?_modifyScope s id x _).trans (if_neg ?_)
    rintro rfl
    exact haround hid
  names := by
    intro x scope scope' hs hs'
    have hnames := names_modifyLayout s id x f
    rw [hs, hs'] at hnames
    rw [Option.some.inj hnames]
  types := List.prefix_rfl
  warnings := List.prefix_rfl

theorem bind (hr : s.Rooted) (hd : s.Has d) {name : String} (hfree : s.getLocal? d name = none)
    (item : Item) : Confined d s (s.bind d name item) where
  keeps := (SameShapes.bind _ _ _ _).keeps
  rooted := (SameShapes.bind _ _ _ _).rooted hr
  outside := by
    intro x _ haround
    refine (scope?_modifyScope s _ x _).trans (if_neg ?_)
    rintro rfl
    exact haround (around_namesOwner hr hd)
  names := by
    intro x scope scope' hs hs'
    obtain ⟨found, hfound, hentries⟩ := entries_of_bind hfree hs'
    cases hs.symm.trans hfound
    rw [hentries]
    exact List.prefix_append _ _
  types := List.prefix_rfl
  warnings := List.prefix_rfl

/-- Of the scopes that there were before, only those around the new one are also around it. -/
theorem leave (hr : s.Rooted) (hd : s.Has d) {scope : Scope} (hp : scope.parent = some d)
    (h : Confined s.nextId (s.addScope scope) s') : Confined d s s' where
  keeps := (keeps_addScope s scope).trans h.keeps
  rooted := h.rooted
  outside := by
    intro x hx haround
    have hk := keeps_addScope s scope
    have hr₁ := hr.addScope hd hp
    have hnew := scope?_addScope_self s scope
    have hout : ¬ (s.addScope scope).Around s.nextId x := by
      rw [hr₁.around_child hnew hp, around_keeps hk hr hr₁ hd]
      rintro (rfl | hinside)
      · exact Nat.lt_irrefl _ hx
      · exact haround hinside
    rw [h.outside (hk.has hx) hout, scope?_addScope_of_has hx]
  names := by
    intro x found found' hs hs'
    exact h.names ((scope?_addScope_of_has (has_of_scope? hs) scope).trans hs) hs'
  types := h.types
  warnings := h.warnings

end Confined

theorem AddsFields.confined {d : ScopeId} {t : TypeRef} {names : List Ident} {s s' : Schema}
    (h : AddsFields d t names s s') (hr : s.Rooted) (hd : s.Has d) : Confined d s s' := by
  induction h with
  | nil => exact .refl hr
  | @warn names s s' f h ih =>
    have hwarn : Confined d s (s.addWarning f) :=
      .of_scopes_eq hr rfl List.prefix_rfl (List.prefix_append _ _)
    exact hwarn.trans hr hd (ih hwarn.rooted (hwarn.keeps.has hd))
  | @cons name names s s' layout hl hnew h ih =>
    have hfield : Confined d s _ :=
      .modifyLayout hr (hr.around_self hd) (·.addField name.text ⟨t, name.position⟩)
    exact hfield.trans hr hd (ih hfield.rooted (hfield.keeps.has hd))

theorem Makes.confined {ms : List Compilation} {d : ScopeId} {job : Job} {s s' : Schema}
    (h : Makes ms d job s s') (hr : s.Rooted) (hd : s.Has d) : Confined d s s' := by
  induction h with
  | @scope d task scope body s s' hopens h ih =>
    exact (ih (hr.addScope hd hopens.parent) (has_addScope s scope)).leave hr hd hopens.parent
  | builtin _ _ => exact .refl hr
  | @application d p n b args t s s' _ h ih =>
    have happlied := ih hr hd
    have hintern : Confined d s' (s'.intern t) :=
      .of_scopes_eq happlied.rooted rfl (TypeCache.types_prefix_intern _ t) List.prefix_rfl
    exact happlied.trans hr hd hintern
  | named _ _ => exact .refl hr
  | grouped _ ih => exact ih hr hd
  | inline _ ih => exact ih hr hd
  | word _ => exact .refl hr
  | counted _ _ ih => exact ih hr hd
  | plain _ _ => exact .refl hr
  | measured _ _ _ ih => exact ih hr hd
  | array _ _ _ ihl ih =>
    have hlength := ihl hr hd
    exact hlength.trans hr hd (ih hlength.rooted (hlength.keeps.has hd))
  | boolOptional _ _ ih => exact ih hr hd
  | opened _ _ ih => exact ih hr hd
  | assigned _ _ ih => exact ih hr hd
  | @bound d st name item s s' _ hfree h ih =>
    have hmeaning := ih hr hd
    have hbind := Confined.bind hmeaning.rooted (hmeaning.keeps.has hd) (h.free hr hd hfree) item
    exact hmeaning.trans hr hd hbind
  | declared _ _ ih => exact ih hr hd
  | @variant d p name body id a path layout s s' hclimb _ _ _ _ ih =>
    have hbound := ih hr hd
    have hbase := (around_keeps hbound.keeps hr hbound.rooted hd).2 (around_base hclimb)
    exact hbound.trans hr hd (.modifyLayout hbound.rooted hbase _)
  | proxy _ _ ih => exact ih hr hd
  | constraint _ _ _ => exact .modifyLayout hr (hr.around_self hd) _
  | fields _ _ hadds ih =>
    have htype := ih hr hd
    exact htype.trans hr hd (hadds.confined htype.rooted (htype.keeps.has hd))
  | nil => exact .refl hr
  | cons _ _ ih ihrest =>
    have hst := ih hr hd
    exact hst.trans hr hd (ihrest hst.rooted (hst.keeps.has hd))

/-- What further sources make of a compiled schema. -/
theorem makes_of_append {options : Options} {sources later : List (String × String)}
    {s s' : Schema} (h : ofSources options sources = .ok s)
    (h' : ofSources options (sources ++ later) = .ok s') :
    ∃ ms, Makes ms root (.statements (statementsOf later)) s s' := by
  obtain ⟨r, hrun, rfl⟩ := recorded_of_ok h
  obtain ⟨r', hall, rfl⟩ := recorded_of_ok h'
  rw [recorded_append hrun later] at hall
  exact ⟨_, (Performs.addTexts later _ _ _ hall).2 List.suffix_rfl⟩

/-- Sources that are compiled into a schema leave every scope that there was as it is, except that
the root binds more names behind those that it had, and types and warnings come behind those that
there were. -/
theorem ofSources_append_frame {options : Options} {sources later : List (String × String)}
    {s s' : Schema} (h : ofSources options sources = .ok s)
    (h' : ofSources options (sources ++ later) = .ok s') :
    (∀ id scope, s.scope? id = some scope → id ≠ root → s'.scope? id = some scope) ∧
    (∃ scope more, s.scope? root = some scope ∧
      s'.scope? root = some { scope with names := ⟨scope.names.entries ++ more⟩ }) ∧
    s.types.types <+: s'.types.types ∧ s.warnings <+: s'.warnings := by
  obtain ⟨hr, hroot, -⟩ := linksSettled_of_ok h
  obtain ⟨ms, hmakes⟩ := makes_of_append h h'
  have hconfined := hmakes.confined hr hroot
  refine ⟨fun id scope hs hid => ?_, ?_, hconfined.types, hconfined.warnings⟩
  · have hout := mt (hr.around_root hroot) hid
    rw [hconfined.outside (has_of_scope? hs) hout, hs]
  · obtain ⟨scope, hs⟩ := hroot.scope?
    obtain ⟨scope', hs', hshape⟩ := hconfined.keeps root scope hs
    obtain ⟨more, hmore⟩ := hconfined.names hs hs'
    have heq := Scope.eq_of_space hshape (hr.root hs (hr.parent_root hs)).2.2
    refine ⟨scope, more, hs, ?_⟩
    rw [hs', heq, hmore]

/-- The second text has a scope of its own with a variant and a late field, and uses the first. -/
theorem ofSources_append_frame_structs : ∃ s s',
    ofSources {} [("a", "type s { x : byte; variant v; };")] = .ok s ∧
      ofSources {} ([("a", "type s { x : byte; variant v; };")] ++
        [("b", "type t { variant a; y : array 3 s.v; };")]) = .ok s' ∧
      s.scopes.length = 3 ∧ s'.scopes.length = 5 ∧ s'.warnings.length = 1 ∧
      (∀ id scope, s.scope? id = some scope → id ≠ root → s'.scope? id = some scope) ∧
      (s'.scope? root).map (fun scope => scope.names.entries.map Prod.fst) = some ["s", "t"] ∧
      s.types.types <+: s'.types.types ∧ s.warnings <+: s'.warnings := by
  obtain ⟨s, hs, hcount⟩ := exists_ok (show ((ofSources {}
    [("a", "type s { x : byte; variant v; };")]).toOption.any fun s =>
      s.scopes.length = 3) = true by decide +kernel)
  obtain ⟨s', hs', hp⟩ := exists_ok (show ((ofSources {}
    ([("a", "type s { x : byte; variant v; };")] ++
      [("b", "type t { variant a; y : array 3 s.v; };")])).toOption.any fun s' =>
      s'.scopes.length = 5 ∧ s'.warnings.length = 1 ∧
        (s'.scope? root).map (fun scope => scope.names.entries.map Prod.fst) =
          some ["s", "t"]) = true by decide +kernel)
  obtain ⟨hcount', hwarnings, hnames⟩ := of_decide_eq_true hp
  obtain ⟨hscopes, -, htypes, hgrown⟩ := ofSources_append_frame hs hs'
  exact ⟨s, s', hs, hs', of_decide_eq_true hcount, hcount', hwarnings, hscopes, hnames, htypes,
    hgrown⟩

end Compilation

end PacketSchema
