import PacketSchema.Proofs.Compilation.Pointing
import PacketSchema.Proofs.Compilation.Situating
import PacketSchema.Proofs.Declaration.Joining

/-! Compiling two texts as one. With a line end between them they come to what they come to one
after the other, except that all that comes from the second one stands further down. -/

namespace PacketSchema

namespace Schema

/-- What a schema has beyond another one, at other places. -/
def relocateBeyond (first : Schema) (f : Place → Place) (s : Schema) : Schema :=
  { s with
    scopes := s.scopes.take first.scopes.length ++
      (s.scopes.drop first.scopes.length).map (Scope.relocate f)
    warnings := s.warnings.take first.warnings.length ++
      (s.warnings.drop first.warnings.length).map (Finding.relocate f) }

end Schema

/-! ## Other places in turn -/

theorem SchemaError.relocate_relocate (f g : Place → Place) (e : SchemaError) :
    (e.relocate f).relocate g = e.relocate (g ∘ f) := by
  cases e <;> rfl

theorem Scope.relocate_relocate (f g : Place → Place) (scope : Scope) :
    (scope.relocate f).relocate g = scope.relocate (g ∘ f) := by
  have htable : ∀ t : Table String Field,
      (t.map (Field.relocate f)).map (Field.relocate g) = t.map (Field.relocate (g ∘ f)) := by
    intro t
    simp [Table.map, Prod.map, Function.comp_def, Field.reprint, Position.reprint]
  obtain ⟨name, parent, position, kind, names⟩ := scope
  cases position <;> cases kind <;>
    simp [reprint, ScopeKind.reprint, ScopeKind.mapLayout, Layout.reprint, Position.reprint,
      htable]

namespace Compilation

open Schema

/-- What a run comes to as the compilation of a schema. -/
def outcome (result : Except SchemaError Unit × Compilation) : Except SchemaError Schema :=
  result.1.map fun _ => result.2.schema

theorem ofSources_eq_outcome (options : Options) (sources : List (String × String)) :
    ofSources options sources = outcome ((addTexts sources : Build Unit).run (.start options)) := by
  unfold ofSources addSources
  rcases (addTexts sources : Build Unit).run (.start options) with ⟨_ | ⟨⟩, _⟩ <;> rfl

theorem declareAll_append (d : ScopeId) (sts rest : List Statement) :
    (declareAll d (sts ++ rest) : Build Unit) =
      declareAll d sts >>= fun _ => declareAll d rest := by
  induction sts with
  | nil =>
    rw [declareAll, List.nil_append]
    exact (pure_bind _ _).symm
  | cons st sts ih =>
    rw [List.cons_append, declareAll, declareAll, ih, bind_assoc]

/-- Compiling a text is compiling its declarations, if it has any. -/
theorem run_addText (source text : String) (c : Compilation) :
    (addText source text : Build Unit).run c = match Body.ofText source text with
      | .ok b =>
        (declareAll root b.statements : Build Unit).run { c with log := c.log ++ [.source source] }
      | .error e => (.error e, { c with log := c.log ++ [.source source] }) := by
  have hreport : (addText source text : Build Unit).run c =
      (match Body.ofText source text with
        | .ok b => declareAll root b.statements
        | .error e => throw e : Build Unit).run { c with log := c.log ++ [.source source] } := rfl
  rw [hreport]
  cases Body.ofText source text <;> rfl

/-- A compilation that has reported its first source. -/
def begun (options : Options) (source : String) : Compilation :=
  { start options with log := [.source source] }

theorem outcome_addText (source text : String) (c : Compilation) :
    outcome ((addTexts [(source, text)] : Build Unit).run c) = match Body.ofText source text with
      | .ok b => outcome ((declareAll root b.statements : Build Unit).run
          { c with log := c.log ++ [.source source] })
      | .error e => .error e := by
  rw [addTexts, run_bind, run_addText]
  cases Body.ofText source text with
  | error e => rfl
  | ok b =>
    dsimp only
    rcases (declareAll root b.statements : Build Unit).run
      { c with log := c.log ++ [.source source] } with ⟨_ | ⟨⟩, _⟩ <;> rfl

/-! ## What is beyond a compiled schema -/

section

variable {f g : Place → Place} {s s' : Schema}

theorem at_root_of_keeps (h : Schema.empty.Keeps s) : At (.places f) s root := by
  obtain ⟨scope, hs, hshape⟩ := h root _ rfl
  unfold At
  rw [scope?_reprint, hs, Scope.eq_of_space hshape rfl]
  rfl

/-- Moving everything, and then back what is beyond, comes to moving nothing. -/
theorem relocateBeyond_relocate {new : List Finding} (hold : ∀ x, s.Has x → At (.places f) s' x)
    (hnew : ∀ x, ¬ s.Has x → At (.places (g ∘ f)) s' x) (hwarnings : s'.warnings = s.warnings ++ new)
    (hfirst : s.warnings.map (Finding.relocate f) = s.warnings)
    (hmore : ∀ w ∈ new, w.relocate (g ∘ f) = w) : relocateBeyond s g (s'.relocate f) = s' := by
  have htake : (s'.scopes.map (Scope.relocate f)).take s.scopes.length =
      s'.scopes.take s.scopes.length := by
    refine List.ext_getElem? fun i => ?_
    rw [List.getElem?_take, List.getElem?_take]
    split
    · rename_i hi
      exact hold ⟨i⟩ hi
    · rfl
  have hdrop : ((s'.scopes.map (Scope.relocate f)).drop s.scopes.length).map (Scope.relocate g) =
      s'.scopes.drop s.scopes.length := by
    refine List.ext_getElem? fun i => ?_
    have hi := hnew ⟨s.scopes.length + i⟩ (Nat.not_lt.2 (Nat.le_add_right _ _))
    have hcomp : Scope.relocate g ∘ Scope.relocate f = Scope.relocate (g ∘ f) :=
      funext (Scope.relocate_relocate f g)
    rw [← List.map_drop, List.map_map, hcomp, List.getElem?_map, List.getElem?_drop]
    exact (List.getElem?_map).symm.trans hi
  have hfindings : ((s'.warnings.map (Finding.relocate f)).take s.warnings.length ++
      ((s'.warnings.map (Finding.relocate f)).drop s.warnings.length).map (Finding.relocate g)) =
        s'.warnings := by
    have hback : (new.map (Finding.relocate f)).map (Finding.relocate g) = new := by
      rw [List.map_map]
      exact (List.map_congr_left hmore).trans (List.map_id new)
    rw [hwarnings, List.map_append, hfirst, List.take_left, List.drop_left, hback]
  unfold relocateBeyond Schema.relocate Schema.reprint
  rw [htake, hdrop, List.take_append_drop, hfindings]

end

section

variable {f : Place → Place} {c : Compilation} (sts : List Statement)

/-- The recorded run of declarations tells what the plain run of the moved ones comes to. -/
theorem run_declareAll_relocate (hc : c.relocate f = c) :
    (declareAll root (relocateAll f sts) : Build Unit).run c =
      ((((declareAll root sts : Build Unit).run c).1.mapError (SchemaError.relocate f)),
        ((declareAll root sts : Build Unit).run c).2.relocate f) := by
  have hplain := (Mirrors.closed (r := .same)).declareAll root sts ⟨c, []⟩
  have hmoved := (Mirrors.closed (r := .places f)).declareAll root sts ⟨c, []⟩
  dsimp only at hplain hmoved
  rw [reprintAll_same, reprint_same, reprint_same] at hplain
  rw [show c.reprint (.places f) = c from hc] at hmoved
  rw [hplain, hmoved]
  generalize (declareAll root sts : Recorded Unit).run ⟨c, []⟩ = x
  obtain ⟨e | _, _⟩ := x
  · simp [Except.mapError, Except.map, SchemaError.reprint_same]
  · rfl

end

section

variable {c : Compilation} {sts sts' : List Statement} {lines : Nat}

/-- Compiling declarations further down, into what stands above, moves what comes of them. -/
theorem outcome_declareAll_down (hk : Schema.empty.Keeps c.schema) (hr : c.schema.Rooted)
    (hc : c.relocate (Place.up lines) = c) (hup : relocateAll (Place.up lines) sts' = sts)
    (hkept : relocateAll (Place.down lines ∘ Place.up lines) sts' = sts')
    (hfields : Statement.AllNameFields sts') :
    outcome ((declareAll root sts' : Build Unit).run c) =
      relocateResult (Place.down lines) (relocateBeyond c.schema (Place.down lines))
        (outcome ((declareAll root sts : Build Unit).run c)) := by
  have hmoved := run_declareAll_relocate sts' hc
  rw [hup] at hmoved
  have hpoints := Points.closed.declareAll root sts' hkept
  obtain ⟨new, hwarnings, hmore⟩ : ∃ new, _ = c.schema.warnings ++ new ∧
    ∀ w ∈ new, w.relocate (Place.down lines ∘ Place.up lines) = w := hpoints.warnings c
  rw [hmoved]
  rcases hrun : (declareAll root sts' : Build Unit).run c with ⟨e | ⟨⟩, c'⟩
  · obtain ⟨p, hp, hplace⟩ := hpoints.error hrun
    have herror := SchemaError.reprint_of_position hp hplace
    exact congrArg Except.error ((e.relocate_relocate _ _).trans herror).symm
  · rw [hrun] at hwarnings
    obtain ⟨ms, hmakes⟩ := makes_of_run hrun hfields
    have hroot : c.schema.Has root := hk.has Nat.zero_lt_one
    have hconfined := hmakes.confined hr hroot
    have hschema : c.schema.relocate (Place.up lines) = c.schema := congrArg schema hc
    have hsituated := hmakes.situated hr hroot hkept fun x hx => by
      obtain hx | hx := hx
      · rw [hr.around_root hroot hx]
        exact at_root_of_keeps hk
      · exact at_of_not_has hx
    refine congrArg Except.ok (relocateBeyond_relocate ?_ ?_ hwarnings ?_ hmore).symm
    · intro x hx
      by_cases hxroot : x = root
      · rw [hxroot]
        exact at_root_of_keeps (hk.trans hconfined.keeps)
      · have hout := mt (hr.around_root hroot) hxroot
        refine At.of_scope?_eq ?_ (hconfined.outside hx hout)
        exact congrArg (·.scope? x) hschema
    · exact fun x hx => hsituated x (.inr hx)
    · exact congrArg warnings hschema

end

/-- A text that compiles is read, and its declarations compile. -/
theorem run_of_ok {options : Options} {source text : String} {s : Schema}
    (h : ofSources options [(source, text)] = .ok s) :
    ∃ b c, Body.ofText source text = .ok b ∧ c.schema = s ∧
      (declareAll root b.statements : Build Unit).run (begun options source) = (.ok (), c) := by
  rw [ofSources_eq_outcome, outcome_addText] at h
  cases hread : Body.ofText source text with
  | error e =>
    rw [hread] at h
    cases h
  | ok b =>
    rw [hread] at h
    have hdeclared : outcome ((declareAll root b.statements : Build Unit).run
      (begun options source)) = .ok s := h
    rcases hrun : (declareAll root b.statements : Build Unit).run (begun options source) with
      ⟨e | ⟨⟩, c⟩
    · rw [hrun] at hdeclared
      cases hdeclared
    · rw [hrun] at hdeclared
      exact ⟨b, c, rfl, Except.ok.inj hdeclared, hrun⟩

/-- Nothing that comes of a text stands below its lines. -/
theorem relocate_up_of_run {options : Options} {source text : String} {b : Body}
    {c : Compilation} {lines : Nat} (hread : Body.ofText source text = .ok b)
    (hrun : (declareAll root b.statements : Build Unit).run (begun options source) = (.ok (), c))
    (hlines : text.toList.count '\n' + 1 ≤ lines) : c.relocate (Place.up lines) = c := by
  have hb := Body.ofText_relocate_up source text lines hlines
  rw [hread] at hb
  have hagain := run_declareAll_relocate (f := Place.up lines) (c := begun options source)
    b.statements rfl
  rw [← Body.statements_relocate, Except.ok.inj hb, hrun] at hagain
  exact (Prod.mk.inj hagain).2.symm

/-- What has been reported before has no part in what comes of declarations. -/
theorem outcome_declareAll_log (sts : List Statement) (c : Compilation) (log : List Event) :
    outcome ((declareAll root sts : Build Unit).run { c with log }) =
      outcome ((declareAll root sts : Build Unit).run c) := by
  obtain ⟨log', hlog⟩ := (Points.closed.declareAll root sts (reprintAll_same sts)).log c log
  rw [hlog]
  rfl

/-- Two texts compile alike one after the other and as one text with a line end between them, if the
first one compiles: into the same schema or with the same error, in which all that comes from the
second text stands as many lines further down as the first one has, and in the same columns. -/
theorem ofSources_join {options : Options} {source text : String} {s : Schema}
    (h : ofSources options [(source, text)] = .ok s) (behind : String) :
    ofSources options [(source, text ++ "\n" ++ behind)] =
      relocateResult (Place.down (text.toList.count '\n' + 1))
        (relocateBeyond s (Place.down (text.toList.count '\n' + 1)))
        (ofSources options [(source, text), (source, behind)]) := by
  obtain ⟨b, c, hread, rfl, hrun⟩ := run_of_ok h
  have hframed := (makes_of_ok h).framed rooted_empty Nat.zero_lt_one
  have hjoined := Body.ofText_join hread behind
  have hlines := relocate_up_of_run hread hrun (Nat.le_refl _)
  generalize text.toList.count '\n' + 1 = lines at hjoined hlines ⊢
  have hup := Body.ofText_down_up source behind lines
  have hkept := Body.ofText_down_relocate source behind lines
  have hfirst : (addText source text : Build Unit).run (.start options) = (.ok (), c) := by
    rw [run_addText, hread]
    exact hrun
  rw [ofSources_eq_outcome, ofSources_eq_outcome, outcome_addText, addTexts, run_bind, hfirst]
  dsimp only
  rw [outcome_addText]
  cases hbehind : Body.ofText source behind with
  | error e =>
    rw [hbehind] at hjoined
    cases hwhole : Body.ofText source (text ++ "\n" ++ behind) with
    | error e' =>
      rw [hwhole] at hjoined
      exact congrArg Except.error (Except.error.inj hjoined)
    | ok b' =>
      rw [hwhole] at hjoined
      cases hjoined
  | ok b₂ =>
    rw [hbehind] at hjoined hup hkept
    cases hwhole : Body.ofText source (text ++ "\n" ++ behind) with
    | error e' =>
      rw [hwhole] at hjoined
      cases hjoined
    | ok b' =>
      rw [hwhole] at hjoined
      have hstatements : b'.statements =
          b.statements ++ (b₂.relocate (Place.down lines)).statements := Except.ok.inj hjoined
      have hfields : Statement.AllNameFields b'.statements := by
        have hnames := Body.ofText_namesFields hwhole
        cases b'
        exact hnames
      have hwhole' : (declareAll root b'.statements : Build Unit).run (begun options source) =
          (declareAll root (b₂.relocate (Place.down lines)).statements : Build Unit).run c := by
        rw [hstatements, declareAll_append, run_bind, hrun]
      rw [hstatements] at hfields
      dsimp only
      rw [outcome_declareAll_log _ c]
      refine (congrArg outcome hwhole').trans (outcome_declareAll_down hframed.keeps
        hframed.rooted hlines ?_ ?_ (Statement.allNameFields_append.1 hfields).2)
      · rw [← Body.statements_relocate, Except.ok.inj hup]
      · rw [← Body.statements_relocate, Except.ok.inj hkept]

/-- The first text ends in a comment. The second one uses what the first one declares, and has a
late field on its first line. -/
theorem ofSources_join_comment : ∃ s s',
    ofSources {} [("t", "type s \x7b\n x : byte; \x7d; # s")] = .ok s ∧
      ofSources {} [("t", "type s \x7b\n x : byte; \x7d; # s" ++ "\n" ++
        "type t \x7b variant v; y : array 3 s; \x7d;")] = .ok s' ∧
      s'.warnings.map Finding.place = [⟨3, 21⟩] ∧
      .ok s' = relocateResult (Place.down 2) (relocateBeyond s (Place.down 2))
        (ofSources {} [("t", "type s \x7b\n x : byte; \x7d; # s"),
          ("t", "type t \x7b variant v; y : array 3 s; \x7d;")]) := by
  obtain ⟨s, hs, -⟩ := exists_ok (show ((ofSources {}
    [("t", "type s \x7b\n x : byte; \x7d; # s")]).toOption.any fun _ => true) = true
    by decide +kernel)
  obtain ⟨s', hs', hp⟩ := exists_ok (show ((ofSources {}
    [("t", "type s \x7b\n x : byte; \x7d; # s" ++ "\n" ++
      "type t \x7b variant v; y : array 3 s; \x7d;")]).toOption.any fun s' =>
      s'.warnings.map Finding.place = [⟨3, 21⟩]) = true by decide +kernel)
  have hlines : "type s \x7b\n x : byte; \x7d; # s".toList.count '\n' + 1 = 2 := by decide +kernel
  have hjoined := ofSources_join hs "type t \x7b variant v; y : array 3 s; \x7d;"
  rw [hlines, hs'] at hjoined
  exact ⟨s, s', hs, hs', of_decide_eq_true hp, hjoined⟩

end Compilation

end PacketSchema
