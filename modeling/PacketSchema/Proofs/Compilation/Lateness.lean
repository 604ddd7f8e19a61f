import PacketSchema.Proofs.Compilation.Consistency
import PacketSchema.Proofs.Compilation.Warning

/-! The warnings of a compilation are those about the late fields in the text, and what is late for
an arm is not inherited by it. -/

namespace PacketSchema.Compilation

open Schema Relation

/-! ## Texts -/

section

variable {ms : List Compilation} {s : Schema}

theorem Declares.addText (hms : Outlasts s ms) (source text : String) :
    Declares ms s root (statementsOf [(source, text)]) (addText source text) := by
  have hreport : Declares ms s root [] (report (.source source) : Recorded Unit) :=
    Yields.imp (Silent.report _) fun _ _ _ hquiet hc _ _ => .quiet hc hquiet
  rw [← List.nil_append (statementsOf _)]
  refine hreport.bind hms fun _ => ?_
  split
  case h_1 body hbody =>
    have hof : statementsOf [(source, text)] = body.statements := by
      simp [statementsOf, hbody, Except.toOption]
    rw [hof]
    exact (Declares.closed hms).declareAll root body.statements
  case h_2 => exact Yields.throw

theorem Declares.addTexts (hms : Outlasts s ms) : ∀ sources : List (String × String),
    Declares ms s root (statementsOf sources) (addTexts sources)
  | [] => .nil
  | (source, text) :: sources => by
    have hall := (Declares.addText hms source text).bind hms fun _ => Declares.addTexts hms sources
    rwa [← statementsOf_append] at hall

end

/-- The late fields of the sources, and the marks and warnings in the end. -/
theorem warned_of_ok {options : Options} {sources : List (String × String)} {s : Schema}
    (h : ofSources options sources = .ok s) :
    ∃ c past, history options sources = c :: past ∧ c.schema = s ∧ History (c :: past) ∧
      Warned (c :: past) s root (Statement.anyDeclaresVariant (statementsOf sources))
        (Statement.allOpenings (statementsOf sources)).length
        (Statement.lateFields root false 1 (statementsOf sources) ++
          Opening.lateFields 1 (Statement.allOpenings (statementsOf sources)))
        (.start options) c := by
  obtain ⟨c, past, hhistory, rfl, -, hh⟩ := history_of_ok h
  refine ⟨c, past, hhistory, rfl, hh, ?_⟩
  obtain ⟨r, hrun, -⟩ := recorded_of_ok h
  rw [history, hrun] at hhistory
  cases hhistory
  have hsited : Sited root (.start options) :=
    ⟨Nat.zero_lt_one, fun _ hx => absurd hx List.not_mem_nil⟩
  have hunmarked : Tells r.current.schema root (.start options) false :=
    fun _ => iff_of_false Bool.false_ne_true List.not_mem_nil
  exact (Declares.addTexts hh.outlasts sources _ _ _ hrun).2 List.suffix_rfl hsited false
    hunmarked

/-! ## What arms do not get -/

/-- From every moment to every later one scopes come, and what is held stays in front. -/
theorem History.grows {moments : List Compilation} (h : History moments) :
    moments.Pairwise fun c' c => c.schema.scopes.length ≤ c'.schema.scopes.length ∧
      ∀ id l, c.schema.layout? id = some l →
        ∃ l', c'.schema.layout? id = some l' ∧ l.Leads l' := by
  induction h with
  | start options => exact List.pairwise_singleton _ _
  | @step c c' past _ hc ih =>
    have hstep : ∀ id l, c.schema.layout? id = some l →
        ∃ l', c'.schema.layout? id = some l' ∧ l.Leads l' := by
      intro id l hl
      obtain ⟨l', hl', hext⟩ := hc.layout? hl
      exact ⟨l', hl', hext.leads⟩
    refine List.pairwise_cons.2 ⟨fun e he => ?_, ih⟩
    obtain rfl | he := List.mem_cons.1 he
    · exact ⟨hc.keeps.length_le, hstep⟩
    · obtain ⟨hle, hlayouts⟩ := (List.pairwise_cons.1 ih).1 e he
      refine ⟨hle.trans hc.keeps.length_le, fun id l hl => ?_⟩
      obtain ⟨l₁, hl₁, hleads₁⟩ := hlayouts id l hl
      obtain ⟨l', hl', hleads⟩ := hstep id l₁ hl₁
      exact ⟨l', hl', hleads₁.trans hleads⟩

/-- A moment with more scopes is a later one. -/
theorem History.leads_of_length_lt {moments : List Compilation} (h : History moments)
    {m₀ m : Compilation} (hm₀ : m₀ ∈ moments) (hm : m ∈ moments)
    (hlt : m₀.schema.scopes.length < m.schema.scopes.length) {id : ScopeId} {held : Layout}
    (hheld : m₀.schema.layout? id = some held) :
    ∃ l, m.schema.layout? id = some l ∧ held.Leads l := by
  obtain ⟨later, before, rfl⟩ := List.append_of_mem hm
  obtain ⟨-, hbefore, hlater⟩ := List.pairwise_append.1 h.grows
  obtain hm₀ | hm₀ := List.mem_append.1 hm₀
  · have hle := (hlater m₀ hm₀ m List.mem_cons_self).1
    omega
  · obtain rfl | hm₀ := List.mem_cons.1 hm₀
    · exact absurd hlt (Nat.lt_irrefl _)
    · exact ((List.pairwise_cons.1 hbefore).1 m₀ hm₀).2 id held hheld

theorem Copies.lt {s : Schema} (hr : s.Rooted) {id source : ScopeId} (h : Copies s id source) :
    source.index < id.index := by
  obtain ⟨⟨scope, base, hs, -⟩, hsource⟩ := copies_iff.1 h
  cases hp : scope.parent with
  | none =>
    rw [enclosing?, chain_root hs hp] at hsource
    cases hsource
  | some parent =>
    rw [hr.enclosing?_child hs hp] at hsource
    obtain ⟨link, hfind, rfl⟩ := Option.map_eq_some_iff.1 hsource
    have hlt := hr.parent_lt hs hp
    have hle := hr.around_le (hr.has_parent hs hp)
      (List.mem_map.2 ⟨link, List.mem_of_find?_eq_some hfind, rfl⟩)
    omega

/-- The fields of a copy are its own and those that were there when it was declared. -/
theorem History.field_cases {c : Compilation} {past : List Compilation} (h : History (c :: past))
    {v source : ScopeId} {l : Layout} {name : String} (hl : c.schema.layout? v = some l)
    (hcopies : Copies c.schema v source) (hname : name ∈ l.fields.entries.map Prod.fst) :
    name ∈ l.ownFields ∨ ∃ m ∈ c :: past, m.schema.scopes.length ≤ v.index ∧
      ∃ held, m.schema.layout? source = some held ∧ name ∈ held.fields.entries.map Prod.fst := by
  obtain ⟨taken, hinherits⟩ := h.inherits hl
  obtain ⟨own, hown, hnames⟩ := hinherits.replays.fields
  rw [hown, List.map_append, List.mem_append, hnames] at hname
  obtain hname | hname := hname
  · cases hinherits.takenOver with
    | nothing hs hk => exact absurd hk (hcopies.not_struct hs)
    | @snapshot found m held hfound hm hheld =>
      obtain rfl := Option.some.inj (hcopies.symm.trans hfound)
      have hnew := List.find?_some hm
      refine .inr ⟨m, List.mem_of_find?_eq_some hm, ?_, held, hheld, hname⟩
      exact List.getElem?_eq_none_iff.1 (Option.isNone_iff_eq_none.1 hnew)
  · exact .inl hname

/-- What has a late field, and was declared before it, has it from a scope that declares one of the
same name. -/
theorem Missing.not_inherited {c : Compilation} {past : List Compilation}
    (h : History (c :: past)) {f : LateField} (hf : Missing (c :: past) f) {v : ScopeId}
    (hchain : TransGen (Copies c.schema) v f.scope) (hv : v.index < f.next) {l : Layout}
    (hl : c.schema.layout? v = some l) (hname : f.name.text ∈ l.fields.entries.map Prod.fst) :
    ∃ u own, ReflTransGen (Copies c.schema) v u ∧ TransGen (Copies c.schema) u f.scope ∧
      c.schema.layout? u = some own ∧ f.name.text ∈ own.ownFields := by
  induction hchain using TransGen.head_induction_on generalizing l with
  | @single v hcopies =>
    obtain hown | ⟨m₀, hm₀, hlen, held, hheld, hfield⟩ := h.field_cases hl hcopies hname
    · exact ⟨v, l, .refl, .single hcopies, hl, hown⟩
    · obtain ⟨m, hm, hnext, now, hnow, hmissing⟩ := hf
      obtain ⟨now', hnow', hleads⟩ := h.leads_of_length_lt hm₀ hm (by omega) hheld
      rw [hnow] at hnow'
      cases hnow'
      have hkeys := (hleads.fields.map Prod.fst).subset hfield
      exact absurd hkeys (Table.not_mem_keys hmissing)
  | @head v w hcopies hrest ih =>
    obtain hown | ⟨m₀, hm₀, hlen, held, hheld, hfield⟩ := h.field_cases hl hcopies hname
    · exact ⟨v, l, .refl, .head hcopies hrest, hl, hown⟩
    · have hlt := hcopies.lt h.rooted
      have hv' := Copies.has hcopies
      obtain ⟨now, hnow, hleads⟩ := h.leads_of_length_lt hm₀ List.mem_cons_self
        (Nat.lt_of_le_of_lt hlen hv') hheld
      obtain ⟨u, own, hcome, hgo, hu⟩ :=
        ih (by omega) hnow ((hleads.fields.map Prod.fst).subset hfield)
      exact ⟨u, own, .head hcopies hcome, hgo, hu⟩

/-- With the lint on the warnings are, one for each, those about the late fields of all bodies in
the sources: the fields that a struct, a variant or a proxy declares itself behind a variant of the
same body. The scopes that copy from it, and were declared before such a field, do not inherit it.
With the lint off there are no warnings. -/
theorem ofSources_lateFields {options : Options} {sources : List (String × String)} {s : Schema}
    (h : ofSources options sources = .ok s) :
    (options.lintLateFields = true →
      s.warnings.Perm ((Opening.lateFields 1 (Statement.allOpenings (statementsOf sources))).map
        (LateField.finding s))) ∧
    (options.lintLateFields = false → s.warnings = []) ∧
    ∀ f ∈ Opening.lateFields 1 (Statement.allOpenings (statementsOf sources)),
      (∃ l, s.layout? f.scope = some l) ∧
      ∀ v l, v.index < f.next → TransGen (Copies s) v f.scope → s.layout? v = some l →
        f.name.text ∈ l.fields.entries.map Prod.fst →
        ∃ u own, ReflTransGen (Copies s) v u ∧ TransGen (Copies s) u f.scope ∧
          s.layout? u = some own ∧ f.name.text ∈ own.ownFields := by
  obtain ⟨c, past, -, rfl, hh, hwarned⟩ := warned_of_ok h
  -- the root namespace holds no fields, so none of them is late
  have hroot : Statement.lateFields root false 1 (statementsOf sources) = [] := by
    refine List.eq_nil_iff_forall_not_mem.2 fun f hf => ?_
    obtain ⟨m, hm, -, l, hl, -⟩ := hwarned.missing f (List.mem_append_left _ hf)
    rw [Statement.scope_of_mem_lateFields hf] at hl
    obtain ⟨l', hl'⟩ := hh.outlasts.layout? hm hl
    obtain ⟨scope, hs, hlayout⟩ := Option.bind_eq_some_iff.1 hl'
    unfold Scope.layout? at hlayout
    rw [(hh.rooted.root hs (hh.rooted.parent_root hs)).2.2] at hlayout
    cases hlayout
  rw [hroot, List.nil_append] at hwarned
  have hwarnings := hwarned.warnings
  refine ⟨fun hlint => ?_, fun hlint => ?_, fun f hf => ⟨?_, fun v l hv hchain hl hname => ?_⟩⟩
  · rwa [show (start options).options.lintLateFields = true from hlint, if_pos rfl] at hwarnings
  · rw [show (start options).options.lintLateFields = false from hlint,
      if_neg Bool.false_ne_true] at hwarnings
    exact hwarnings.eq_nil
  · obtain ⟨m, hm, -, l, hl, -⟩ := hwarned.missing f hf
    exact hh.outlasts.layout? hm hl
  · exact (hwarned.missing f hf).not_inherited hh hchain hv hl hname

/-- The namespace and the proxy count as variants, the struct in between does not. -/
theorem ofSources_lateFields_proxy : ∃ s,
    ofSources {}
      [("t", "type s { b : { variant v; }; a : int; namespace n { variant w; }; c, d : int; };"),
        ("u", "type t { variant { variant x; f : int; }; g : int; };")] = .ok s ∧
    s.warnings.map (fun f => f.place.column) = [67, 70, 31, 43] ∧
    s.warnings.Perm ((Opening.lateFields 1 (Statement.allOpenings (statementsOf
      [("t", "type s { b : { variant v; }; a : int; namespace n { variant w; }; c, d : int; };"),
        ("u", "type t { variant { variant x; f : int; }; g : int; };")]))).map
      (LateField.finding s)) := by
  obtain ⟨s, hs, hp⟩ := exists_ok (show ((ofSources {}
    [("t", "type s { b : { variant v; }; a : int; namespace n { variant w; }; c, d : int; };"),
      ("u", "type t { variant { variant x; f : int; }; g : int; };")]).toOption.any
    fun s => s.warnings.map (fun f => f.place.column) = [67, 70, 31, 43]) = true by
    decide +kernel)
  exact ⟨s, hs, of_decide_eq_true hp, (ofSources_lateFields hs).1 rfl⟩

end PacketSchema.Compilation
