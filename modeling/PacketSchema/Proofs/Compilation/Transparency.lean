import PacketSchema.Proofs.Compilation.Joining
import PacketSchema.Proofs.Compilation.Regrouping
import PacketSchema.Proofs.Style.Meaning

/-! Grouping changes nothing. With a group put into a proxy, sources compile as they do without it,
into a schema that has the proxy more and is the same but for that, or with the same error. -/

namespace PacketSchema

namespace Compilation

open Schema Grouping

theorem addReads_append (reads more : List (String × Except SchemaError Body)) :
    (addReads (reads ++ more) : Build Unit) = addReads reads >>= fun _ => addReads more := by
  induction reads with
  | nil => exact (pure_bind _ _).symm
  | cons read reads ih =>
    rw [List.cons_append, addReads, addReads, ih, bind_assoc]

theorem Matches.addReads {g : Grouping} {next : Nat} (h : root.index < g.proxy.index) :
    ∀ reads : List (String × Except SchemaError Body),
      Matches g (.behind next) Eq (addReads reads) (addReads reads)
  | [] => .pure rfl
  | (source, read) :: reads => by
    have hread : Matches g (.behind next) Eq (addRead source read) (addRead source read) := by
      refine (report _ _).bind fun _ _ _ => ?_
      cases read with
      | error e => exact throw rfl
      | ok b =>
        exact closed.declareAll root b.statements root (pairs_of_lt h) fun _ _ _ =>
          ⟨admits_of_lt h, (shift_of_lt h).symm⟩
    exact hread.bind fun _ _ _ => addReads h reads

/-- Reading has found names for all fields. -/
theorem namesFields_of_readings {f : Place → Place} {sources : List (String × String)}
    {source : String} {b : Body} (h : (source, .ok b) ∈ readings f sources) : b.NamesFields := by
  obtain ⟨⟨source, text⟩, -, heq⟩ := List.mem_map.1 h
  have hresult : relocateResult f (Body.relocate f) (Body.ofText source text) = .ok b :=
    congrArg Prod.snd heq
  cases hread : Body.ofText source text with
  | error e =>
    rw [hread] at hresult
    cases hresult
  | ok b =>
    rw [hread] at hresult
    cases hresult
    exact Body.namesFields_reprint _ b (Body.ofText_namesFields hread)

theorem ready_empty : Ready .empty root :=
  ⟨rooted_empty, Nat.zero_lt_one, fun _ _ => steady_empty _⟩

theorem Ready.addReads {reads : List (String × Except SchemaError Body)} {c c' : Compilation}
    (h : Ready c.schema root)
    (hfields : ∀ {source b}, (source, .ok b) ∈ reads → Body.NamesFields b)
    (hrun : (addReads reads : Build Unit).run c = (.ok (), c')) :
    c.schema.Keeps c'.schema ∧ Ready c'.schema root := by
  induction reads generalizing c with
  | nil =>
    cases hrun
    exact ⟨Keeps.refl _, h⟩
  | cons read reads ih =>
    obtain ⟨source, e | b⟩ := read
    · cases hrun
    · have hreported : (Compilation.addReads ((source, .ok b) :: reads) : Build Unit).run c =
          (declareAll root b.statements >>= fun _ => Compilation.addReads reads : Build Unit).run
            { c with log := c.log ++ [.source source] } := rfl
      rw [hreported, run_bind] at hrun
      rcases hfirst : (declareAll root b.statements : Build Unit).run
        { c with log := c.log ++ [.source source] } with ⟨e | ⟨⟩, c₁⟩
      · rw [hfirst] at hrun
        cases hrun
      · rw [hfirst] at hrun
        have hnames : Statement.AllNameFields b.statements := by
          have hb := hfields List.mem_cons_self
          cases b
          exact hb
        obtain ⟨ms, hmakes⟩ := makes_of_run hfirst hnames
        obtain ⟨hk, hready⟩ := h.makes hmakes
        obtain ⟨hk', hready'⟩ := ih hready (fun hmem => hfields (.tail _ hmem)) hrun
        exact ⟨hk.trans hk', hready'⟩

theorem Regroups.addReads {b b' : Body} {c : Compilation} (hready : Ready c.schema root)
    (hfields : b.NamesFields) (h : b.Groups false b') (source : String)
    (reads : List (String × Except SchemaError Body)) :
    Regroups (fun _ => Eq) c (addReads ((source, .ok b) :: reads))
      (addReads ((source, .ok b') :: reads)) := by
  have hfirst : Regroups (fun _ => Eq) c (addRead source (.ok b)) (addRead source (.ok b')) :=
    still (.report _) fun _ c₁ hc₁ _ => by
      rw [← hc₁] at hready
      exact body h (closed.declareAll root b.statements) hready (by simp) hfields
  exact hfirst.bind fun g next _ _ hle _ => .addReads (Nat.lt_of_lt_of_le hready.has hle) reads

/-- The second result has a proxy more and is the first one but for that. Its scopes have other
numbers, and warnings about late fields may differ, but every scope has the name, the names in it
and the fields, constraints and branches, in the order, that it has in the first one. Errors differ
in the numbers of structs without a name at most. -/
def SameButProxy : Except SchemaError Schema → Except SchemaError Schema → Prop
  | .ok s, .ok s' => ∃ g next, Grouped g (.behind next) s s'
  | .error e, .error e' => e'.unnumbered = e.unnumbered
  | _, _ => False

theorem outcome_addReads (f : Place → Place) (options : Options)
    (sources : List (String × String)) :
    relocateResult f (Schema.relocate f) (ofSources options sources) =
      outcome ((addReads (readings f sources) : Build Unit).run (.start options)) := by
  rw [ofSources_eq_recorded, run_addReads_reprints]
  rcases recorded options sources with ⟨_ | ⟨⟩, r⟩ <;> rfl

theorem sameButProxy_of_agree {P : Unit → Compilation → Unit → Compilation → Prop}
    {r r' : Except SchemaError Unit × Compilation} (h : Agree P r r')
    (hP : ∀ a c b c', P a c b c' → ∃ g next, Grouped g (.behind next) c.schema c'.schema) :
    SameButProxy (outcome r) (outcome r') := by
  obtain ⟨e | a, c⟩ := r <;> obtain ⟨e' | b, c'⟩ := r'
  · exact h
  · cases h
  · cases h
  · exact hP _ _ _ _ h

/-- Grouping is transparent. Where some declarations in a row of types, namespaces and variants in
the body of a struct, a variant or a proxy are put into a proxy of their own, the text compiles as
before, among whichever other sources: with the same error, or into a schema that has the new proxy
more and is the same but for that, for where things stand in the text and for late fields. -/
theorem ofSources_group {options : Options} {source text text' : String} {b b' : Body}
    (hread : Body.ofText source text = .ok b) (hread' : Body.ofText source text' = .ok b')
    (hgroups : (b.relocate .forget).Groups false (b'.relocate .forget))
    (before behind : List (String × String)) :
    SameButProxy
      (relocateResult .forget (Schema.relocate .forget)
        (ofSources options (before ++ (source, text) :: behind)))
      (relocateResult .forget (Schema.relocate .forget)
        (ofSources options (before ++ (source, text') :: behind))) := by
  have hreadings : ∀ {text b}, Body.ofText source text = .ok b →
      readings .forget (before ++ (source, text) :: behind) =
        readings .forget before ++
          (source, .ok (b.relocate .forget)) :: readings .forget behind := by
    intro text b hread
    simp [reprints, hread]
    rfl
  have hregroups : Regroups (fun _ => Eq) (.start options)
      (addReads (readings .forget (before ++ (source, text) :: behind)))
      (addReads (readings .forget (before ++ (source, text') :: behind))) := by
    rw [hreadings hread, hreadings hread', addReads_append, addReads_append]
    refine .after fun _ c hrun => ?_
    obtain ⟨hk, hready⟩ := ready_empty.addReads namesFields_of_readings hrun
    have hfields := Body.namesFields_reprint (.places .forget) b (Body.ofText_namesFields hread)
    exact ⟨hk.length_le, .addReads hready hfields hgroups source _⟩
  rw [outcome_addReads, outcome_addReads]
  refine sameButProxy_of_agree hregroups fun _ _ _ _ hsame => ?_
  obtain ⟨g, next, -, -, habreast⟩ := hsame
  exact ⟨g, next, habreast.schema⟩

theorem ofText_ungrouped : Body.ofText "t" "type p { variant a; type b; x : b; };" =
    .ok (.mk ⟨"t", 1, 1⟩ [.type ⟨"t", 1, 1⟩ ⟨"p", "t", 1, 6⟩ (some (.body (.mk ⟨"t", 1, 10⟩
      [.variant ⟨"t", 1, 10⟩ (some ⟨"a", "t", 1, 18⟩) none,
        .type ⟨"t", 1, 21⟩ ⟨"b", "t", 1, 26⟩ none,
        .fields ⟨"t", 1, 29⟩ [⟨"x", "t", 1, 29⟩]
          (.application ⟨"t", 1, 33⟩ (.name ⟨⟨"b", "t", 1, 33⟩, []⟩) [])])))]) := by
  cbv

theorem ofText_grouped : Body.ofText "t" "type p { variant { variant a; type b; }; x : b; };" =
    .ok (.mk ⟨"t", 1, 1⟩ [.type ⟨"t", 1, 1⟩ ⟨"p", "t", 1, 6⟩ (some (.body (.mk ⟨"t", 1, 10⟩
      [.variant ⟨"t", 1, 10⟩ none (some (.mk ⟨"t", 1, 20⟩
          [.variant ⟨"t", 1, 20⟩ (some ⟨"a", "t", 1, 28⟩) none,
            .type ⟨"t", 1, 31⟩ ⟨"b", "t", 1, 36⟩ none])),
        .fields ⟨"t", 1, 42⟩ [⟨"x", "t", 1, 42⟩]
          (.application ⟨"t", 1, 46⟩ (.name ⟨⟨"b", "t", 1, 46⟩, []⟩) [])])))]) := by
  cbv

/-- The field has the type that is declared in the group. -/
theorem ofSources_group_struct : ∃ s s',
    ofSources {} [("t", "type p { variant a; type b; x : b; };")] = .ok s ∧
      ofSources {} [("t", "type p { variant { variant a; type b; }; x : b; };")] = .ok s' ∧
      (s.layout? ⟨1⟩).map Layout.order = some [.branch ["a"] ⟨2⟩, .field "x"] ∧
      (s'.layout? ⟨1⟩).map Layout.order = some [.branch ["a"] ⟨3⟩, .field "x"] ∧
      SameButProxy (relocateResult .forget (Schema.relocate .forget) (.ok s))
        (relocateResult .forget (Schema.relocate .forget) (.ok s')) := by
  obtain ⟨s, hs, hp⟩ := exists_ok (show ((ofSources {}
    [("t", "type p { variant a; type b; x : b; };")]).toOption.any fun s =>
      (s.layout? ⟨1⟩).map Layout.order = some [.branch ["a"] ⟨2⟩, .field "x"]) = true
    by decide +kernel)
  obtain ⟨s', hs', hp'⟩ := exists_ok (show ((ofSources {}
    [("t", "type p { variant { variant a; type b; }; x : b; };")]).toOption.any fun s =>
      (s.layout? ⟨1⟩).map Layout.order = some [.branch ["a"] ⟨3⟩, .field "x"]) = true
    by decide +kernel)
  have hgroups := @Body.Groups.here ⟨"t", .start⟩ ⟨"t", .start⟩ ⟨"t", .start⟩ []
    [.variant ⟨"t", .start⟩ (some ⟨"a", "t", .start⟩) none,
      .type ⟨"t", .start⟩ ⟨"b", "t", .start⟩ none]
    [.fields ⟨"t", .start⟩ [⟨"x", "t", .start⟩]
      (.application ⟨"t", .start⟩ (.name ⟨⟨"b", "t", .start⟩, []⟩) [])] (by simp [Statement.isPart])
  have hsame := @ofSources_group {} _ _ _ _ _ ofText_ungrouped ofText_grouped
    (@Body.Groups.within _ _ [] [] _ _ (.type (.body hgroups))) [] []
  rw [List.nil_append, List.nil_append, hs, hs'] at hsame
  exact ⟨s, s', hs, hs', of_decide_eq_true hp, of_decide_eq_true hp', hsame⟩

end Compilation

end PacketSchema
