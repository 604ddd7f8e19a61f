import PacketSchema.Proofs.Compilation.Lineage

/-! The constraints of scopes that copy from each other. What a scope held when it was copied keeps
its value there and in all that is copied from the copy. A constraint that comes later is not seen
by the scopes that were declared before it, and may say something else than theirs. -/

namespace PacketSchema

namespace Compilation

open Schema Relation

section

variable {s s' : Schema} {c c' : Compilation} {past : List Compilation} {id source x : ScopeId}

theorem Copies.has_source (h : Copies s id source) (hr : s.Rooted) : s.Has source := by
  obtain ⟨held, hheld⟩ := enclosing?_layout? hr h.has (copies_iff.1 h).2
  exact has_of_layout? hheld

/-- An old scope has always copied what it copies. -/
theorem Copies.of_keeps (h : Copies s' id source) (hk : s.Keeps s') (hr : s.Rooted)
    (hr' : s'.Rooted) (hid : s.Has id) : Copies s id source := by
  obtain ⟨⟨scope', base, hs', hb⟩, hsource⟩ := copies_iff.1 h
  obtain ⟨scope, hs⟩ := hid.scope?
  obtain ⟨found, hfound, heq⟩ := hk id scope hs
  rw [hs'] at hfound
  cases hfound
  refine copies_iff.2 ⟨⟨scope, base, hs, ?_⟩, ?_⟩
  · rw [Scope.base?_eq heq.symm, hb]
  · rw [← enclosing?_isStruct_keeps hk hr hr' hid, hsource]

theorem copies_of_keeps (h : ReflTransGen (Copies s') id x) (hk : s.Keeps s') (hr : s.Rooted)
    (hr' : s'.Rooted) (hid : s.Has id) : ReflTransGen (Copies s) id x ∧ s.Has x := by
  induction h with
  | refl => exact ⟨.refl, hid⟩
  | tail _ h ih =>
    obtain ⟨hchain, hhas⟩ := ih
    have hcopies := h.of_keeps hk hr hr' hhas
    exact ⟨hchain.tail hcopies, hcopies.has_source hr⟩

end

/-- What a scope held when it was copied is held by the copy and by whatever copies from that. -/
theorem History.leads {c m : Compilation} {past : List Compilation} (h : History (c :: past))
    {v x source : ScopeId} (hchain : ReflTransGen (Copies c.schema) v x)
    (hcopies : Copies c.schema x source) (hm : declaredIn? (c :: past) x = some m)
    {held l : Layout} (hheld : m.schema.layout? source = some held)
    (hl : c.schema.layout? v = some l) : held.Leads l := by
  -- what is copied, directly or not, by a scope that is old is old as well
  have hold : ∀ {c c' past y l₀}, History (c :: past) → Change c c' →
      c.schema.layout? y = some l₀ →
      (ReflTransGen (Copies c.schema) y x → Copies c.schema x source →
        declaredIn? (c :: past) x = some m → held.Leads l₀) →
      ReflTransGen (Copies c'.schema) y x → Copies c'.schema x source →
      declaredIn? (c' :: c :: past) x = some m → held.Leads l₀ := by
    intro c c' past y l₀ h hc hl₀ ih hchain hcopies hm
    have hr := h.rooted
    have hr' := hc.rooted hr
    obtain ⟨hchain₀, hx⟩ := copies_of_keeps hchain hc.keeps hr hr' (has_of_layout? hl₀)
    rw [declaredIn?_cons (hc.keeps.has hx)] at hm
    exact ih hchain₀ (hcopies.of_keeps hc.keeps hr hr' hx) hm
  refine h.layout_induction (motive := fun c past v l => ReflTransGen (Copies c.schema) v x →
    Copies c.schema x source → declaredIn? (c :: past) x = some m → held.Leads l)
    ?grow ?struct ?copy hl hchain hcopies hm
  case grow =>
    intro c c' past v l l' h hc _ hl hext ih hchain hcopies hm
    exact (hold h hc hl ih hchain hcopies hm).trans hext.leads
  case struct =>
    intro c c' past v scope _ _ _ _ hs hk hchain hcopies _
    obtain rfl | ⟨y, hy, -⟩ := hchain.cases_head
    · exact absurd hk (hcopies.not_struct hs)
    · exact absurd hk (hy.not_struct hs)
  case copy =>
    intro c c' past v y heldY h hc _ hnew hcopiesY hheldY ih hchain hcopies hm
    obtain rfl | ⟨y', hy', hrest⟩ := hchain.cases_head
    · rw [declaredIn?_new hcopiesY.has hnew] at hm
      cases hm
      obtain rfl := Option.some.inj (hcopies.symm.trans hcopiesY)
      rw [hheld] at hheldY
      cases hheldY
      exact .snapshot held
    · obtain rfl := Option.some.inj (hy'.symm.trans hcopiesY)
      exact (hold h hc hheldY ih hrest hcopies hm).trans (.snapshot heldY)

/-! ## Contradictions -/

/-- A run that comes to a part of it in some state. -/
inductive RunsInto {β : Type} (y : Build β) (c' : Compilation) :
    {α : Type} → Build α → Compilation → Prop
  | here : RunsInto y c' y c'
  | first {α γ : Type} {x : Build α} {f : α → Build γ} {c : Compilation}
      (h : RunsInto y c' x c) : RunsInto y c' (x >>= f) c
  | later {α γ : Type} {x : Build α} {f : α → Build γ} {c d : Compilation} {a : α}
      (hx : x.run c = (.ok a, d)) (h : RunsInto y c' (f a) d) : RunsInto y c' (x >>= f) c

/-- Whatever fails on the way makes all of the run fail. -/
theorem RunsInto.error {α β : Type} {x : Build α} {y : Build β} {c c' d : Compilation}
    {e : SchemaError} (h : RunsInto y c' x c) (hy : y.run c' = (.error e, d)) :
    x.run c = (.error e, d) := by
  induction h with
  | here => exact hy
  | first _ ih => rw [run_bind, ih]
  | later hx _ ih =>
    rw [run_bind, hx]
    exact ih

theorem run_checkFits {c : Compilation} {l : Layout} {name : String} {value : Literal}
    (h : Fits c l name value) (p : Position) :
    (checkFits l p name value : Build Unit).run c = (.ok (), c) := by
  unfold checkFits
  rw [run_get_bind]
  split
  case h_1 => rfl
  case h_2 field hfield =>
    refine run_refuseIf c (fun hmisfit => ?_) _
    simp only [Bool.and_eq_true, Bool.not_eq_true'] at hmisfit
    obtain ⟨htyped, hmisfit⟩ := hmisfit
    simp [h htyped field hfield] at hmisfit

/-- A scope refuses a literal for a name that stands for another one, be that its own or copied. -/
theorem run_addConstraint_contradiction {c : Compilation} {d : ScopeId} {l : Layout} {name : Ident}
    {v : Value} {existing : Literal} (p : Position) (hl : c.schema.layout? d = some l)
    (hheld : l.constraints.find? name.text = some existing) (hne : existing ≠ v.literal)
    (hfits : Fits c l name.text v.literal) :
    (addConstraint d p (.name ⟨name, []⟩) (.value v) : Build Unit).run c =
      (.error (.inconsistentConstraint p name.text existing v.literal), c) := by
  unfold addConstraint constrainedName constrainingLiteral
  rw [run_get_bind, hl]
  dsimp only
  rw [pure_bind, pure_bind, run_bind, run_checkFits hfits]
  dsimp only
  unfold checkConsistent
  rw [hheld]
  dsimp only
  rw [run_refuseIf_bind, if_pos hne]

/-- No constraint contradicts one that it could see. -/
structure Consistent (moments : List Compilation) (s : Schema) : Prop where
  copied : ∀ {v x source m held name value}, ReflTransGen (Copies s) v x → Copies s x source →
    declaredIn? moments x = some m → m.schema.layout? source = some held →
    held.constraints.find? name = some value →
    ∃ l now, s.layout? v = some l ∧ s.layout? source = some now ∧
      l.constraints.find? name = some value ∧ now.constraints.find? name = some value
  agree : ∀ {id name value other}, (s.layout? id).isSome →
    .constraint name value ∈ lineage moments id → .constraint name other ∈ lineage moments id →
    value = other

theorem TakenOver.eq_snapshot {moments : List Compilation} {s : Schema} {id source : ScopeId}
    {m : Compilation} {held taken : Layout} (h : TakenOver moments s id taken)
    (hcopies : Copies s id source) (hm : declaredIn? moments id = some m)
    (hheld : m.schema.layout? source = some held) : taken = held.snapshot := by
  cases h with
  | nothing hs hk => exact absurd hk (hcopies.not_struct hs)
  | snapshot hcopies' hm' hheld' =>
    obtain rfl := Option.some.inj (hcopies.symm.trans hcopies')
    obtain rfl := Option.some.inj (hm.symm.trans hm')
    obtain rfl := Option.some.inj (hheld.symm.trans hheld')
    rfl

theorem Copies.layout? {s : Schema} {id source : ScopeId} (h : Copies s id source) :
    ∃ l, s.layout? id = some l := by
  obtain ⟨⟨scope, base, hs, hb⟩, -⟩ := copies_iff.1 h
  have hstruct : ∃ l, scope.layout? = some l := by
    unfold Scope.layout?
    cases hk : scope.kind <;> simp_all [ScopeKind.base?, ScopeKind.layout?]
  obtain ⟨l, hl⟩ := hstruct
  exact ⟨l, Option.bind_eq_some_iff.2 ⟨scope, hs, hl⟩⟩

theorem History.consistent {c : Compilation} {past : List Compilation} (h : History (c :: past)) :
    Consistent (c :: past) c.schema where
  copied := by
    intro v x source m held name value hchain hcopies hm hheld hvalue
    obtain ⟨l, hl⟩ : ∃ l, c.schema.layout? v = some l := by
      obtain rfl | ⟨y, hy, -⟩ := hchain.cases_head
      · exact hcopies.layout?
      · exact hy.layout?
    obtain ⟨lx, hlx⟩ := hcopies.layout?
    obtain ⟨taken, hinherits⟩ := h.inherits hlx
    obtain ⟨now, hnow, hnowLeads⟩ := hinherits.leads source (copies_iff.1 hcopies).2
    rw [hinherits.takenOver.eq_snapshot hcopies hm hheld] at hnowLeads
    have hleads := h.leads hchain hcopies hm hheld hl
    exact ⟨l, now, hl, hnow, Table.find?_of_prefix hleads.constraints hvalue,
      Table.find?_of_prefix hnowLeads.constraints hvalue⟩
  agree := by
    intro id name value other hl hvalue hother
    obtain ⟨l, hl⟩ := Option.isSome_iff_exists.1 hl
    have haccounts := h.accounts hl
    have h₁ := haccounts.constraints name value hvalue
    have h₂ := haccounts.constraints name other hother
    exact Option.some.inj (h₁.symm.trans h₂)

/-- A compiled schema is consistent, and a compilation that comes to a constraint with another
literal than the one that the scope holds for the name, its own or a copied one, fails. -/
theorem ofSources_consistent (options : Options) (sources : List (String × String)) :
    (∀ s, ofSources options sources = .ok s → Consistent (history options sources) s) ∧
    ∀ c d l p (name : Ident) (v : Value) existing,
      RunsInto (addConstraint d p (.name ⟨name, []⟩) (.value v)) c (addSources sources)
        (.start options) →
      c.schema.layout? d = some l → l.constraints.find? name.text = some existing →
      existing ≠ v.literal → Fits c l name.text v.literal →
      ofSources options sources =
        .error (.inconsistentConstraint p name.text existing v.literal) := by
  constructor
  · intro s h
    obtain ⟨c, past, hhistory, rfl, -, hc⟩ := history_of_ok h
    rw [hhistory]
    exact hc.consistent
  · intro c d l p name v existing hruns hl hheld hne hfits
    have herror := hruns.error (run_addConstraint_contradiction p hl hheld hne hfits)
    unfold ofSources
    rw [herror]

theorem run_checkFree {c : Compilation} {d : ScopeId} {name : Ident}
    (h : c.schema.getLocal? d name.text = none) :
    (checkFree d name : Build Unit).run c = (.ok (), c) := by
  unfold checkFree
  rw [run_get_bind]
  exact run_refuseIf c (by simp [h]) _

theorem ofText_contradiction : Body.ofText "t" "type s { k = 1; variant a { k = 2; }; };" =
    .ok (.mk ⟨"t", 1, 1⟩ [.type ⟨"t", 1, 1⟩ ⟨"s", "t", 1, 6⟩ (some (.body (.mk ⟨"t", 1, 10⟩
      [.constraint ⟨"t", 1, 10⟩ (.name ⟨⟨"k", "t", 1, 10⟩, []⟩)
          (.value ⟨.number 1, "1", "t", 1, 14⟩),
        .variant ⟨"t", 1, 17⟩ (some ⟨"a", "t", 1, 25⟩) (some (.mk ⟨"t", 1, 29⟩
          [.constraint ⟨"t", 1, 29⟩ (.name ⟨⟨"k", "t", 1, 29⟩, []⟩)
            (.value ⟨.number 2, "2", "t", 1, 33⟩)]))])))]) := by
  cbv

/-- The constraint of the variant is reached, and the variant has taken over the other one. -/
theorem runsInto_contradiction :
    ∃ c, RunsInto (addConstraint ⟨2⟩ ⟨"t", 1, 29⟩ (.name ⟨⟨"k", "t", 1, 29⟩, []⟩)
        (.value ⟨.number 2, "2", "t", 1, 33⟩)) c
        (addSources [("t", "type s { k = 1; variant a { k = 2; }; };")]) (.start {}) ∧
      ∃ l, c.schema.layout? ⟨2⟩ = some l ∧ l.constraints.find? "k" = some (.number 1) ∧
        l.fields.find? "k" = none := by
  refine ⟨?c, ?runs, ?held⟩
  case runs =>
    unfold addSources addTexts addText
    refine .first (.later rfl ?_)
    rw [ofText_contradiction]
    dsimp only [Body.statements]
    unfold declareAll declare addType addStruct addScopeWith
    refine .first (.later (run_checkFree (by decide +kernel)) (.later rfl ?_))
    refine .first (.first (.later rfl (.first ?_)))
    -- the constraint of the struct is done, the variant is next
    unfold declareAll
    refine .later rfl ?_
    unfold declareAll
    refine .first ?_
    unfold declare addVariant addScopeWith
    refine .later (run_checkFree (by decide +kernel)) ?_
    refine .later (run_anchor _ (a := ⟨⟨1⟩, ⟨1⟩, some ["a"]⟩) (by decide +kernel) _) ?_
    refine .later rfl (.later rfl (.later rfl (.first (.later rfl (.first ?_)))))
    unfold declareAll
    refine .first ?_
    unfold declare
    exact .here
  case held => exact ⟨_, rfl, rfl, rfl⟩

theorem ofSources_consistent_applied :
    (∃ s l now,
      ofSources {} [("t", "type s { k = 1; variant { variant a { k = 1; }; }; };")] = .ok s ∧
      s.layout? ⟨3⟩ = some l ∧ s.layout? ⟨1⟩ = some now ∧
      l.constraints.find? "k" = some (.number 1) ∧
      now.constraints.find? "k" = some (.number 1)) ∧
    ofSources {} [("t", "type s { k = 1; variant a { k = 2; }; };")] =
      .error (.inconsistentConstraint ⟨"t", 1, 29⟩ "k" (.number 1) (.number 2)) := by
  constructor
  · obtain ⟨s, hs, hp⟩ := exists_ok (show ((ofSources {}
      [("t", "type s { k = 1; variant { variant a { k = 1; }; }; };")]).toOption.any fun s =>
        source? s ⟨3⟩ = some ⟨2⟩ ∧ source? s ⟨2⟩ = some ⟨1⟩) = true by decide +kernel)
    obtain ⟨hproxy, hstruct⟩ := of_decide_eq_true hp
    have hmoment : ((declaredIn? (history {}
        [("t", "type s { k = 1; variant { variant a { k = 1; }; }; };")]) ⟨2⟩).bind fun m =>
          (m.schema.layout? ⟨1⟩).bind (·.constraints.find? "k")) = some (.number 1) := by
      decide +kernel
    obtain ⟨m, hm, hmoment⟩ := Option.bind_eq_some_iff.1 hmoment
    obtain ⟨held, hheld, hvalue⟩ := Option.bind_eq_some_iff.1 hmoment
    obtain ⟨l, now, h⟩ :=
      ((ofSources_consistent {} _).1 s hs).copied (.single hproxy) hstruct hm hheld hvalue
    exact ⟨s, l, now, hs, h⟩
  · obtain ⟨c, hruns, l, hl, hvalue, hfield⟩ := runsInto_contradiction
    refine (ofSources_consistent {} _).2 c ⟨2⟩ l _ _ _ _ hruns hl hvalue nofun ?_
    intro _ field hfound
    rw [hfield] at hfound
    cases hfound

/-- A struct may contradict its variants with a constraint that comes after them. -/
theorem late_constraint_contradicts :
    ∃ s l now, ofSources {} [("t", "type s { variant a { k = 1; }; k = 2; };")] = .ok s ∧
      Copies s ⟨2⟩ ⟨1⟩ ∧ s.layout? ⟨2⟩ = some l ∧ s.layout? ⟨1⟩ = some now ∧
      l.constraints.find? "k" = some (.number 1) ∧
      now.constraints.find? "k" = some (.number 2) := by
  obtain ⟨s, hs, hp⟩ := exists_ok (show ((ofSources {}
    [("t", "type s { variant a { k = 1; }; k = 2; };")]).toOption.any fun s =>
      source? s ⟨2⟩ = some ⟨1⟩ ∧
      (s.layout? ⟨2⟩).bind (·.constraints.find? "k") = some (.number 1) ∧
      (s.layout? ⟨1⟩).bind (·.constraints.find? "k") = some (.number 2)) = true by decide +kernel)
  obtain ⟨hcopies, harm, hstruct⟩ := of_decide_eq_true hp
  obtain ⟨l, hl, hvalue⟩ := Option.bind_eq_some_iff.1 harm
  obtain ⟨now, hnow, hother⟩ := Option.bind_eq_some_iff.1 hstruct
  exact ⟨s, l, now, hs, hcopies, hl, hnow, hvalue, hother⟩

end Compilation

end PacketSchema
