import PacketSchema.Proofs.Compilation.History
import PacketSchema.Proofs.Compilation.Simulation

/-! What the options change. Without warnings about late fields a compilation goes the same way and
ends in the same schema, but for the warnings. Without typed constraints it goes the same way as
long as no literal is refused for its type, and beyond that where one is. -/

namespace PacketSchema

theorem Paired.eq {ε α : Type} {x y : Except ε α} (h : Paired Eq Eq x y) : x = y := by
  cases h with
  | ok h => rw [h]
  | error h => rw [h]

def Event.isFinding : Event → Bool
  | finding _ _ => true
  | source _ | space _ _ | type _ _ | variant _ _ _ | field _ _ | constraint _ _ _ | cacheHit _ _
  | cacheMiss _ _ => false

/-- A literal is refused for its type. -/
def SchemaError.IsMisfit (e : SchemaError) : Prop :=
  ∃ p name value type, e = .constraintType p name value type

namespace Compilation

open Schema

/-! ## Late fields -/

/-- Without warnings, and without their reports in the log. -/
def silent : View where
  options o := { o with lintLateFields := false }
  warnings _ := []
  log log := log.filter fun e => !e.isFinding

/-- Both runs come to the same result, and the second one to the first one's state without its
warnings. -/
def Silences (α : Type) (x y : Recorded α) : Prop :=
  Relates (fun r r' : Recording => r'.current = silent.of r.current) Eq Eq x y

theorem silences_warnLate (dest : ScopeId) (name : Ident) :
    Silences Unit (warnLate dest name) (pure ()) := by
  intro r r' h
  refine ⟨.ok rfl, h.trans ?_⟩
  show silent.of r.current = silent.of { r.current with
    log := r.current.log ++ [.finding _ _]
    schema := r.current.schema.addWarning _ }
  simp [View.of, silent, Event.isFinding]
  rfl

theorem silences : silent.Simulates Silences where
  log log e he := by
    have hfinding : e.isFinding = false := by
      cases e with
      | finding p f => exact absurd rfl (he p f)
      | _ => rfl
    show (log ++ [e]).filter _ = log.filter _ ++ [e]
    rw [List.filter_append]
    simp [hfinding]
  pure _ := .pure rfl
  throw _ := .throw rfl
  bind h hf := .bind h fun a _ hab => hab ▸ hf a
  get_bind {_ _ g} h := .get_bind (g := fun r => g r.current) fun r _ hr => hr ▸ h r.current
  modify hf r _ hr := ⟨.ok rfl, (congrArg _ hr).trans (hf r.current)⟩
  late options snapshotted dest name := by
    rw [show (silent.options options).lintLateFields = false from rfl, Bool.false_and,
      if_neg Bool.false_ne_true]
    split
    · exact silences_warnLate dest name
    · exact .pure rfl
  misfit options fits p name value type := by
    rw [show (silent.options options).typedConstraints = options.typedConstraints from rfl]
    unfold refuseIf
    split
    · exact .throw rfl
    · exact .pure rfl

/-! ## Typed constraints -/

/-- Without typed constraints. -/
def untyped : View where
  options o := { o with typedConstraints := false }
  warnings w := w
  log log := log

/-- Without typed constraints no literal is refused for its type. No moment is forgotten. -/
def Lenient {α : Type} (x : Recorded α) : Prop :=
  ∀ r : Recording, r.current.options.typedConstraints = false →
    (∀ e, (x.run r).1 = .error e → ¬ e.IsMisfit) ∧
      (x.run r).2.current.options.typedConstraints = false ∧ r.moments <:+ (x.run r).2.moments

/-- The second run goes through the moments of the first one, which comes to the same result or stops
on its way because of a literal that does not fit. -/
def Anticipates (α : Type) (x y : Recorded α) : Prop :=
  Lenient y ∧ ∀ r r' : Recording, r'.moments = r.moments.map untyped.of →
    ((y.run r').1 = (x.run r).1 ∧ (y.run r').2.moments = (x.run r).2.moments.map untyped.of) ∨
      (∃ e, (x.run r).1 = .error e ∧ e.IsMisfit) ∧
        (x.run r).2.moments.map untyped.of <:+ (y.run r').2.moments

theorem untyped_of_eq {c : Compilation} (h : c.options.typedConstraints = false) :
    untyped.of c = c := by
  obtain ⟨⟨typed, late⟩, schema, snapshotted, log⟩ := c
  cases h
  rfl

theorem Recording.current_of_moments {r r' : Recording} {f : Compilation → Compilation}
    (h : r'.moments = r.moments.map f) : r'.current = f r.current :=
  List.head_eq_of_cons_eq h

namespace Lenient

theorem pure {α : Type} (a : α) : Lenient (pure a) :=
  fun _ h => ⟨fun _ he => (by cases he), h, List.suffix_rfl⟩

theorem throw {α : Type} {e : SchemaError} (he : ¬ e.IsMisfit) :
    Lenient (throw e : Recorded α) :=
  fun _ h => ⟨fun _ heq => Except.error.inj heq ▸ he, h, List.suffix_rfl⟩

theorem bind {α β : Type} {x : Recorded α} {f : α → Recorded β} (hx : Lenient x)
    (hf : ∀ a, Lenient (f a)) : Lenient (x >>= f) := by
  intro r h
  have hrun := hx r h
  rw [run_bind]
  generalize x.run r = p at hrun
  obtain ⟨herror, huntyped, hmoments⟩ := hrun
  obtain ⟨e | a, r₁⟩ := p
  · exact ⟨fun _ he => herror _ (congrArg Except.error (Except.error.inj he)), huntyped, hmoments⟩
  · obtain ⟨herror', huntyped', hmoments'⟩ := hf a r₁ huntyped
    exact ⟨herror', huntyped', hmoments.trans hmoments'⟩

theorem get_bind {α : Type} {f : Compilation → Recorded α} (hf : ∀ c, Lenient (f (untyped.of c))) :
    Lenient (get >>= f) := by
  intro r h
  have hr := hf r.current r h
  rwa [untyped_of_eq h] at hr

theorem modify {f : Compilation → Compilation} (hf : ∀ c, f (untyped.of c) = untyped.of (f c)) :
    Lenient (modify f : Recorded Unit) := by
  intro r h
  refine ⟨fun _ he => (by cases he), ?_, List.suffix_cons _ _⟩
  show (f r.current).options.typedConstraints = false
  rw [← untyped_of_eq h, hf]
  rfl

end Lenient

namespace Anticipates

theorem pure {α : Type} (a : α) : Anticipates α (pure a) (pure a) :=
  ⟨.pure a, fun _ _ h => .inl ⟨rfl, h⟩⟩

theorem throw {α : Type} {e : SchemaError} (he : ¬ e.IsMisfit) :
    Anticipates α (throw e) (throw e) :=
  ⟨.throw he, fun _ _ h => .inl ⟨rfl, h⟩⟩

theorem bind {α β : Type} {x y : Recorded α} {f g : α → Recorded β} (hx : Anticipates α x y)
    (hf : ∀ a, Anticipates β (f a) (g a)) : Anticipates β (x >>= f) (y >>= g) := by
  have hg : ∀ a, Lenient (g a) := fun a => (hf a).1
  refine ⟨hx.1.bind hg, fun r r' h => ?_⟩
  have hcurrent : r'.current.options.typedConstraints = false := by
    rw [Recording.current_of_moments h]
    rfl
  have huntyped := (hx.1 r' hcurrent).2.1
  have hxy := hx.2 r r' h
  rw [run_bind, run_bind]
  generalize x.run r = p at hxy
  generalize y.run r' = q at hxy huntyped
  obtain ⟨_ | a, r₁⟩ := p <;> obtain ⟨_ | b, r₁'⟩ := q <;>
    obtain ⟨hresult, hmoments⟩ | ⟨⟨e, he, hmisfit⟩, hsuffix⟩ := hxy
  case error.error.inl => exact .inl ⟨congrArg Except.error (Except.error.inj hresult), hmoments⟩
  case error.error.inr =>
    exact .inr ⟨⟨e, congrArg Except.error (Except.error.inj he), hmisfit⟩, hsuffix⟩
  case error.ok.inl => cases hresult
  case error.ok.inr =>
    -- the second run may go on for long
    exact .inr ⟨⟨e, congrArg Except.error (Except.error.inj he), hmisfit⟩,
      hsuffix.trans (hg b r₁' huntyped).2.2⟩
  case ok.error.inl => cases hresult
  case ok.error.inr => cases he
  case ok.ok.inl =>
    cases hresult
    exact (hf a).2 r₁ r₁' hmoments
  case ok.ok.inr => cases he

theorem get_bind {α : Type} {f g : Compilation → Recorded α}
    (h : ∀ c, Anticipates α (f c) (g (untyped.of c))) :
    Anticipates α (get >>= f) (get >>= g) := by
  refine ⟨.get_bind fun c => (h c).1, fun r r' hr => ?_⟩
  have hrun := (h r.current).2 r r' hr
  rw [← Recording.current_of_moments hr] at hrun
  exact hrun

theorem modify {f : Compilation → Compilation} (hf : ∀ c, f (untyped.of c) = untyped.of (f c)) :
    Anticipates Unit (modify f) (modify f) := by
  refine ⟨.modify hf, fun r r' h => .inl ⟨rfl, ?_⟩⟩
  show f r'.current :: r'.moments = untyped.of (f r.current) :: r.moments.map untyped.of
  rw [Recording.current_of_moments h, hf, h]

theorem warnLate (dest : ScopeId) (name : Ident) :
    Anticipates Unit (warnLate dest name) (warnLate dest name) := by
  refine get_bind fun c => ?_
  rw [show (untyped.of c).schema.qualifiedName dest = _ from
    c.schema.qualifiedName_setWarnings _ dest]
  exact bind (modify (f := fun c => { c with log := c.log ++ [_] }) fun _ => rfl) fun _ =>
    modify (f := fun c => { c with schema := c.schema.addWarning _ }) fun _ => rfl

end Anticipates

theorem anticipates : untyped.Simulates Anticipates where
  log _ _ _ := rfl
  pure := .pure
  throw he := .throw fun ⟨p, name, value, type, h⟩ => he p name value type h
  bind := .bind
  get_bind := .get_bind
  modify := .modify
  late options snapshotted dest name := by
    rw [show (untyped.options options).lintLateFields = options.lintLateFields from rfl]
    split
    · exact .warnLate dest name
    · exact .pure _
  misfit options fits p name value type := by
    rw [show (untyped.options options).typedConstraints = false from rfl, Bool.false_and]
    unfold refuseIf
    rw [if_neg Bool.false_ne_true]
    split
    · exact ⟨.pure _, fun r r' h => .inr ⟨⟨_, rfl, p, name, value, type, rfl⟩, by
        show r.moments.map untyped.of <:+ r'.moments
        rw [h]⟩⟩
    · exact .pure _

/-! ## Options -/

/-- The result of a compilation is that of the recorded one, with the schema in the end. -/
theorem ofSources_eq_map (options : Options) (sources : List (String × String)) :
    ofSources options sources =
      (recorded options sources).1.map fun _ => (recorded options sources).2.current.schema := by
  rw [ofSources_eq_recorded]
  rcases recorded options sources with ⟨_ | ⟨⟩, _⟩ <;> rfl

theorem recorded_silent (typed : Bool) (sources : List (String × String)) :
    (recorded ⟨typed, false⟩ sources).1 = (recorded ⟨typed, true⟩ sources).1 ∧
      (recorded ⟨typed, false⟩ sources).2.current =
        silent.of (recorded ⟨typed, true⟩ sources).2.current := by
  obtain ⟨hresult, hstate⟩ := silences.addTexts sources
    ⟨.start ⟨typed, true⟩, []⟩ ⟨.start ⟨typed, false⟩, []⟩ rfl
  exact ⟨hresult.eq.symm, hstate⟩

theorem recorded_untyped (late : Bool) (sources : List (String × String)) :
    (∀ e, (recorded ⟨false, late⟩ sources).1 = .error e → ¬ e.IsMisfit) ∧
      (((recorded ⟨false, late⟩ sources).1 = (recorded ⟨true, late⟩ sources).1 ∧
          history ⟨false, late⟩ sources = (history ⟨true, late⟩ sources).map untyped.of) ∨
        (∃ e, (recorded ⟨true, late⟩ sources).1 = .error e ∧ e.IsMisfit) ∧
          (history ⟨true, late⟩ sources).map untyped.of <:+ history ⟨false, late⟩ sources) :=
  ⟨((anticipates.addTexts sources).1 ⟨.start ⟨false, late⟩, []⟩ rfl).1,
    (anticipates.addTexts sources).2 ⟨.start ⟨true, late⟩, []⟩ ⟨.start ⟨false, late⟩, []⟩ rfl⟩

/-- Without warnings about late fields the result is the same, but for the warnings, and so is the
state in the end. Without typed constraints the result is the same, unless a literal is refused for
its type where there are typed constraints; up to there the moments are the same, so that no other
error comes before. -/
theorem options_filter (sources : List (String × String)) :
    (∀ typed,
      ofSources ⟨typed, false⟩ sources =
        (ofSources ⟨typed, true⟩ sources).map (fun s => s.setWarnings []) ∧
      (history ⟨typed, false⟩ sources).head? =
        (history ⟨typed, true⟩ sources).head?.map silent.of) ∧
    ∀ late,
      (∀ s, ofSources ⟨true, late⟩ sources = .ok s → ofSources ⟨false, late⟩ sources = .ok s) ∧
      (∀ e, ofSources ⟨false, late⟩ sources = .error e → ¬ e.IsMisfit) ∧
      ((ofSources ⟨true, late⟩ sources = ofSources ⟨false, late⟩ sources ∧
          history ⟨false, late⟩ sources = (history ⟨true, late⟩ sources).map untyped.of) ∨
        (∃ e, ofSources ⟨true, late⟩ sources = .error e ∧ e.IsMisfit) ∧
          (history ⟨true, late⟩ sources).map untyped.of <:+ history ⟨false, late⟩ sources) := by
  refine ⟨fun typed => ?_, fun late => ?_⟩
  · obtain ⟨hresult, hstate⟩ := recorded_silent typed sources
    refine ⟨?_, congrArg some hstate⟩
    rw [ofSources_eq_map, ofSources_eq_map, hresult, hstate]
    cases (recorded ⟨typed, true⟩ sources).1 <;> rfl
  · obtain ⟨hlenient, hruns⟩ := recorded_untyped late sources
    have hlenient' : ∀ e, ofSources ⟨false, late⟩ sources = .error e → ¬ e.IsMisfit := by
      intro e he
      rw [ofSources_eq_map] at he
      cases hresult : (recorded ⟨false, late⟩ sources).1 with
      | error found =>
        rw [hresult] at he
        cases he
        exact hlenient e hresult
      | ok _ =>
        rw [hresult] at he
        cases he
    obtain ⟨hresult, hmoments⟩ | ⟨⟨e, he, hmisfit⟩, hsuffix⟩ := hruns
    · have hschema := congrArg Compilation.schema (Recording.current_of_moments hmoments)
      have hsame : ofSources ⟨true, late⟩ sources = ofSources ⟨false, late⟩ sources := by
        rw [ofSources_eq_map, ofSources_eq_map, hresult, hschema]
        rfl
      exact ⟨fun s hs => hsame.symm.trans hs, hlenient', .inl ⟨hsame, hmoments⟩⟩
    · have herror : ofSources ⟨true, late⟩ sources = .error e := by
        rw [ofSources_eq_map, he]
        rfl
      refine ⟨fun s hs => ?_, hlenient', .inr ⟨⟨e, herror, hmisfit⟩, hsuffix⟩⟩
      rw [herror] at hs
      cases hs

/-- A text in place of a byte is refused, or taken as it is. -/
example :
    ofSources ⟨true, true⟩ [("t", "type s \x7b x : byte; x = 'a'; \x7d;")] =
        .error (.constraintType ⟨"t", ⟨1, 20⟩⟩ "x" (.text "a") "byte") ∧
      (ofSources ⟨false, true⟩
        [("t", "type s \x7b x : byte; x = 'a'; \x7d;")]).toOption.isSome := by
  decide +kernel

end Compilation

end PacketSchema
