import PacketSchema.Compilation.Files
import PacketSchema.Proofs.Running

/-! Recorded compilations. The steps of a compilation are run in a monad that keeps every state, so
that what held at an earlier moment can be said of the schema in the end. -/

namespace PacketSchema

/-- The state of a compilation and all the states before it, the latest first. -/
structure Recording where
  current : Compilation
  past : List Compilation := []

namespace Recording

def push (r : Recording) (c : Compilation) : Recording := ⟨c, r.current :: r.past⟩

def moments (r : Recording) : List Compilation := r.current :: r.past

end Recording

namespace Compilation

abbrev Recorded := ExceptT SchemaError (StateM Recording)

instance : MonadStateOf Compilation (StateM Recording) where
  get r := (r.current, r)
  set c r := (⟨⟩, r.push c)
  modifyGet f r := ((f r.current).1, r.push (f r.current).2)

section

variable {α : Type} (c : Compilation)

theorem run_refuseIf {p : Prop} [Decidable p] (h : ¬ p) (e : SchemaError) :
    (refuseIf p e : Build Unit).run c = (.ok (), c) := by
  unfold refuseIf
  rw [if_neg h]
  rfl

theorem run_refuseIf_bind {p : Prop} [Decidable p] (e : SchemaError) (f : Unit → Build α) :
    (refuseIf p e >>= f).run c = if p then (.error e, c) else (f ()).run c := by
  unfold refuseIf
  split <;> rfl

theorem run_anchor {d : ScopeId} {name : Option String} {a : Anchor}
    (h : climb none (name.map ([·])) (c.schema.chain d) = some a) (p : Position) :
    (anchor d name p : Build Anchor).run c = (.ok a, c) := by
  unfold anchor
  rw [run_get_bind, h]
  rfl

end

/-- The recorded compilation of sources. -/
def recorded (options : Options) (sources : List (String × String)) :
    Except SchemaError Unit × Recording :=
  (addTexts sources : Recorded Unit).run ⟨.start options, []⟩

theorem addTexts_append (sources later : List (String × String)) :
    (addTexts (sources ++ later) : Recorded Unit) =
      addTexts sources >>= fun _ => addTexts later := by
  induction sources with
  | nil => exact (pure_bind _ _).symm
  | cons entry sources ih =>
    obtain ⟨source, text⟩ := entry
    simp only [List.cons_append, addTexts, ih, bind_assoc]

/-- After a success the compilation of more sources goes on from where it is. -/
theorem recorded_append {options : Options} {sources : List (String × String)} {r : Recording}
    (h : recorded options sources = (.ok (), r)) (later : List (String × String)) :
    recorded options (sources ++ later) = (addTexts later : Recorded Unit).run r := by
  unfold recorded at h ⊢
  rw [addTexts_append, run_bind, h]

end Compilation

end PacketSchema
