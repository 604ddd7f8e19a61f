import Mathlib
import PacketSchema.Error

/-! Computations that change a state and can fail, and how such computations on states of two kinds
correspond. -/

namespace PacketSchema

variable {ε σ τ : Type} {α β γ δ : Type}

theorem run_bind (x : ExceptT ε (StateM σ) α) (f : α → ExceptT ε (StateM σ) β) (s : σ) :
    (x >>= f).run s = match x.run s with
      | (.ok a, s') => (f a).run s'
      | (.error e, s') => (.error e, s') := by
  have h : (x >>= f).run s = (ExceptT.bindCont f (x.run s).1) (x.run s).2 := rfl
  rw [h]
  rcases x.run s with ⟨e | a, s'⟩ <;> rfl

theorem run_get_bind (f : σ → ExceptT ε (StateM σ) α) (s : σ) :
    (get >>= f).run s = (f s).run s := rfl

/-- From the image of a state the second computation comes to the images of what the first one
comes to from the state. -/
def Carries (state : σ → τ) (error : ε → ε) (value : α → β) (x : ExceptT ε (StateM σ) α)
    (y : ExceptT ε (StateM τ) β) : Prop :=
  ∀ s, y.run (state s) = (((x.run s).1.mapError error).map value, state (x.run s).2)

namespace Carries

variable {state : σ → τ} {error : ε → ε} {value : α → β}

theorem pure (a : α) : Carries state error value (pure a) (pure (value a)) := fun _ => rfl

theorem throw (e : ε) : Carries state error value (throw e) (throw (error e)) := fun _ => rfl

theorem bind {x : ExceptT ε (StateM σ) α} {y : ExceptT ε (StateM τ) β}
    {f : α → ExceptT ε (StateM σ) γ} {g : β → ExceptT ε (StateM τ) δ} {value' : γ → δ}
    (h : Carries state error value x y)
    (hf : ∀ a, Carries state error value' (f a) (g (value a))) :
    Carries state error value' (x >>= f) (y >>= g) := by
  intro s
  rw [run_bind, run_bind, h s]
  rcases x.run s with ⟨e | a, s'⟩
  · rfl
  · exact hf a s'

end Carries

/-- Both results are values that belong together, or errors that belong together. -/
inductive Paired (E : ε → ε → Prop) (R : α → β → Prop) : Except ε α → Except ε β → Prop
  | ok {a : α} {b : β} (h : R a b) : Paired E R (.ok a) (.ok b)
  | error {e e' : ε} (h : E e e') : Paired E R (.error e) (.error e')

/-- From states that belong together the computations come to results and to states that do. -/
def Relates (S : σ → τ → Prop) (E : ε → ε → Prop) (R : α → β → Prop) (x : ExceptT ε (StateM σ) α)
    (y : ExceptT ε (StateM τ) β) : Prop :=
  ∀ s t, S s t → Paired E R (x.run s).1 (y.run t).1 ∧ S (x.run s).2 (y.run t).2

namespace Relates

variable {S : σ → τ → Prop} {E : ε → ε → Prop} {R : α → β → Prop} {Q : γ → δ → Prop}

theorem pure {a : α} {b : β} (h : R a b) : Relates S E R (pure a) (pure b) :=
  fun _ _ hs => ⟨.ok h, hs⟩

theorem throw {e e' : ε} (h : E e e') : Relates S E R (throw e) (throw e') :=
  fun _ _ hs => ⟨.error h, hs⟩

theorem bind {x : ExceptT ε (StateM σ) α} {y : ExceptT ε (StateM τ) β}
    {f : α → ExceptT ε (StateM σ) γ} {g : β → ExceptT ε (StateM τ) δ} (h : Relates S E R x y)
    (hf : ∀ a b, R a b → Relates S E Q (f a) (g b)) : Relates S E Q (x >>= f) (y >>= g) := by
  intro s t hs
  have hxy := h s t hs
  rw [run_bind, run_bind]
  generalize x.run s = p at hxy
  generalize y.run t = q at hxy
  obtain ⟨e | a, s'⟩ := p <;> obtain ⟨e' | b, t'⟩ := q <;> obtain ⟨hresult, hs'⟩ := hxy <;>
    cases hresult
  · exact ⟨.error ‹_›, hs'⟩
  · exact hf a b ‹_› s' t' hs'

theorem get_bind {f : σ → ExceptT ε (StateM σ) γ} {g : τ → ExceptT ε (StateM τ) δ}
    (h : ∀ s t, S s t → Relates S E Q (f s) (g t)) : Relates S E Q (get >>= f) (get >>= g) :=
  fun s t hs => h s t hs s t hs

theorem modify {f : σ → σ} {g : τ → τ} (h : ∀ s t, S s t → S (f s) (g t)) :
    Relates S E Eq (modify f) (modify g) :=
  fun s t hs => ⟨.ok rfl, h s t hs⟩

end Relates

end PacketSchema
