import Mathlib
import PacketSchema.WireType.Basic

/-! The cache of applied types gives every type one number. The index is the inverse of the list of
types, and types keep their numbers. -/

namespace PacketSchema.TypeCache

/-- A type has a number in the index if and only if it stands there in the list. -/
def Inverse (c : TypeCache) : Prop := ∀ t id, c.find? t = some id ↔ c.get? id = some t

variable {c : TypeCache}

theorem inverse_empty : Inverse {} := by
  intro t id
  constructor
  · intro h
    cases h
  · intro h
    simp [get?] at h

theorem intern_of_found {t : ParamType} {id : ParamId} (h : c.find? t = some id) :
    c.intern t = (id, c) := by
  unfold intern
  rw [h]

theorem intern_of_new {t : ParamType} (h : c.find? t = none) :
    c.intern t = (⟨c.size⟩, ⟨c.types ++ [t], c.index.insert t ⟨c.size⟩⟩) := by
  unfold intern
  rw [h]

theorem types_prefix_intern (c : TypeCache) (t : ParamType) :
    c.types <+: (c.intern t).2.types := by
  cases h : c.find? t with
  | some id => rw [intern_of_found h]
  | none =>
    rw [intern_of_new h]
    exact List.prefix_append _ _

theorem get?_of_prefix {c' : TypeCache} (h : c.types <+: c'.types) {id : ParamId} {t : ParamType}
    (ht : c.get? id = some t) : c'.get? id = some t := by
  obtain ⟨more, hmore⟩ := h
  unfold get? at ht ⊢
  have hlt := (List.getElem?_eq_some_iff.1 ht).1
  rw [← hmore, List.getElem?_append_left hlt, ht]

theorem get?_concat (t : ParamType) (index : Table ParamType ParamId) (id : ParamId) :
    get? ⟨c.types ++ [t], index⟩ id = if id = ⟨c.size⟩ then some t else c.get? id := by
  obtain ⟨i⟩ := id
  by_cases hid : i = c.types.length
  · subst hid
    simp [get?, size]
  · have hne : (⟨i⟩ : ParamId) ≠ ⟨c.size⟩ := fun heq => hid (congrArg ParamId.index heq)
    simp only [if_neg hne, get?, List.getElem?_append]
    split
    · rfl
    · rw [List.getElem?_eq_none (by simp; omega), List.getElem?_eq_none (by omega)]

theorem get?_size (c : TypeCache) : c.get? ⟨c.size⟩ = none :=
  List.getElem?_eq_none (Nat.le_refl _)

theorem Inverse.intern (h : c.Inverse) (t : ParamType) : (c.intern t).2.Inverse := by
  cases hfound : c.find? t with
  | some id => rwa [intern_of_found hfound]
  | none =>
    rw [intern_of_new hfound]
    intro u id
    rw [get?_concat]
    unfold find?
    rw [Table.find?_insert]
    by_cases hid : id = ⟨c.size⟩
    · subst hid
      have hold : c.index.find? u ≠ some ⟨c.size⟩ := by
        intro heq
        have hget := (h u _).1 heq
        rw [get?_size] at hget
        cases hget
      by_cases htu : t = u <;> simp [htu, hold]
    · have hother : t = u → c.get? id ≠ some u := by
        rintro rfl hget
        rw [(h t id).2 hget] at hfound
        cases hfound
      rw [if_neg hid]
      by_cases htu : t = u
      · simp [htu, hother htu, Ne.symm hid]
      · rw [if_neg htu]
        exact h u id

end PacketSchema.TypeCache
