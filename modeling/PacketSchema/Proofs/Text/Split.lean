import PacketSchema.Proofs.Declaration.Undotted

/-! Cutting what was joined gives the pieces back, as long as the separator is in none of them. So
the text of a path of names is read as the same path. -/

namespace PacketSchema

namespace Text

theorem splitAll_of_not_mem {separator : Char} {piece : List Char} (h : separator ∉ piece) :
    splitAll separator piece = [piece] := by
  induction piece with
  | nil => rfl
  | cons c cs ih =>
    have hne : c ≠ separator := fun heq => h (heq ▸ List.mem_cons_self)
    simp [splitAll, hne, ih fun hmem => h (.tail _ hmem)]

theorem splitAll_ne_nil (separator : Char) (cs : List Char) : splitAll separator cs ≠ [] := by
  cases cs with
  | nil => simp [splitAll]
  | cons c cs =>
    unfold splitAll
    split_ifs
    · simp
    · split <;> simp

/-- A separator between two texts cuts them apart, whatever they contain. -/
theorem splitAll_append_separator (separator : Char) (piece rest : List Char) :
    splitAll separator (piece ++ separator :: rest) =
      splitAll separator piece ++ splitAll separator rest := by
  induction piece with
  | nil => simp [splitAll]
  | cons c cs ih =>
    obtain ⟨first, others, hsplit⟩ := List.exists_cons_of_ne_nil (splitAll_ne_nil separator cs)
    simp only [List.cons_append, splitAll, ih, hsplit]
    split_ifs <;> rfl

theorem splitAll_append {separator : Char} {piece : List Char} (h : separator ∉ piece)
    (rest : List Char) :
    splitAll separator (piece ++ separator :: rest) = piece :: splitAll separator rest := by
  rw [splitAll_append_separator, splitAll_of_not_mem h, List.singleton_append]

theorem splitAll_join {separator : Char} {pieces : List (List Char)} (hne : pieces ≠ [])
    (h : ∀ piece ∈ pieces, separator ∉ piece) :
    splitAll separator (join separator pieces) = pieces := by
  induction pieces with
  | nil => exact absurd rfl hne
  | cons piece pieces ih =>
    cases pieces with
    | nil => simpa [join, List.intercalate] using splitAll_of_not_mem (h piece (by simp))
    | cons next pieces =>
      have hjoin : join separator (piece :: next :: pieces) =
          piece ++ separator :: join separator (next :: pieces) := by
        simp [join, List.intercalate]
      rw [hjoin, splitAll_append (h piece (by simp)),
        ih (by simp) fun other hother => h other (.tail _ hother)]

end Text

namespace Path

theorem ofText_ne_nil (text : String) : ofText text ≠ [] := by
  simpa [ofText] using Text.splitAll_ne_nil '.' text.toList

theorem ofText_append_dot (p q : String) : ofText (p ++ "." ++ q) = ofText p ++ ofText q := by
  have htext : (p ++ "." ++ q).toList = p.toList ++ '.' :: q.toList := by simp
  rw [ofText, htext, Text.splitAll_append_separator, List.map_append]
  rfl

theorem ofText_text {path : Path} (hne : path ≠ []) (h : ∀ name ∈ path, Undotted name) :
    ofText path.text = path := by
  unfold ofText text
  rw [String.toList_ofList, Text.splitAll_join (by simpa using hne)]
  · simp [Function.comp_def]
  · intro piece hpiece
    obtain ⟨name, hname, rfl⟩ := List.mem_map.1 hpiece
    exact h name hname

end Path

end PacketSchema
