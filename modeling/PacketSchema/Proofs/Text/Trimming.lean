import PacketSchema.Proofs.Text.Reflow

/-! Trimming, and lines that are read back. What has been trimmed has no white space at its ends, so
trimming it again changes nothing, and white space in front of it is all the white space that is
trimmed off again. -/

namespace PacketSchema.Text

theorem Blank.nil : Blank [] := by simp [Blank]

theorem Blank.dropWhile {b : List Char} (h : Blank b) : b.dropWhile isBlank = [] :=
  List.dropWhile_eq_nil_iff.2 h

theorem Blank.reverse {b : List Char} (h : Blank b) : Blank b.reverse :=
  fun c hc => h c (List.mem_reverse.1 hc)

theorem Blank.not_mem {b : List Char} (h : Blank b) {c : Char} (hc : isBlank c = false) :
    c ∉ b := by
  intro hmem
  rw [h c hmem] at hc
  cases hc

theorem trimStart_append {b : List Char} (h : Blank b) (cs : List Char) :
    trimStart (b ++ cs) = trimStart cs := by
  unfold trimStart
  rw [List.dropWhile_append, h.dropWhile]
  rfl

theorem trimEnd_trimEnd (cs : List Char) : trimEnd (trimEnd cs) = trimEnd cs := by
  unfold trimEnd
  rw [List.reverse_reverse, List.dropWhile_idempotent]

/-- What is trimmed off at the end is white space. -/
theorem trimEnd_split (cs : List Char) : ∃ b, cs = trimEnd cs ++ b ∧ Blank b := by
  refine ⟨(cs.reverse.takeWhile isBlank).reverse, ?_, ?_⟩
  · unfold trimEnd
    rw [← List.reverse_append, List.takeWhile_append_dropWhile, List.reverse_reverse]
  · exact Blank.reverse fun c hc => List.all_eq_true.1 List.all_takeWhile c hc

theorem trimStart_split (line : List Char) : ∃ b, trimStart line = trim line ++ b ∧ Blank b :=
  trimEnd_split (trimStart line)

theorem isBlank_head_trimStart {line cs : List Char} {c : Char} (h : trimStart line = c :: cs) :
    isBlank c = false := by
  have hhead := List.head?_dropWhile_not isBlank line
  unfold trimStart at h
  rw [h] at hhead
  exact hhead

/-- What is left of a line starts with no white space. -/
theorem isBlank_head_trim {line cs : List Char} {c : Char} (h : trim line = c :: cs) :
    isBlank c = false := by
  obtain ⟨b, heq, -⟩ := trimStart_split line
  rw [h] at heq
  exact isBlank_head_trimStart heq

/-- White space in front of a line that has been trimmed is what is trimmed off. -/
theorem trimStart_append_trim {b line : List Char} (hb : Blank b) (h : trim line ≠ []) :
    trimStart (b ++ trim line) = trim line := by
  obtain ⟨c, cs, heq⟩ := List.exists_cons_of_ne_nil h
  rw [trimStart_append hb, heq]
  exact List.dropWhile_cons_of_neg (by simp [isBlank_head_trim heq])

theorem takeWhile_append_trim {b line : List Char} (hb : Blank b) (h : trim line ≠ []) :
    (b ++ trim line).takeWhile isBlank = b := by
  obtain ⟨c, cs, heq⟩ := List.exists_cons_of_ne_nil h
  rw [List.takeWhile_append_of_pos hb, heq,
    List.takeWhile_cons_of_neg (by simp [isBlank_head_trim heq]), List.append_nil]

theorem trimEnd_trim (line : List Char) : trimEnd (trim line) = trim line :=
  trimEnd_trimEnd (trimStart line)

theorem trim_append_trim {b line : List Char} (hb : Blank b) (h : trim line ≠ []) :
    trim (b ++ trim line) = trim line := by
  rw [trim, trimStart_append_trim hb h, trimEnd_trim]

theorem trimEnd_append_trim (b : List Char) {line : List Char} (h : trim line ≠ []) :
    trimEnd (b ++ trim line) = b ++ trim line := by
  have hne : ((trim line).reverse.dropWhile isBlank) ≠ [] := by
    intro hnil
    have heq := trimEnd_trim line
    unfold trimEnd at heq
    rw [hnil] at heq
    exact h heq.symm
  have heq := trimEnd_trim line
  unfold trimEnd at heq ⊢
  rw [List.reverse_append, List.dropWhile_append, List.isEmpty_eq_false_iff.2 hne]
  simp [heq]

/-! ## Lines that are read back -/

/-- A line that stays one when it is written and read again: it has no line feed, and no carriage
return that would go with the line feed behind it. -/
structure Whole (line : List Char) : Prop where
  feed : '\n' ∉ line
  carriage : line.getLast? ≠ some '\r'

theorem Whole.nil : Whole [] := ⟨by simp, by simp⟩

theorem lines_append {line : List Char} (h : Whole line) (rest : List Char) :
    lines (line ++ '\n' :: rest) = line :: lines rest := by
  induction line with
  | nil => simp [lines]
  | cons c cs ih =>
    have hfeed : '\n' ∉ cs := fun hmem => h.feed (.tail _ hmem)
    have hc : c ≠ '\n' := fun heq => h.feed (heq ▸ List.mem_cons_self)
    cases cs with
    | nil =>
      have hr : c ≠ '\r' := fun heq => h.carriage (by simp [heq])
      simp [lines, hr]
    | cons d ds =>
      have hd : d ≠ '\n' := fun heq => hfeed (heq ▸ List.mem_cons_self)
      have hrest := ih ⟨hfeed, by simpa using h.carriage⟩
      simp [lines, hd] at hrest ⊢
      simp [hrest]

theorem lines_ended {ls : List (List Char)} (h : ∀ line ∈ ls, Whole line) :
    lines (ended ls) = ls := by
  induction ls with
  | nil => rfl
  | cons line ls ih =>
    obtain ⟨hline, hls⟩ := List.forall_mem_cons.1 h
    have heq : ended (line :: ls) = line ++ '\n' :: ended ls := by simp [ended]
    rw [heq, lines_append hline, ih hls]

theorem not_mem_of_mem_lines {cs line : List Char} (h : line ∈ lines cs) : '\n' ∉ line := by
  fun_induction lines cs generalizing line with
  | case1 => cases h
  | case2 rest ih =>
    obtain rfl | h := List.mem_cons.1 h
    · simp
    · exact ih h
  | case3 rest ih =>
    obtain rfl | h := List.mem_cons.1 h
    · simp
    · exact ih h
  | case4 c rest hfeed _ hnil _ =>
    obtain rfl := List.mem_singleton.1 h
    simpa using Ne.symm hfeed
  | case5 c rest hfeed _ first others hlines ih =>
    rw [hlines] at ih
    obtain rfl | h := List.mem_cons.1 h
    · have hfirst := ih List.mem_cons_self
      simpa using ⟨Ne.symm hfeed, hfirst⟩
    · exact ih (.tail _ h)

end PacketSchema.Text
