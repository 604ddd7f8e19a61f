import Mathlib
import PacketSchema.Text.Basic
import PacketSchema.Token.Spot

/-! Texts that have the same characters but for the white space around their line feeds. What stands
at the end of both texts is kept apart, as there need not be a line feed in it. -/

namespace PacketSchema.Text

/-- Only white space. -/
def Blank (cs : List Char) : Prop := ∀ c ∈ cs, isBlank c = true

/-- Only white space of the kinds that may stand between tokens. -/
def Spaces (cs : List Char) : Prop := ∀ c ∈ cs, Spot.isSpace c = true

/-- No character but white space stands at the head. -/
def BlankHead (cs : List Char) : Prop := ∀ c ∈ cs.head?, isBlank c = true

theorem Blank.append {b c : List Char} (hb : Blank b) (hc : Blank c) : Blank (b ++ c) :=
  fun x hx => (List.mem_append.1 hx).elim (hb x) (hc x)

theorem Spaces.append {b c : List Char} (hb : Spaces b) (hc : Spaces c) : Spaces (b ++ c) :=
  fun x hx => (List.mem_append.1 hx).elim (hb x) (hc x)

theorem Blank.blankHead {b : List Char} (h : Blank b) : BlankHead b :=
  fun c hc => h c (List.mem_of_mem_head? hc)

theorem BlankHead.append {b cs : List Char} (h : Blank b) (hne : b ≠ []) :
    BlankHead (b ++ cs) := by
  intro c hc
  rw [List.head?_append_of_ne_nil b hne] at hc
  exact h.blankHead c hc

theorem isBlank_of_isSpace {c : Char} (h : Spot.isSpace c = true) : isBlank c = true := by
  simp only [Spot.isSpace, List.contains_cons, List.contains_nil, Bool.or_false, Bool.or_eq_true,
    beq_iff_eq] at h
  rcases h with rfl | rfl | rfl | rfl <;> rfl

theorem Spaces.blank {cs : List Char} (h : Spaces cs) : Blank cs :=
  fun c hc => isBlank_of_isSpace (h c hc)

theorem spaces_feed : Spaces ['\n'] := by simp [Spaces, Spot.isSpace]

/-- White space around line feeds has become other white space with line feeds in it, and the tail
of the text has become another tail. -/
inductive Reflowed (tail tail' : List Char) : List Char → List Char → Prop
  | stop : Blank tail → Spaces tail' → Reflowed tail tail' tail tail'
  | keep (c : Char) {cs cs' : List Char} : Reflowed tail tail' cs cs' →
      Reflowed tail tail' (c :: cs) (c :: cs')
  | gap {b b' cs cs' : List Char} : Blank b → Spaces b' → '\n' ∈ b → '\n' ∈ b' →
      Reflowed tail tail' cs cs' → Reflowed tail tail' (b ++ cs) (b' ++ cs')

namespace Reflowed

variable {tail tail' cs cs' : List Char}

theorem append_left (h : Reflowed tail tail' cs cs') (front : List Char) :
    Reflowed tail tail' (front ++ cs) (front ++ cs') := by
  induction front with
  | nil => exact h
  | cons c front ih => exact .keep c ih

theorem refl (cs : List Char) : Reflowed [] [] cs cs := by
  have hnil : Reflowed [] [] [] [] := stop (by simp [Blank]) (by simp [Spaces])
  simpa using hnil.append_left cs

/-- A line behind a gap, of which the white space at its head becomes part. -/
theorem line {b b' front front' : List Char} (hb : Blank b) (hb' : Spaces b') (hn : '\n' ∈ b)
    (hn' : '\n' ∈ b') (hfront : Blank front) (hfront' : Spaces front') (inner : List Char)
    (h : Reflowed tail tail' cs cs') :
    Reflowed tail tail' (b ++ (front ++ inner ++ cs)) (b' ++ (front' ++ (inner ++ cs'))) := by
  simpa using gap (hb.append hfront) (hb'.append hfront') (List.mem_append_left _ hn)
    (List.mem_append_left _ hn') (h.append_left inner)

/-- Without a line feed nothing changes. -/
theorem eq_of_not_mem (h : Reflowed [] [] cs cs') (hcs : '\n' ∉ cs) : cs = cs' := by
  induction h with
  | stop _ _ => rfl
  | keep c _ ih => rw [ih fun hmem => hcs (.tail _ hmem)]
  | gap _ _ hb => exact absurd (List.mem_append_left _ hb) hcs

/-- The texts start with the same character, or both with white space or not at all. -/
theorem heads (h : Reflowed tail tail' cs cs') :
    (∃ c ds ds', cs = c :: ds ∧ cs' = c :: ds' ∧ Reflowed tail tail' ds ds') ∨
      BlankHead cs ∧ BlankHead cs' := by
  cases h with
  | stop ht ht' => exact .inr ⟨ht.blankHead, ht'.blank.blankHead⟩
  | keep c h => exact .inl ⟨c, _, _, rfl, rfl, h⟩
  | gap hb hb' hn hn' h =>
    exact .inr ⟨.append hb (List.ne_nil_of_mem hn), .append hb'.blank (List.ne_nil_of_mem hn')⟩

theorem takeWhile_of_blankHead {p : Char → Bool} (hp : ∀ c, isBlank c = true → p c = false)
    (h : BlankHead cs) : cs.takeWhile p = [] ∧ cs.dropWhile p = cs := by
  cases cs with
  | nil => exact ⟨rfl, rfl⟩
  | cons c cs =>
    have hc : p c = false := hp c (h c rfl)
    simp [hc]

/-- A run of characters that are no white space is the same at the head of both texts. -/
theorem run {p : Char → Bool} (hp : ∀ c, isBlank c = true → p c = false)
    (h : Reflowed tail tail' cs cs') :
    cs.takeWhile p = cs'.takeWhile p ∧
      Reflowed tail tail' (cs.dropWhile p) (cs'.dropWhile p) := by
  induction h with
  | stop ht ht' =>
    obtain ⟨hx, hy⟩ := takeWhile_of_blankHead hp ht.blankHead
    obtain ⟨hx', hy'⟩ := takeWhile_of_blankHead hp ht'.blank.blankHead
    rw [hx, hx', hy, hy']
    exact ⟨rfl, stop ht ht'⟩
  | keep c h ih =>
    by_cases hc : p c = true
    · rw [List.takeWhile_cons_of_pos hc, List.takeWhile_cons_of_pos hc,
        List.dropWhile_cons_of_pos hc, List.dropWhile_cons_of_pos hc]
      exact ⟨congrArg (c :: ·) ih.1, ih.2⟩
    · rw [List.takeWhile_cons_of_neg hc, List.takeWhile_cons_of_neg hc,
        List.dropWhile_cons_of_neg hc, List.dropWhile_cons_of_neg hc]
      exact ⟨rfl, keep c h⟩
  | gap hb hb' hn hn' h _ =>
    obtain ⟨hx, hy⟩ := takeWhile_of_blankHead hp (.append hb (List.ne_nil_of_mem hn))
    obtain ⟨hx', hy'⟩ := takeWhile_of_blankHead hp (.append hb'.blank (List.ne_nil_of_mem hn'))
    rw [hx, hx', hy, hy']
    exact ⟨rfl, gap hb hb' hn hn' h⟩

end Reflowed

/-! ## Lines -/

theorem lines_eq_nil {cs : List Char} : lines cs = [] ↔ cs = [] := by
  fun_cases lines cs <;> simp_all

/-- The first line of a text ends at a line feed, or it is all of the text. -/
theorem lines_cases (cs : List Char) :
    cs = [] ∨
      (∃ line ending rest, cs = line ++ ending ++ rest ∧ Blank ending ∧ '\n' ∈ ending ∧
        lines cs = line :: lines rest) ∨
      lines cs = [cs] := by
  fun_induction lines cs with
  | case1 => exact .inl rfl
  | case2 rest => exact .inr (.inl ⟨[], ['\n'], rest, rfl, spaces_feed.blank, by simp, rfl⟩)
  | case3 rest =>
    have hending : Spaces ['\r', '\n'] := by simp [Spaces, Spot.isSpace]
    exact .inr (.inl ⟨[], ['\r', '\n'], rest, rfl, hending.blank, by simp, rfl⟩)
  | case4 c rest _ _ hnil _ => simp [lines_eq_nil.1 hnil]
  | case5 c rest _ _ line others hlines ih =>
    obtain rfl | ⟨first, ending, behind, rfl, hblank, hn, heq⟩ | heq := ih
    · cases hlines
    · rw [hlines] at heq
      cases heq
      exact .inr (.inl ⟨c :: line, ending, behind, rfl, hblank, hn, rfl⟩)
    · rw [hlines] at heq
      cases heq
      exact .inr (.inr rfl)

theorem trim_split (line : List Char) :
    ∃ front back, line = front ++ trim line ++ back ∧ Blank front ∧ Blank back := by
  refine ⟨line.takeWhile isBlank, ((trimStart line).reverse.takeWhile isBlank).reverse,
    ?_, ?_, ?_⟩
  · have hend : trim line ++ ((trimStart line).reverse.takeWhile isBlank).reverse =
        trimStart line := by
      unfold trim trimEnd
      rw [← List.reverse_append, List.takeWhile_append_dropWhile, List.reverse_reverse]
    rw [List.append_assoc, hend]
    exact List.takeWhile_append_dropWhile.symm
  · exact fun c hc => List.all_eq_true.1 List.all_takeWhile c hc
  · exact fun c hc => List.all_eq_true.1 List.all_takeWhile c (List.mem_reverse.1 hc)

/-- Lines with a line feed behind each of them. -/
def ended (ls : List (List Char)) : List Char := ls.flatMap (· ++ ['\n'])

theorem unlines_eq_ended {ls : List (List Char)} (h : ls ≠ []) : unlines ls = ended ls := by
  unfold unlines join
  induction ls with
  | nil => exact absurd rfl h
  | cons line ls ih =>
    cases ls with
    | nil => simp [List.intercalate, ended]
    | cons next ls =>
      have hrest := ih (by simp)
      simp [List.intercalate, ended] at hrest ⊢
      rw [hrest]

end PacketSchema.Text
