import PacketSchema.Proofs.Text.Reflow
import PacketSchema.Style.Check

/-! Indenting a text changes nothing but the white space around its line feeds. -/

namespace PacketSchema.Style

open Text

theorem spaces_tabs (n : Nat) : Spaces (List.replicate n '\t') := by
  intro c hc
  rw [List.eq_of_mem_replicate hc]
  rfl

theorem indented_ne_nil {depth : Int} {ls : List (List Char)} (h : ls ≠ []) :
    indented depth ls ≠ [] := by
  cases ls with
  | nil => exact absurd rfl h
  | cons line rest =>
    unfold indented
    dsimp only
    split <;> simp

theorem indented_blank {line : List Char} (h : trim line = []) (depth : Int)
    (rest : List (List Char)) :
    ended (indented depth (line :: rest)) = '\n' :: ended (indented depth rest) := by
  simp [indented, h, ended]

theorem indented_cons {line : List Char} (h : trim line ≠ []) (depth : Int)
    (rest : List (List Char)) :
    ∃ front next, Spaces front ∧ ended (indented depth (line :: rest)) =
      front ++ (trim line ++ ('\n' :: ended (indented next rest))) := by
  refine ⟨_, depth + braceBalance (content (trim line)),
    spaces_tabs (tabs depth (content (trim line))), ?_⟩
  simp [indented, h, ended]

/-- Behind a gap, indented lines are a text with other gaps. The gap is open at its end, where the
white space of the first line goes on. -/
theorem reflowed_indented {b b' : List Char} (hb : Blank b) (hb' : Spaces b') (hn : '\n' ∈ b)
    (hn' : '\n' ∈ b') (cs : List Char) (depth : Int) :
    ∃ tail tail', Reflowed tail tail' (b ++ cs) (b' ++ ended (indented depth (lines cs))) := by
  induction hlen : cs.length using Nat.strong_induction_on generalizing cs b b' depth with
  | _ n ih =>
    obtain rfl | ⟨line, ending, rest, rfl, hending, hnending, hlines⟩ | hlines := lines_cases cs
    · exact ⟨b, b', by simpa [lines, indented, ended] using Reflowed.stop hb hb'⟩
    · have hlt : rest.length < n := by
        have hpos := List.length_pos_of_mem hnending
        simp only [List.length_append] at hlen
        omega
      rw [hlines]
      obtain ⟨front, back, hline, hfront, hback⟩ := trim_split line
      by_cases hblank : trim line = []
      · rw [indented_blank hblank]
        have hb₂ : Blank (b ++ (front ++ back) ++ ending) :=
          (hb.append (hfront.append hback)).append hending
        obtain ⟨tail, tail', h⟩ := ih _ hlt hb₂ (hb'.append spaces_feed)
          (List.mem_append_right _ hnending) (by simp) rest depth rfl
        refine ⟨tail, tail', ?_⟩
        rw [hline, hblank]
        simpa using h
      · obtain ⟨front', next, hfront', heq⟩ := indented_cons hblank depth (lines rest)
        obtain ⟨tail, tail', h⟩ := ih _ hlt (hback.append hending) spaces_feed
          (List.mem_append_right _ hnending) (by simp) rest next rfl
        refine ⟨tail, tail', ?_⟩
        have hgap := h.line hb hb' hn hn' hfront hfront' (trim line)
        rw [heq]
        generalize trim line = inner at hline hgap
        subst line
        simpa using hgap
    · rw [hlines]
      obtain ⟨front, back, hline, hfront, hback⟩ := trim_split cs
      by_cases hblank : trim cs = []
      · rw [indented_blank hblank]
        have hcs : Blank cs := by
          rw [hline, hblank]
          simpa using hfront.append hback
        refine ⟨b ++ cs, b' ++ ['\n'], ?_⟩
        simpa [indented, ended] using
          Reflowed.stop (hb.append hcs) (hb'.append spaces_feed)
      · obtain ⟨front', next, hfront', heq⟩ := indented_cons hblank depth []
        refine ⟨back, ['\n'], ?_⟩
        have hgap :=
          (Reflowed.stop hback spaces_feed).line hb hb' hn hn' hfront hfront' (trim cs)
        rw [heq]
        generalize trim cs = inner at hline hgap
        subst cs
        simpa [indented, ended] using hgap

/-- Seen with a line feed in front of both, since the first line may have white space as well. -/
theorem reflowed_fixed (text : String) :
    ∃ tail tail', Reflowed tail tail' ('\n' :: text.toList) ('\n' :: (fixed text).toList) := by
  unfold fixed
  rw [String.toList_ofList]
  by_cases hnil : text.toList = []
  · rw [hnil]
    exact ⟨['\n'], ['\n', '\n'], .stop spaces_feed.blank (spaces_feed.append spaces_feed)⟩
  · rw [unlines_eq_ended (indented_ne_nil (mt lines_eq_nil.1 hnil))]
    exact reflowed_indented spaces_feed.blank spaces_feed (by simp) (by simp) text.toList 0

end PacketSchema.Style
