import PacketSchema.Proofs.Style.Fixing
import PacketSchema.Proofs.Text.Trimming

/-! What is left to find in a text whose lines have been indented. White space at the ends of a line
is no code, so the braces, the closing braces in front and the statements of a line are counted
alike before and after, and so is the depth at which the next line stands. -/

namespace PacketSchema

/-- Two or more statements on one line. -/
def Finding.isOneStatement (f : Finding) : Bool :=
  match f.rule with
  | .oneStatement _ => true
  | .tabsOnly | .depth _ _ | .trailingBlank | .lateField _ _ => false

theorem Finding.rule_of_isOneStatement {f : Finding} (h : f.isOneStatement = true) :
    ∃ semicolons, f.rule = .oneStatement semicolons := by
  obtain ⟨_, rule⟩ := f
  cases rule with
  | oneStatement semicolons => exact ⟨semicolons, rfl⟩
  | tabsOnly => cases h
  | depth _ _ => cases h
  | trailingBlank => cases h
  | lateField _ _ => cases h

theorem Finding.severity_of_isOneStatement {f : Finding} (h : f.isOneStatement = true) :
    f.severity = .warning := by
  obtain ⟨_, hrule⟩ := rule_of_isOneStatement h
  unfold severity
  rw [hrule]
  rfl

namespace Style

open Text

/-! ## White space behind a line -/

theorem beforeComment?_append_blank {b : List Char} (hb : Blank b) (q : Quoting)
    (cs : List Char) : beforeComment? q (cs ++ b) = beforeComment? q cs := by
  have hnone : ∀ q, beforeComment? q b = none := by
    induction b with
    | nil => exact fun _ => rfl
    | cons c b ih =>
      obtain ⟨hc, hrest⟩ := List.forall_mem_cons.1 hb
      intro q
      have hmark : (c == '#') = false := by
        rw [beq_eq_false_iff_ne]
        rintro rfl
        cases hc
      simp [beforeComment?, hmark, ih hrest]
  induction cs generalizing q with
  | nil => exact hnone q
  | cons c cs ih => simp [beforeComment?, ih]

/-- White space behind a line goes with its comment, or it stays at its end. -/
theorem content_append_blank {b : List Char} (hb : Blank b) (cs : List Char) :
    ∃ b', content (cs ++ b) = content cs ++ b' ∧ Blank b' := by
  unfold content
  rw [beforeComment?_append_blank hb]
  cases beforeComment? .outside cs with
  | none => exact ⟨b, rfl, hb⟩
  | some front => exact ⟨[], (List.append_nil _).symm, .nil⟩

/-- Where the character behind a piece of a line stands. -/
def Quoting.after (q : Quoting) (cs : List Char) : Quoting := cs.foldl next q

theorem codeFrom_append (q : Quoting) (cs ds : List Char) :
    codeFrom q (cs ++ ds) = codeFrom q cs ++ codeFrom (q.after cs) ds := by
  induction cs generalizing q with
  | nil => rfl
  | cons c cs ih =>
    have hrest : codeFrom (q.next c) (cs ++ ds) =
        codeFrom (q.next c) cs ++ codeFrom (q.after (c :: cs)) ds := ih (q.next c)
    by_cases hcode : q.isCode c = true <;> simp [codeFrom, hcode, hrest]

theorem codeFrom_subset (q : Quoting) (cs : List Char) : codeFrom q cs ⊆ cs := by
  induction cs generalizing q with
  | nil => exact List.Subset.refl _
  | cons c cs ih =>
    intro x hx
    unfold codeFrom at hx
    split at hx
    · obtain rfl | hx := List.mem_cons.1 hx
      · exact .head _
      · exact .tail _ (ih _ hx)
    · exact .tail _ (ih _ hx)

theorem countCode_append_blank {b : List Char} (hb : Blank b) (cs : List Char) {c : Char}
    (hc : isBlank c = false) : countCode (cs ++ b) c = countCode cs c := by
  have hnone : ∀ q, (codeFrom q b).count c = 0 := fun q =>
    List.count_eq_zero.2 fun hmem => hb.not_mem hc (codeFrom_subset q b hmem)
  unfold countCode
  rw [codeFrom_append, List.count_append, hnone, Nat.add_zero]

theorem leadingClosers_append_blank {b : List Char} (hb : Blank b) (cs : List Char) :
    leadingClosers (cs ++ b) = leadingClosers cs := by
  have hnone : ∀ p : Char → Bool, (b.takeWhile p).count '}' = 0 := fun p =>
    List.count_eq_zero.2 fun hmem => hb.not_mem rfl ((List.takeWhile_sublist p).subset hmem)
  unfold leadingClosers
  rw [List.takeWhile_append]
  split
  · rename_i hall
    have heq := (List.takeWhile_prefix _).eq_of_length hall
    rw [List.count_append, hnone, Nat.add_zero, heq]
  · rfl

/-- What a line counts for does not depend on the white space behind it. -/
structure SameCode (cs ds : List Char) : Prop where
  count : ∀ c, isBlank c = false → countCode cs c = countCode ds c
  closers : leadingClosers cs = leadingClosers ds

theorem sameCode_append_blank {b : List Char} (hb : Blank b) (cs : List Char) :
    SameCode (content (cs ++ b)) (content cs) := by
  obtain ⟨b', heq, hb'⟩ := content_append_blank hb cs
  rw [heq]
  exact ⟨fun c hc => countCode_append_blank hb' _ hc, leadingClosers_append_blank hb' _⟩

theorem sameCode_trimStart (line : List Char) :
    SameCode (content (trimStart line)) (content (trim line)) := by
  obtain ⟨b, heq, hb⟩ := trimStart_split line
  rw [heq]
  exact sameCode_append_blank hb _

theorem SameCode.braceBalance_eq {cs ds : List Char} (h : SameCode cs ds) :
    braceBalance cs = braceBalance ds := by
  unfold braceBalance
  rw [h.count '{' rfl, h.count '}' rfl]

theorem SameCode.statementFindings_eq {cs ds : List Char} (h : SameCode cs ds) (number : Nat) :
    statementFindings number cs = statementFindings number ds := by
  unfold statementFindings
  rw [h.count ';' rfl]

/-! ## Indented lines -/

theorem blank_tabs (n : Nat) : Blank (List.replicate n '\t') := (spaces_tabs n).blank

/-- A line as it is written at a depth. -/
def indentedLine (depth : Int) (line : List Char) : List Char :=
  if trim line = [] then [] else
    List.replicate (tabs depth (content (trim line))) '\t' ++ trim line

theorem braceBalance_nil : braceBalance (content []) = 0 := rfl

theorem trim_nil : trim [] = [] := rfl

/-- The depth of the next line goes by the line without white space, which an empty line does not
change. -/
theorem indented_eq (depth : Int) (line : List Char) (rest : List (List Char)) :
    indented depth (line :: rest) =
      indentedLine depth line :: indented (depth + braceBalance (content (trim line))) rest := by
  unfold indentedLine
  by_cases h : trim line = []
  · simp [indented, h, braceBalance_nil]
  · simp [indented, h]

theorem trim_indentedLine (depth : Int) (line : List Char) :
    trim (indentedLine depth line) = trim line := by
  unfold indentedLine
  split
  · rename_i h
    rw [h, trim_nil]
  · rename_i h
    exact trim_append_trim (blank_tabs _) h

theorem indentedLine_indentedLine (depth : Int) (line : List Char) :
    indentedLine depth (indentedLine depth line) = indentedLine depth line := by
  conv_lhs => rw [indentedLine, trim_indentedLine]
  rfl

theorem indented_indented (depth : Int) (ls : List (List Char)) :
    indented depth (indented depth ls) = indented depth ls := by
  induction ls generalizing depth with
  | nil => rfl
  | cons line ls ih =>
    rw [indented_eq, indented_eq, indentedLine_indentedLine, trim_indentedLine, ih]

/-! ## Findings -/

theorem statementFindings_filter (number : Nat) (cs : List Char) :
    (statementFindings number cs).filter Finding.isOneStatement = statementFindings number cs := by
  unfold statementFindings
  dsimp only
  split <;> rfl

/-- Of the findings of a line, those about its statements. -/
theorem lineFindings_filter (number : Nat) (depth : Int) (line : List Char) :
    (lineFindings number depth line).filter Finding.isOneStatement =
      statementFindings number (content (trim line)) := by
  have htrailing : (trailingBlankFindings number line).filter Finding.isOneStatement = [] := by
    unfold trailingBlankFindings
    split <;> rfl
  have htabs : ∀ leading, (tabsOnlyFindings number leading).filter Finding.isOneStatement = [] := by
    intro leading
    unfold tabsOnlyFindings
    split <;> rfl
  have hdepth : ∀ leading trimmed,
      (depthFindings number depth leading trimmed).filter Finding.isOneStatement = [] := by
    intro leading trimmed
    unfold depthFindings
    dsimp only
    split <;> rfl
  unfold lineFindings
  rw [List.filter_append, List.filter_append, List.filter_append, htrailing, htabs, hdepth,
    statementFindings_filter, (sameCode_trimStart line).statementFindings_eq]
  rfl

/-- An indented line has tabs by its depth in front, so there is nothing to find but its
statements. -/
theorem lineFindings_indentedLine (number : Nat) (depth : Int) (line : List Char) :
    lineFindings number depth (indentedLine depth line) =
      statementFindings number (content (trim line)) := by
  unfold indentedLine
  by_cases h : trim line = []
  · rw [if_pos h, h]
    rfl
  · rw [if_neg h]
    have hleading := takeWhile_append_trim (blank_tabs (tabs depth (content (trim line)))) h
    have htrimmed := trimStart_append_trim (blank_tabs (tabs depth (content (trim line)))) h
    unfold lineFindings
    dsimp only
    rw [hleading, htrimmed]
    have htrailing : trailingBlankFindings number
        (List.replicate (tabs depth (content (trim line))) '\t' ++ trim line) = [] :=
      if_pos (trimEnd_append_trim _ h).symm
    have htabs : tabsOnlyFindings number
        (List.replicate (tabs depth (content (trim line))) '\t') = [] :=
      if_neg (by simp)
    have hdepth : depthFindings number depth
        (List.replicate (tabs depth (content (trim line))) '\t') (trim line) = [] := by
      unfold depthFindings
      simp
    rw [htrailing, htabs, hdepth]
    rfl

theorem findingsFrom_indented (number : Nat) (depth : Int) (ls : List (List Char)) :
    findingsFrom number depth (indented depth ls) =
      (findingsFrom number depth ls).filter Finding.isOneStatement := by
  induction ls generalizing number depth with
  | nil => rfl
  | cons line ls ih =>
    have hbalance : braceBalance (content (trimStart (indentedLine depth line))) =
        braceBalance (content (trim line)) := by
      rw [(sameCode_trimStart _).braceBalance_eq, trim_indentedLine]
    rw [indented_eq, findingsFrom, findingsFrom, List.filter_append, hbalance, ih,
      lineFindings_indentedLine, lineFindings_filter, (sameCode_trimStart line).braceBalance_eq]

/-! ## Fixed texts -/

theorem whole_indentedLine (depth : Int) {line : List Char} (h : '\n' ∉ line) :
    Whole (indentedLine depth line) := by
  unfold indentedLine
  split
  · exact .nil
  · rename_i hne
    obtain ⟨front, back, hline, -, -⟩ := trim_split line
    have hfeed : '\n' ∉ trim line := by
      intro hmem
      rw [hline] at h
      simp [hmem] at h
    refine ⟨by simpa using hfeed, fun hlast => ?_⟩
    rw [List.getLast?_append_of_ne_nil _ hne] at hlast
    have hhead := List.head?_dropWhile_not isBlank (trimStart line).reverse
    rw [← List.getLast?_reverse] at hhead
    rw [show trim line = ((trimStart line).reverse.dropWhile isBlank).reverse from rfl] at hlast
    rw [hlast] at hhead
    cases hhead

theorem lines_indented {depth : Int} {ls : List (List Char)} (h : ∀ line ∈ ls, '\n' ∉ line) :
    lines (ended (indented depth ls)) = indented depth ls := by
  refine lines_ended ?_
  induction ls generalizing depth with
  | nil => exact fun _ hmem => nomatch hmem
  | cons line ls ih =>
    obtain ⟨hline, hls⟩ := List.forall_mem_cons.1 h
    rw [indented_eq]
    exact List.forall_mem_cons.2 ⟨whole_indentedLine depth hline, ih hls⟩

theorem lines_fixed {text : String} (h : text.toList ≠ []) :
    lines (fixed text).toList = indented 0 (lines text.toList) := by
  unfold fixed
  rw [String.toList_ofList, unlines_eq_ended (indented_ne_nil (mt lines_eq_nil.1 h))]
  exact lines_indented fun _ => not_mem_of_mem_lines

theorem fixed_of_empty {text : String} (h : text.toList = []) : fixed text = "\n" := by
  unfold fixed
  rw [h]
  rfl

/-- Fixing changes nothing where a text has been fixed. -/
theorem fixed_idem (text : String) : fixed (fixed text) = fixed text := by
  by_cases h : text.toList = []
  · rw [fixed_of_empty h]
    decide
  · conv_lhs => rw [fixed, lines_fixed h, indented_indented]
    rfl

theorem findings_fixed_filter (text : String) :
    findings (fixed text) = (findings text).filter Finding.isOneStatement := by
  by_cases h : text.toList = []
  · rw [fixed_of_empty h]
    unfold findings
    rw [h]
    decide
  · unfold findings
    rw [lines_fixed h, findingsFrom_indented]

/-- A fixed text has no findings but those about several statements on one line, at the places and in
the words in which the text itself has them. So there is none about its white space and no error,
and fixing it once more changes nothing. -/
theorem findings_fixed (text : String) :
    findings (fixed text) = (findings text).filter Finding.isOneStatement ∧
      (∀ f ∈ findings (fixed text),
        (∃ semicolons, f.rule = .oneStatement semicolons) ∧ f.severity = .warning) ∧
      fixed (fixed text) = fixed text := by
  refine ⟨findings_fixed_filter text, fun f hf => ?_, fixed_idem text⟩
  rw [findings_fixed_filter] at hf
  have hrule := (List.mem_filter.1 hf).2
  exact ⟨Finding.rule_of_isOneStatement hrule, Finding.severity_of_isOneStatement hrule⟩

/-- Closing braces without opening ones, an open quote, a no-break space and a last line that ends
with a carriage return. -/
theorem findings_fixed_braces :
    (findings " \x7d\x7d; ;  \n'\x7b;; # \n\u00a0k : \x7b a;; \r").map Finding.rule =
        [.trailingBlank, .tabsOnly, .oneStatement 2, .trailingBlank, .trailingBlank,
          .oneStatement 2] ∧
      findings (fixed " \x7d\x7d; ;  \n'\x7b;; # \n\u00a0k : \x7b a;; \r") =
        [⟨⟨1, 1⟩, .oneStatement 2⟩, ⟨⟨3, 1⟩, .oneStatement 2⟩] := by
  refine ⟨by decide +kernel, ?_⟩
  rw [(findings_fixed _).1]
  decide +kernel

end Style

end PacketSchema
