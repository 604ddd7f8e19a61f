import PacketSchema.CommandLine
import PacketSchema.Proofs.Compilation.Lateness
import PacketSchema.Proofs.Files.Rewriting
import PacketSchema.Proofs.Style.Indenting

/-! What a run of the command line does to files, and when it fails. A file that is to be fixed holds
its fixed text after the first path that leads to it, and later paths find nothing to fix in it. So
the files in the end and the errors on the way are read off the files as they were. -/

namespace PacketSchema

open Directory (changed rewrite)

/-- What is reported about a schema that could be compiled is no error. -/
theorem Compilation.severity_of_mem_warnings {options : Options}
    {sources : List (String × String)} {s : Schema}
    (h : Schema.ofSources options sources = .ok s) {f : Finding} (hf : f ∈ s.warnings) :
    f.severity = .warning := by
  obtain ⟨c, past, -, rfl, -, hwarned⟩ := warned_of_ok h
  have hmem := hwarned.warnings.subset hf
  obtain hmem | hmem := List.mem_append.1 hmem
  · cases hmem
  · split at hmem
    · obtain ⟨field, -, rfl⟩ := List.mem_map.1 hmem
      rfl
    · cases hmem

namespace CommandLine

/-! ## Arguments -/

theorem parse_fix (args : List String) :
    (parse args).1.fix = true ↔ "--fix" ∈ args ∨ "-f" ∈ args := by
  simp only [parse, takeFlag, List.any_eq_true, List.contains_cons, List.contains_nil,
    Bool.or_false, Bool.or_eq_true, beq_iff_eq]
  constructor
  · rintro ⟨a, ha, rfl | rfl⟩
    · exact .inl ha
    · exact .inr ha
  · rintro (h | h)
    · exact ⟨_, h, .inl rfl⟩
    · exact ⟨_, h, .inr rfl⟩

theorem parse_compile (args : List String) :
    (parse args).1.compile = false ↔ "--no-compile" ∈ args := by
  have hfix : ¬ ["--fix", "-f"].contains "--no-compile" := by decide
  have hhuman : ¬ ["--human", "-H"].contains "--no-compile" := by decide
  have hmem : "--no-compile" ∈ (args.eraseP fun a => ["--fix", "-f"].contains a).eraseP
      (fun a => ["--human", "-H"].contains a) ↔ "--no-compile" ∈ args :=
    (List.mem_eraseP_of_neg hhuman).trans (List.mem_eraseP_of_neg hfix)
  simp [parse, takeFlag, hmem]

/-- What no flag is called is a path. -/
theorem mem_parse {a : String}
    (h : a ∉ ["--fix", "-f", "--human", "-H", "--no-compile"]) (args : List String) :
    a ∈ (parse args).2 ↔ a ∈ args := by
  simp only [List.mem_cons, List.not_mem_nil, or_false, not_or] at h
  obtain ⟨hfix, hf, hhuman, hH, hcompile⟩ := h
  unfold parse takeFlag
  dsimp only
  rw [List.mem_eraseP_of_neg (by simp [hcompile]), List.mem_eraseP_of_neg (by simp [hhuman, hH]),
    List.mem_eraseP_of_neg (by simp [hfix, hf])]

/-! ## Reports -/

section

variable (r r' : Report)

theorem errors_append : (r ++ r').errors = r.errors + r'.errors := rfl

theorem unreadable_append : (r ++ r').unreadable = (r.unreadable || r'.unreadable) := rfl

theorem exit_outcome : r.outcome.exit = if r.unreadable = true ∨ 0 < r.errors then 1 else 0 := rfl

end

theorem errors_ofFindings (human : Bool) (name : String) (fs : List Finding) :
    0 < (ofFindings human name fs).errors ↔ ∃ f ∈ fs, f.severity = .error := by
  have hfold : ∀ (fs : List Finding) (r : Report),
      0 < (fs.foldl (fun r f => r ++ ofFinding human name f) r).errors ↔
        0 < r.errors ∨ ∃ f ∈ fs, f.severity = .error := by
    intro fs
    induction fs with
    | nil => simp
    | cons f fs ih =>
      intro r
      have hf : 0 < (ofFinding human name f).errors ↔ f.severity = .error := by
        unfold ofFinding
        dsimp only
        split <;> rename_i hseverity <;> simp [hseverity]
      rw [List.foldl_cons, ih, errors_append, Nat.add_pos_iff_pos_or_pos, hf]
      simp [or_assoc]
  simpa [ofFindings] using hfold fs {}

theorem unreadable_ofFindings (human : Bool) (name : String) (fs : List Finding) :
    (ofFindings human name fs).unreadable = false := by
  have hfold : ∀ (fs : List Finding) (r : Report), r.unreadable = false →
      (fs.foldl (fun r f => r ++ ofFinding human name f) r).unreadable = false := by
    intro fs
    induction fs with
    | nil => exact fun _ h => h
    | cons f fs ih =>
      intro r h
      refine ih _ ?_
      rw [unreadable_append, h]
      unfold ofFinding
      dsimp only
      split <;> rfl
  exact hfold fs {} rfl

/-- A text in whose style there is an error, or that is to be compiled and cannot be. -/
def Faulty (flags : Flags) (name text : String) : Prop :=
  (∃ f ∈ Style.findings text, f.severity = .error) ∨
    flags.compile = true ∧ ∃ e, Schema.ofText name text = .error e

theorem errors_ofCompilation (human : Bool) (name text : String) :
    0 < (ofCompilation human name text).errors ↔ ∃ e, Schema.ofText name text = .error e := by
  unfold ofCompilation
  cases h : Schema.ofText name text with
  | error e => simp [ofError]
  | ok s =>
    have hnone : ¬ ∃ f ∈ s.warnings, f.severity = .error := by
      rintro ⟨f, hf, herror⟩
      rw [Compilation.severity_of_mem_warnings h hf] at herror
      cases herror
    simpa using mt (errors_ofFindings human name s.warnings).1 hnone

theorem errors_check (flags : Flags) (name text : String) :
    0 < (check flags name text).errors ↔ Faulty flags name text := by
  unfold check Faulty
  rw [errors_append, Nat.add_pos_iff_pos_or_pos, errors_ofFindings]
  cases flags.compile with
  | false => simp
  | true => simp [errors_ofCompilation]

theorem unreadable_check (flags : Flags) (name text : String) :
    (check flags name text).unreadable = false := by
  have hcompilation : (ofCompilation flags.human name text).unreadable = false := by
    unfold ofCompilation
    split
    · exact unreadable_ofFindings _ _ _
    · rfl
  unfold check
  rw [unreadable_append, unreadable_ofFindings]
  split
  · exact hcompilation
  · rfl

/-! ## Files -/

/-- The text that is checked where a text is found. -/
def checked (flags : Flags) (text : String) : String :=
  if flags.fix then Style.fixed text else text

theorem checked_idem (flags : Flags) (text : String) :
    checked flags (checked flags text) = checked flags text := by
  unfold checked
  split
  · exact Style.fixed_idem text
  · rfl

/-- A report tells which paths lead to no text, and whether there are errors in the texts that the
other ones lead to. -/
structure Report.Tells (r : Report) (flags : Flags) (d : Directory) (paths : List String) :
    Prop where
  unreadable : r.unreadable = true ↔ ∃ path ∈ paths, ∃ cause, d.text path = .error cause
  errors : 0 < r.errors ↔
    ∃ path ∈ paths, ∃ text, d.text path = .ok text ∧ Faulty flags path (checked flags text)

theorem Report.Tells.nil (flags : Flags) (d : Directory) : Tells {} flags d [] :=
  ⟨by simp, by simp⟩

/-- Paths that are looked at after a text has been replaced by the checked one lead to texts that
are checked alike. -/
theorem Report.Tells.cons {r r' : Report} {flags : Flags} {d : Directory} {path : String}
    {paths : List String} (h : r.Tells flags d [path])
    (h' : r'.Tells flags (d.rewrite (checked flags) path) paths) :
    (r ++ r').Tells flags d (path :: paths) := by
  have herror : ∀ other, (∃ cause, (d.rewrite (checked flags) path).text other = .error cause) ↔
      ∃ cause, d.text other = .error cause := by
    intro other
    obtain heq | heq := d.text_rewrite (checked flags) path other
    · rw [heq]
    · rw [heq]
      cases d.text other <;> simp [Except.map]
  have hok : ∀ other,
      (∃ text, (d.rewrite (checked flags) path).text other = .ok text ∧
        Faulty flags other (checked flags text)) ↔
      ∃ text, d.text other = .ok text ∧ Faulty flags other (checked flags text) := by
    intro other
    obtain heq | heq := d.text_rewrite (checked flags) path other
    · rw [heq]
    · rw [heq]
      cases d.text other <;> simp [Except.map, checked_idem]
  constructor
  · rw [unreadable_append, Bool.or_eq_true, h.unreadable, h'.unreadable]
    simp [herror]
  · rw [errors_append, Nat.add_pos_iff_pos_or_pos, h.errors, h'.errors]
    simp [hok]

theorem Report.Tells.of_check {r : Report} {flags : Flags} {d : Directory} {path text : String}
    (htext : d.text path = .ok text) (hunreadable : r.unreadable = false)
    (herrors : r.errors = (check flags path (checked flags text)).errors) :
    r.Tells flags d [path] :=
  ⟨by simp [htext, hunreadable], by simp [htext, herrors, errors_check]⟩

theorem run_checkFile_eq (flags : Flags) (d : Directory) (path : String) :
    (checkFile Directory.access flags path).run d = match d.text path with
      | .error cause => ({ stderr := s!"{path}: {cause.message}\n", unreadable := true }, d)
      | .ok text =>
        if flags.fix then
          if Style.fixed text = text then (check flags path text, d)
          else ({ stderr := s!"{path}: fixed\n" } ++ check flags path (Style.fixed text),
            d.write path (Style.fixed text).toUTF8)
        else (check flags path text, d) := by
  have hread : (Directory.access.readText path).run d = (d.text path, d) := rfl
  unfold checkFile
  rw [StateT.run_bind, hread]
  cases d.text path with
  | error cause => rfl
  | ok text =>
    show StateT.run (if flags.fix then if Style.fixed text = text then pure (check flags path text)
      else do
        Directory.access.write path (Style.fixed text).toUTF8
        return { stderr := s!"{path}: fixed\n" } ++ check flags path (Style.fixed text)
      else pure (check flags path text)) d = _
    split
    · dsimp only
      split <;> rfl
    · rfl

/-- The text that a path leads to becomes the one that is checked. Where nothing is to be fixed that
is the same. -/
theorem run_checkFile (flags : Flags) (d : Directory) (path : String) :
    ((checkFile Directory.access flags path).run d).2 = d.rewrite (checked flags) path ∧
      ((checkFile Directory.access flags path).run d).1.Tells flags d [path] := by
  rw [run_checkFile_eq]
  cases htext : d.text path with
  | error cause =>
    refine ⟨?_, by simp [htext], by simp [htext]⟩
    unfold Directory.rewrite
    rw [htext]
  | ok text =>
    -- a text that is in order is not written back
    have hsame : checked flags text = text → d = d.rewrite (checked flags) path ∧
        (check flags path text).Tells flags d [path] := fun h =>
      ⟨(Directory.rewrite_of_same _ htext h).symm,
        .of_check htext (unreadable_check _ _ _) (by rw [h])⟩
    dsimp only
    by_cases hfix : flags.fix = true
    · have hchecked : checked flags text = Style.fixed text := if_pos hfix
      rw [if_pos hfix]
      split
      · rename_i h
        exact hsame (hchecked.trans h)
      · refine ⟨?_, .of_check htext ?_ ?_⟩
        · unfold Directory.rewrite
          rw [htext, ← hchecked]
        · rw [unreadable_append, unreadable_check]
          rfl
        · rw [errors_append, hchecked]
          exact Nat.zero_add _
    · rw [if_neg hfix]
      exact hsame (if_neg hfix)

theorem run_checkFiles (flags : Flags) (d : Directory) (paths : List String) :
    ((checkFiles Directory.access flags paths).run d).2 =
        paths.foldl (Directory.rewrite (checked flags)) d ∧
      ((checkFiles Directory.access flags paths).run d).1.Tells flags d paths := by
  induction paths generalizing d with
  | nil => exact ⟨rfl, .nil flags d⟩
  | cons path rest ih =>
    obtain ⟨hstate, hreport⟩ := run_checkFile flags d path
    obtain ⟨hstate', hreport'⟩ := ih (d.rewrite (checked flags) path)
    have hrun : (checkFiles Directory.access flags (path :: rest)).run d =
        (((checkFile Directory.access flags path).run d).1 ++
          ((checkFiles Directory.access flags rest).run
            ((checkFile Directory.access flags path).run d).2).1,
          ((checkFiles Directory.access flags rest).run
            ((checkFile Directory.access flags path).run d).2).2) := rfl
    rw [hrun, hstate]
    exact ⟨hstate', hreport.cons hreport'⟩

/-! ## Runs -/

/-- A run over a directory of files, with bytes to be read from standard input. -/
def runOn (d : Directory) (input : ByteArray) (args : List String) : Outcome × Directory :=
  (run Directory.access (pure input) args).run d

theorem runOn_eq (d : Directory) (input : ByteArray) (args : List String) :
    runOn d input args = if (parse args).2 = [] then (runInput (parse args).1 input, d) else
      let (report, after) := (checkFiles Directory.access (parse args).1 (parse args).2).run d
      (report.outcome, after) := by
  unfold runOn run
  dsimp only
  cases (parse args).2 with
  | nil => rfl
  | cons path rest => rfl

theorem runOn_snd (d : Directory) (input : ByteArray) (args : List String) :
    (runOn d input args).2 =
      (parse args).2.foldl (Directory.rewrite (checked (parse args).1)) d := by
  rw [runOn_eq]
  split
  · rename_i h
    rw [h]
    rfl
  · exact (run_checkFiles _ _ _).1

theorem exit_outcome_eq_one {r : Report} :
    r.outcome.exit = 1 ↔ r.unreadable = true ∨ 0 < r.errors := by
  rw [exit_outcome]
  split <;> simp [*]

theorem exit_runInput (flags : Flags) (input : ByteArray) :
    (runInput flags input).exit = 1 ↔ (∃ cause, decodeText input = .error cause) ∨
      ∃ text, decodeText input = .ok text ∧ flags.fix = false ∧ Faulty flags "<stdin>" text := by
  unfold runInput
  cases decodeText input with
  | error cause => simp
  | ok text =>
    cases hfix : flags.fix with
    | true => simp
    | false => simp [exit_outcome_eq_one, unreadable_check, errors_check]

theorem exit_of_ne_one {outcome : Outcome} {d d' : Directory} {input : ByteArray}
    {args : List String} (h : runOn d input args = (outcome, d')) (hexit : outcome.exit ≠ 1) :
    outcome.exit = 0 := by
  have hinput : ∀ flags, (runInput flags input).exit = 0 ∨ (runInput flags input).exit = 1 := by
    intro flags
    unfold runInput
    split
    · exact .inr rfl
    · split
      · exact .inl rfl
      · rw [exit_outcome]
        split <;> simp
  rw [runOn_eq] at h
  split at h
  · cases h
    exact (hinput _).resolve_right hexit
  · cases h
    rw [exit_outcome] at hexit ⊢
    split <;> simp_all

theorem not_faulty_fixed {flags : Flags} (h : flags.compile = false) (name text : String) :
    ¬ Faulty flags name (Style.fixed text) := by
  rintro (⟨f, hf, herror⟩ | ⟨hcompile, -⟩)
  · rw [Style.findings_fixed_filter] at hf
    rw [Finding.severity_of_isOneStatement (List.mem_filter.1 hf).2] at herror
    cases herror
  · rw [h] at hcompile
    cases hcompile

/-- A run with a flag to fix leaves each text that some path leads to as the fixed text, and all
else as it is. To run again changes nothing more. Without the flag nothing changes at all. The run
fails if and only if a path leads to no text or there is an error in a text as it was checked, and a
fixed text that is not compiled has none. -/
theorem runOn_fixes (d : Directory) (input : ByteArray) (args : List String) :
    let flags := (parse args).1
    let paths := (parse args).2
    let exit := (runOn d input args).1.exit
    let after := (runOn d input args).2
    ((flags.fix = true ↔ "--fix" ∈ args ∨ "-f" ∈ args) ∧
      (flags.compile = false ↔ "--no-compile" ∈ args) ∧
      ∀ a, a ∉ ["--fix", "-f", "--human", "-H", "--no-compile"] → (a ∈ paths ↔ a ∈ args)) ∧
    (∀ path, Directory.Plain path →
      d.resolve path = if d.files.contains path then .ok path else .error .missing) ∧
    (∀ name, after.files.find? name =
      if flags.fix = true ∧ ∃ path ∈ paths, d.resolve path = .ok name then
        (d.files.find? name).map (changed Style.fixed)
      else d.files.find? name) ∧
    after.files.entries.map Prod.fst = d.files.entries.map Prod.fst ∧
    (flags.fix = false → after = d) ∧
    (runOn after input args).2 = after ∧
    (exit = 0 ∨ exit = 1) ∧
    (paths ≠ [] → (exit = 1 ↔ (∃ path ∈ paths, ∃ cause, d.text path = .error cause) ∨
      ∃ path ∈ paths, ∃ text, d.text path = .ok text ∧
        Faulty flags path (if flags.fix then Style.fixed text else text))) ∧
    (paths = [] → (exit = 1 ↔ (∃ cause, decodeText input = .error cause) ∨
      ∃ text, decodeText input = .ok text ∧ flags.fix = false ∧ Faulty flags "<stdin>" text)) ∧
    (flags.fix = true → flags.compile = false → paths ≠ [] →
      (∀ path ∈ paths, ∃ text, d.text path = .ok text) → exit = 0) := by
  intro flags paths exit after
  have hafter : after = paths.foldl (rewrite (checked flags)) d := runOn_snd d input args
  have hunfixed : flags.fix = false → after = d := by
    intro h
    rw [hafter]
    exact Directory.foldl_rewrite_of_same _ fun _ _ _ _ => if_neg (by simp [h])
  have hexit : paths ≠ [] → (exit = 1 ↔ (∃ path ∈ paths, ∃ cause, d.text path = .error cause) ∨
      ∃ path ∈ paths, ∃ text, d.text path = .ok text ∧
        Faulty flags path (checked flags text)) := by
    intro h
    have hreport := (run_checkFiles flags d paths).2
    show (runOn d input args).1.exit = 1 ↔ _
    rw [runOn_eq, if_neg h, ← hreport.unreadable, ← hreport.errors]
    exact exit_outcome_eq_one
  have hzero : exit ≠ 1 → exit = 0 := exit_of_ne_one rfl
  refine ⟨⟨parse_fix args, parse_compile args, fun _ h => mem_parse h args⟩,
    fun path h => Directory.resolve_of_plain h d, fun name => ?_, ?_, hunfixed, ?_,
    (Nat.eq_zero_or_pos exit).imp id fun h => ?_, hexit, ?_, ?_⟩
  · by_cases hfix : flags.fix = true
    · have hchecked : checked flags = Style.fixed := funext fun _ => if_pos hfix
      rw [hafter, hchecked, Directory.find?_foldl_rewrite Style.fixed_idem]
      simp only [hfix, true_and]
    · rw [hunfixed (by simpa using hfix), if_neg fun h => hfix h.1]
  · rw [hafter, Directory.keys_foldl_rewrite]
  · show (runOn after input args).2 = after
    rw [runOn_snd, hafter]
    exact Directory.foldl_rewrite_foldl_rewrite (checked_idem flags) paths d
  · exact Classical.byContradiction fun hne => Nat.ne_of_gt h (hzero hne)
  · intro h
    show (runOn d input args).1.exit = 1 ↔ _
    rw [runOn_eq, if_pos h]
    exact exit_runInput flags input
  · intro hfix hcompile hpaths hread
    refine hzero fun h => ?_
    obtain ⟨path, hpath, cause, herror⟩ | ⟨path, hpath, text, -, hfaulty⟩ := (hexit hpaths).1 h
    · obtain ⟨text, hok⟩ := hread path hpath
      rw [herror] at hok
      cases hok
    · rw [checked, if_pos hfix] at hfaulty
      exact not_faulty_fixed hcompile path text hfaulty

/-- One of two files is named twice, around the flags. -/
theorem runOn_fixes_twice :
    let d : Directory := ⟨⟨[("a", " \x7b ;;\n k".toUTF8), ("b", " ".toUTF8)]⟩⟩
    let run := runOn d ByteArray.empty ["a", "--no-compile", "-f", "a"]
    run.1.exit = 0 ∧ run.2.files.find? "a" = some "\x7b ;;\n\tk\n".toUTF8 ∧
      run.2.files.find? "b" = some " ".toUTF8 := by
  intro d run
  have hparse : parse ["a", "--no-compile", "-f", "a"] = (⟨true, false, false⟩, ["a", "a"]) := by
    decide
  have hplain : Directory.Plain "a" :=
    ⟨by decide, by decide, by decide, by decide, by decide, by decide⟩
  have hfixed : Style.fixed " \x7b ;;\n k" = "\x7b ;;\n\tk\n" := by decide
  obtain ⟨-, hresolve, hfind, -, -, -, -, -, -, hexit⟩ :=
    runOn_fixes d ByteArray.empty ["a", "--no-compile", "-f", "a"]
  have ha : d.resolve "a" = .ok "a" := hresolve "a" hplain
  have hread : d.text "a" = .ok " \x7b ;;\n k" :=
    (Directory.text_of_resolve ha).trans (decodeText_toUTF8 _)
  rw [hparse] at hexit hfind
  refine ⟨hexit rfl rfl (List.cons_ne_nil _ _) (by simp [hread]), ?_, ?_⟩
  · rw [hfind "a", if_pos ⟨rfl, "a", by simp, ha⟩]
    have hbytes : d.files.find? "a" = some " \x7b ;;\n k".toUTF8 := rfl
    simp only [hbytes, Option.map_some, changed, decodeText_toUTF8, hfixed]
  · rw [hfind "b", if_neg (by simp [ha])]
    rfl

end CommandLine

end PacketSchema
