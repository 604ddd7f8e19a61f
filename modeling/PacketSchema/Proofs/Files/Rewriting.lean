import PacketSchema.Files.Directory
import PacketSchema.Proofs.Text.Split

/-! Files that are read and rewritten by their paths. Rewriting a file changes what it holds and no
other file, and all paths lead to the same files as before. -/

namespace PacketSchema

theorem decodeText_toUTF8 (text : String) : decodeText text.toUTF8 = .ok text := by
  unfold decodeText String.fromUTF8?
  rw [dif_pos (show text.toUTF8.IsValidUTF8 from text.isValidUTF8)]
  rfl

theorem toUTF8_of_decodeText {bytes : ByteArray} {text : String}
    (h : decodeText bytes = .ok text) : text.toUTF8 = bytes := by
  unfold decodeText String.fromUTF8? at h
  split at h
  · rename_i found hfound
    cases h
    split at hfound
    · cases hfound
      rfl
    · cases hfound
  · cases h

namespace Table

variable {κ α : Type} [DecidableEq κ]

theorem contains_insert {t : Table κ α} {k : κ} (h : t.contains k = true) (a : α) (j : κ) :
    (t.insert k a).contains j = t.contains j := by
  unfold contains at h ⊢
  rw [find?_insert]
  split
  · rename_i heq
    rw [← heq, h]
    rfl
  · rfl

theorem keys_put {k : κ} {entries : List (κ × α)} (h : (lookup k entries).isSome = true) (a : α) :
    (put k a entries).map Prod.fst = entries.map Prod.fst := by
  induction entries with
  | nil => cases h
  | cons entry rest ih =>
    obtain ⟨j, b⟩ := entry
    unfold lookup at h
    unfold put
    split
    · rfl
    · rename_i hj
      rw [if_neg hj] at h
      rw [List.map_cons, List.map_cons, ih h]

end Table

namespace Directory

variable {d : Directory} {path name : String}

/-- The text that a path leads to. -/
def text (d : Directory) (path : String) : Except ReadFailure String :=
  (d.read path).bind decodeText

/-- The name of a file in the directory itself. -/
structure Plain (path : String) : Prop where
  nonempty : path ≠ ""
  no_slash : '/' ∉ path.toList
  no_nul : '\x00' ∉ path.toList
  not_self : path ≠ "."
  not_above : path ≠ ".."
  length_le : path.utf8ByteSize ≤ maxPart

/-- A plain name leads to the file of that name. -/
theorem resolve_of_plain (h : Plain path) (d : Directory) :
    d.resolve path = if d.files.contains path then .ok path else .error .missing := by
  have hnul : path.toList.contains '\x00' = false := by simpa using h.no_nul
  have hpath : ¬ path.utf8ByteSize > maxPath := by
    have hle := h.length_le
    unfold maxPart at hle
    unfold maxPath
    omega
  have hpart : ¬ path.utf8ByteSize > maxPart := Nat.not_lt.2 h.length_le
  have hhead : (path.toList.head? != some '/') = true := by
    rw [bne_iff_ne]
    exact fun heq => h.no_slash (List.mem_of_mem_head? heq)
  unfold resolve
  rw [hnul, if_neg Bool.false_ne_true, if_neg h.nonempty, if_neg hpath, hhead,
    Text.splitAll_of_not_mem h.no_slash]
  simp [follow, h.nonempty, h.not_self, h.not_above, hpart]

theorem contains_of_follow {inside : Bool} {parts : List String}
    (h : d.follow inside parts = .ok name) : d.files.contains name = true := by
  fun_induction d.follow inside parts with
  | case1 => cases h
  | case2 _ _ _ _ ih => exact ih h
  | case3 _ _ _ ih => exact ih h
  | case4 => cases h
  | case5 inside part rest _ _ _ hfound hrest =>
    cases h
    exact (Bool.and_eq_true_iff.1 hfound).2
  | case6 => cases h
  | case7 => cases h

/-- A path leads to files that are there. -/
theorem contains_of_resolve (h : d.resolve path = .ok name) : d.files.contains name = true := by
  unfold resolve at h
  split at h
  · cases h
  · split at h
    · cases h
    · split at h
      · cases h
      · exact contains_of_follow h

theorem follow_congr {d d' : Directory} (h : ∀ name, d'.files.contains name = d.files.contains name)
    (inside : Bool) (parts : List String) : d'.follow inside parts = d.follow inside parts := by
  induction parts generalizing inside with
  | nil => rfl
  | cons part rest ih => simp only [follow, h, ih]

theorem resolve_congr {d d' : Directory}
    (h : ∀ name, d'.files.contains name = d.files.contains name) (path : String) :
    d'.resolve path = d.resolve path := by
  simp only [resolve, follow_congr h]

theorem contains_write (d : Directory) (path : String) (bytes : ByteArray) (name : String) :
    (d.write path bytes).files.contains name = d.files.contains name := by
  unfold write
  cases h : d.resolve path with
  | error _ => rfl
  | ok found => exact Table.contains_insert (contains_of_resolve h) bytes name

theorem text_of_resolve_error {cause : ReadFailure} (h : d.resolve path = .error cause) :
    d.text path = .error cause := by
  unfold text read
  rw [h]
  rfl

theorem text_of_resolve (h : d.resolve path = .ok name) :
    d.text path = match d.files.find? name with
      | some bytes => decodeText bytes
      | none => .error .missing := by
  unfold text read
  rw [h]
  cases hbytes : d.files.find? name with
  | none => simp [bind, Except.bind, hbytes]
  | some bytes => simp [bind, Except.bind, hbytes]

/-- What can be read stands in a file. -/
theorem exists_of_text {found : String} (h : d.text path = .ok found) :
    ∃ name bytes, d.resolve path = .ok name ∧ d.files.find? name = some bytes ∧
      decodeText bytes = .ok found := by
  cases hname : d.resolve path with
  | error cause =>
    rw [text_of_resolve_error hname] at h
    cases h
  | ok name =>
    rw [text_of_resolve hname] at h
    cases hbytes : d.files.find? name with
    | none =>
      rw [hbytes] at h
      cases h
    | some bytes =>
      rw [hbytes] at h
      exact ⟨name, bytes, rfl, hbytes, h⟩

theorem find?_write (h : d.resolve path = .ok name) (bytes : ByteArray) (other : String) :
    (d.write path bytes).files.find? other =
      if name = other then some bytes else d.files.find? other := by
  unfold write
  rw [h]
  exact Table.find?_insert _ _ _ _

/-- Writing back what is there changes nothing. -/
theorem write_text {found : String} (h : d.text path = .ok found) :
    d.write path found.toUTF8 = d := by
  obtain ⟨name, bytes, hname, hbytes, hdecode⟩ := exists_of_text h
  unfold write
  rw [hname, toUTF8_of_decodeText hdecode]
  exact congrArg Directory.mk (Table.insert_of_find?_eq_some hbytes)

theorem keys_write (d : Directory) (path : String) (bytes : ByteArray) :
    (d.write path bytes).files.entries.map Prod.fst = d.files.entries.map Prod.fst := by
  unfold write
  cases h : d.resolve path with
  | error _ => rfl
  | ok name => exact Table.keys_put (contains_of_resolve h) bytes

/-! ## Rewriting -/

/-- What a file holds behind a change to its text. Bytes that are no text stay as they are. -/
def changed (f : String → String) (bytes : ByteArray) : ByteArray :=
  match decodeText bytes with
  | .ok found => (f found).toUTF8
  | .error _ => bytes

/-- Changes the text that a path leads to, if there is one. -/
def rewrite (f : String → String) (d : Directory) (path : String) : Directory :=
  match d.text path with
  | .ok found => d.write path (f found).toUTF8
  | .error _ => d

variable (f : String → String)

theorem decodeText_changed (bytes : ByteArray) :
    decodeText (changed f bytes) = (decodeText bytes).map f := by
  unfold changed
  cases h : decodeText bytes with
  | ok found => exact decodeText_toUTF8 _
  | error _ => exact h

theorem contains_rewrite (d : Directory) (path name : String) :
    (d.rewrite f path).files.contains name = d.files.contains name := by
  unfold rewrite
  cases d.text path with
  | error _ => rfl
  | ok _ => exact d.contains_write _ _ _

theorem resolve_rewrite (d : Directory) (path other : String) :
    (d.rewrite f path).resolve other = d.resolve other :=
  resolve_congr (d.contains_rewrite f path) other

theorem keys_rewrite (d : Directory) (path : String) :
    (d.rewrite f path).files.entries.map Prod.fst = d.files.entries.map Prod.fst := by
  unfold rewrite
  cases d.text path with
  | error _ => rfl
  | ok _ => exact d.keys_write _ _

/-- The file that the path leads to is changed, and no other. -/
theorem find?_rewrite (d : Directory) (path name : String) :
    (d.rewrite f path).files.find? name =
      if d.resolve path = .ok name then (d.files.find? name).map (changed f)
      else d.files.find? name := by
  unfold rewrite
  cases htext : d.text path with
  | ok found =>
    obtain ⟨target, bytes, htarget, hbytes, hdecode⟩ := exists_of_text htext
    dsimp only
    rw [find?_write htarget, htarget]
    by_cases heq : target = name
    · subst heq
      rw [if_pos rfl, if_pos rfl, hbytes]
      simp [changed, hdecode]
    · rw [if_neg heq, if_neg fun h => heq (Except.ok.inj h)]
  | error cause =>
    dsimp only
    split
    · rename_i hname
      cases hbytes : d.files.find? name with
      | none => rfl
      | some bytes =>
        rw [text_of_resolve hname, hbytes] at htext
        simp [changed, htext]
    · rfl

/-- Another path leads to the same text, or to the changed one. -/
theorem text_rewrite (d : Directory) (path other : String) :
    (d.rewrite f path).text other = d.text other ∨
      (d.rewrite f path).text other = (d.text other).map f := by
  cases hother : d.resolve other with
  | error cause =>
    have hsame := (d.resolve_rewrite f path other).trans hother
    rw [text_of_resolve_error hsame, text_of_resolve_error hother]
    exact .inl rfl
  | ok name =>
    have hsame := (d.resolve_rewrite f path other).trans hother
    rw [text_of_resolve hsame, text_of_resolve hother, d.find?_rewrite f path name]
    by_cases hname : d.resolve path = .ok name
    · rw [if_pos hname]
      cases d.files.find? name with
      | none => exact .inl rfl
      | some bytes => exact .inr (decodeText_changed f bytes)
    · rw [if_neg hname]
      exact .inl rfl

/-- A text that does not change leaves the directory as it is. -/
theorem rewrite_of_same {found : String} (h : d.text path = .ok found) (hf : f found = found) :
    d.rewrite f path = d := by
  unfold rewrite
  rw [h]
  dsimp only
  rw [hf, write_text h]

/-! ### Along paths -/

theorem contains_foldl_rewrite (paths : List String) (d : Directory) (name : String) :
    (paths.foldl (rewrite f) d).files.contains name = d.files.contains name := by
  induction paths generalizing d with
  | nil => rfl
  | cons path rest ih => exact (ih _).trans (d.contains_rewrite f path name)

theorem keys_foldl_rewrite (paths : List String) (d : Directory) :
    (paths.foldl (rewrite f) d).files.entries.map Prod.fst = d.files.entries.map Prod.fst := by
  induction paths generalizing d with
  | nil => rfl
  | cons path rest ih => exact (ih _).trans (d.keys_rewrite f path)

theorem foldl_rewrite_of_same {paths : List String}
    (h : ∀ path ∈ paths, ∀ found, d.text path = .ok found → f found = found) :
    paths.foldl (rewrite f) d = d := by
  induction paths with
  | nil => rfl
  | cons path rest ih =>
    have hpath : d.rewrite f path = d := by
      cases htext : d.text path with
      | ok found => exact rewrite_of_same f htext (h path List.mem_cons_self found htext)
      | error cause => simp [rewrite, htext]
    rw [List.foldl_cons, hpath]
    exact ih fun other hother => h other (List.mem_cons_of_mem _ hother)

section

variable {f} (hf : ∀ found, f (f found) = f found)
include hf

theorem changed_changed (bytes : ByteArray) : changed f (changed f bytes) = changed f bytes := by
  cases h : decodeText bytes with
  | error cause => simp [changed, h]
  | ok found =>
    have hchanged : ∀ {bytes found}, decodeText bytes = .ok found →
        changed f bytes = (f found).toUTF8 := fun h => by simp [changed, h]
    rw [hchanged h, hchanged (decodeText_toUTF8 _), hf]

/-- The files that some of the paths lead to are changed once, and no other file is. -/
theorem find?_foldl_rewrite (paths : List String) (d : Directory) (name : String) :
    (paths.foldl (rewrite f) d).files.find? name =
      if ∃ path ∈ paths, d.resolve path = .ok name then (d.files.find? name).map (changed f)
      else d.files.find? name := by
  induction paths generalizing d with
  | nil => simp
  | cons path rest ih =>
    rw [List.foldl_cons, ih, find?_rewrite]
    simp only [resolve_rewrite, List.exists_mem_cons_iff]
    by_cases hpath : d.resolve path = .ok name
    · -- a later path to the same file finds it changed already
      simp only [hpath, if_true, true_or, Option.map_map]
      have hcomp : changed f ∘ changed f = changed f := funext (changed_changed hf)
      rw [hcomp, ite_self]
    · simp only [hpath, if_false, false_or]

/-- There is nothing to change in what has been changed. -/
theorem foldl_rewrite_foldl_rewrite (paths : List String) (d : Directory) :
    paths.foldl (rewrite f) (paths.foldl (rewrite f) d) = paths.foldl (rewrite f) d := by
  refine foldl_rewrite_of_same f fun path hpath found htext => ?_
  obtain ⟨name, bytes, hname, hbytes, hdecode⟩ := exists_of_text htext
  rw [resolve_congr (contains_foldl_rewrite f paths d)] at hname
  rw [find?_foldl_rewrite hf, if_pos ⟨path, hpath, hname⟩] at hbytes
  obtain ⟨old, -, rfl⟩ := Option.map_eq_some_iff.1 hbytes
  rw [decodeText_changed] at hdecode
  cases hold : decodeText old with
  | error cause =>
    rw [hold] at hdecode
    cases hdecode
  | ok original =>
    rw [hold] at hdecode
    cases hdecode
    exact hf original

end

end Directory

end PacketSchema
