import PacketSchema.Proofs.Literal.Escapes

/-! Printed literals. What is printed for a literal is a token of its own, and is read as the
literal again. For texts this is shown of characters that are printed as they stand or by a short
escape. An escape that gives a character's code in braces has no meaning where texts are read. -/

namespace PacketSchema

/-! ## Characters -/

namespace Text

/-- The visible characters of ASCII and the space. -/
def Visible (c : Char) : Prop := 0x20 ≤ c.toNat ∧ c.toNat ≤ 0x7e

/-- The controls that have short escapes. -/
def controls : List Char := ['\t', '\r', '\n', '\x00']

variable {c : Char} {cs : List Char}

theorem isShown_of_visible (h : Visible c) : isShown c = true := by
  have hranges : ∀ range ∈ hiddenRanges, range.2 < 0x20 ∨ 0x7e < range.1 := by decide +kernel
  have hcovers : hiddenRanges.covers c = false := by
    refine List.any_eq_false.2 fun range hrange => ?_
    obtain ⟨hlow, hhigh⟩ := h
    have hapart := hranges range hrange
    simp only [Bool.and_eq_true, decide_eq_true_eq]
    omega
  rw [isShown, hcovers]
  rfl

/-- In double quotes a character is written by a short escape or stands for itself. -/
theorem escape_cases (h : Visible c ∨ c ∈ controls) :
    (∃ e, escape '"' c = ['\\', e] ∧ Literal.shortEscape? e = some c) ∨
      escape '"' c = [c] ∧ c ≠ '\\' ∧ c ≠ '"' := by
  unfold escape
  split_ifs with htab hreturn hfeed hnul hescape hquote hshown
  · exact .inl ⟨'t', rfl, by rw [htab]; rfl⟩
  · exact .inl ⟨'r', rfl, by rw [hreturn]; rfl⟩
  · exact .inl ⟨'n', rfl, by rw [hfeed]; rfl⟩
  · exact .inl ⟨'0', rfl, by rw [hnul]; rfl⟩
  · exact .inl ⟨'\\', rfl, by rw [hescape]; rfl⟩
  · exact .inl ⟨'"', rfl, by rw [hquote]; rfl⟩
  · exact .inr ⟨rfl, hescape, hquote⟩
  · obtain h | h := h
    · exact absurd (isShown_of_visible h) hshown
    · simp [controls, htab, hreturn, hfeed, hnul] at h

theorem enclosed_flatMap_escape (h : ∀ c ∈ cs, Visible c ∨ c ∈ controls) :
    Lexeme.Enclosed '"' (cs.flatMap (escape '"')) := by
  induction cs with
  | nil => exact .nil
  | cons c cs ih =>
    obtain ⟨hc, hcs⟩ := List.forall_mem_cons.1 h
    rw [List.flatMap_cons]
    obtain ⟨e, he, -⟩ | ⟨he, hbackslash, hquote⟩ := escape_cases hc
    · rw [he]
      exact .escape (ih hcs)
    · rw [he]
      exact .plain hbackslash hquote (ih hcs)

theorem unescape_flatMap_escape (h : ∀ c ∈ cs, Visible c ∨ c ∈ controls) :
    Literal.unescape (cs.flatMap (escape '"')) = cs := by
  induction cs with
  | nil => rfl
  | cons c cs ih =>
    obtain ⟨hc, hcs⟩ := List.forall_mem_cons.1 h
    rw [List.flatMap_cons]
    obtain ⟨e, he, hread⟩ | ⟨he, hbackslash, -⟩ := escape_cases hc
    · rw [he, List.cons_append, List.singleton_append, Literal.unescape_short hread, ih hcs]
    · rw [he, List.singleton_append, Literal.unescape_plain hbackslash, ih hcs]

end Text

/-! ## Literals -/

namespace Literal

/-- Numbers that fit, and texts of visible characters and of controls with short escapes. -/
def Printable : Literal → Prop
  | number n => InRange n
  | text s => ∀ c ∈ s.toList, Text.Visible c ∨ c ∈ Text.controls

/-- What is printed for a literal is found as one token and read as the literal again. -/
theorem display_reads_back {l : Literal} (h : l.Printable) (source : String) :
    ∃ t : Token, t.isLiteral = true ∧ t.text = l.display ∧
      TokenStream.ofText source l.display =
        ⟨[t], .finished ⟨source, Place.start.after l.display.toList⟩⟩ ∧
      ofToken t.kind t.text t.position = .ok l := by
  cases l with
  | number n =>
    have hdisplay : (number n).display = .ofList (Radix.decimal.spelling n) :=
      (Radix.spelling_decimal n).symm
    rw [hdisplay, String.toList_ofList]
    exact ⟨_, rfl, rfl, TokenStream.ofText_shape (Lexeme.shape_spelling .decimal n) source,
      ofToken_spelling h .decimal _⟩
  | text s =>
    have hdisplay : (text s).display = .ofList (Text.quoteWith '"' s.toList) := rfl
    have hshape : Lexeme.Shape .string (Text.quoteWith '"' s.toList) :=
      .string rfl (Text.enclosed_flatMap_escape h)
    rw [hdisplay, String.toList_ofList]
    have hread : unquote (Text.quoteWith '"' s.toList) = s.toList := by
      simp [unquote, Text.quoteWith, Text.unescape_flatMap_escape h]
    refine ⟨_, rfl, rfl, TokenStream.ofText_shape hshape source, ?_⟩
    rw [Token.ofChars_literal rfl, ofToken, String.toList_ofList, hread, String.ofList_toList]

/-- Backslashes in front of a quote and of letters that make escapes. -/
theorem display_reads_back_backslashes :
    (text "\\\"\\\\n\\x41\t").display = "\"\\\\\\\"\\\\\\\\n\\\\x41\\t\"" ∧
      ∃ t : Token, t.isLiteral = true ∧ t.text = "\"\\\\\\\"\\\\\\\\n\\\\x41\\t\"" ∧
        TokenStream.ofText "t" "\"\\\\\\\"\\\\\\\\n\\\\x41\\t\"" = ⟨[t], .finished ⟨"t", ⟨1, 19⟩⟩⟩ ∧
        ofToken t.kind t.text t.position = .ok (text "\\\"\\\\n\\x41\t") := by
  have hprintable : ∀ c ∈ "\\\"\\\\n\\x41\t".toList, Text.Visible c ∨ c ∈ Text.controls := by
    simp [Text.Visible, Text.controls]
  have hdisplay : (text "\\\"\\\\n\\x41\t").display = "\"\\\\\\\"\\\\\\\\n\\\\x41\\t\"" := by
    decide +kernel
  have hplace : Place.start.after "\"\\\\\\\"\\\\\\\\n\\\\x41\\t\"".toList = ⟨1, 19⟩ := by
    decide +kernel
  have hread := display_reads_back (l := text _) hprintable "t"
  rw [hdisplay, hplace] at hread
  exact ⟨hdisplay, hread⟩

end Literal

end PacketSchema
