import PacketSchema.Proofs.Compilation.Mirroring
import PacketSchema.Proofs.Style.Fixing
import PacketSchema.Proofs.Token.Reflow

/-! What a text means after its lines have been indented. Its tokens are the same but for strings
that reach over several lines, so without such strings it is read and compiled alike. -/

namespace PacketSchema

/-- Takes all places for the first one, so that what is compared is the rest. -/
def Place.forget (_ : Place) : Place := .start

namespace TokenStream

/-- No string reaches over several lines. -/
def StringsOnOneLine (s : TokenStream) : Prop :=
  ∀ t ∈ s.tokens, t.kind = .string → '\n' ∉ t.text.toList

instance (s : TokenStream) : Decidable s.StringsOnOneLine :=
  inferInstanceAs (Decidable (∀ t ∈ s.tokens, _ → _))

/-- A text is read like what stands behind the line feed of a line before it. -/
theorem ofText_eq (source text : String) :
    ofText source text = ofSpot source ⟨⟨0, 1⟩, '\n' :: text.toList⟩ :=
  ofSpot_of_next rfl

/-- Without strings over several lines, all that can differ is where the tokens stand. -/
theorem relocate_forget_eq {s s' : TokenStream} (h : List.Forall₂ Token.Kept s.tokens s'.tokens)
    (hs : s.StringsOnOneLine) {p : Position} {place : Place} (hstop : s.stop = .finished p)
    (hstop' : s'.stop = .finished ⟨p.source, place⟩) :
    s'.relocate .forget = s.relocate .forget := by
  have htokens : ∀ {tokens tokens' : List Token}, List.Forall₂ Token.Kept tokens tokens' →
      (∀ t ∈ tokens, t.kind = .string → '\n' ∉ t.text.toList) →
      tokens'.map (Token.relocate .forget) = tokens.map (Token.relocate .forget) := by
    intro tokens tokens' h hn
    induction h with
    | nil => rfl
    | cons hkept _ ih =>
      obtain ⟨hn, hrest⟩ := List.forall_mem_cons.1 hn
      rw [List.map_cons, List.map_cons, ih hrest]
      simp [Token.relocate, Position.reprint, Place.forget, hkept.kind, hkept.verbatim hn,
        hkept.source]
  unfold relocate
  rw [hstop, hstop', htokens h hs]
  rfl

end TokenStream

namespace Style

theorem ofText_fixed {source text : String} {p : Position}
    (h : (TokenStream.ofText source text).stop = .finished p) :
    (∃ place, (TokenStream.ofText source (fixed text)).stop = .finished ⟨p.source, place⟩) ∧
      List.Forall₂ Token.Kept (TokenStream.ofText source text).tokens
        (TokenStream.ofText source (fixed text)).tokens := by
  obtain ⟨tail, tail', hreflowed⟩ := reflowed_fixed text
  rw [TokenStream.ofText_eq] at h ⊢
  rw [TokenStream.ofText_eq]
  exact TokenStream.ofSpot_reflowed h hreflowed

/-- Indenting keeps the meaning of a text that can be read to its end. It can be read to its end
again, with tokens of the same kinds and texts, except that in strings over several lines the white
space around the line feeds changes. If there are no such strings then the text is read and
compiled, among whichever other sources, with the same result or the same error but for places. -/
theorem fixed_keeps_meaning {source text : String} {p : Position}
    (h : (TokenStream.ofText source text).stop = .finished p) :
    (∃ place, (TokenStream.ofText source (fixed text)).stop = .finished ⟨p.source, place⟩) ∧
      List.Forall₂ Token.Kept (TokenStream.ofText source text).tokens
        (TokenStream.ofText source (fixed text)).tokens ∧
      ((TokenStream.ofText source text).StringsOnOneLine →
        (TokenStream.ofText source (fixed text)).tokens.map (fun t => (t.kind, t.text)) =
            (TokenStream.ofText source text).tokens.map (fun t => (t.kind, t.text)) ∧
          relocateResult .forget (Body.relocate .forget) (Body.ofText source (fixed text)) =
            relocateResult .forget (Body.relocate .forget) (Body.ofText source text) ∧
          ∀ options before behind,
            relocateResult .forget (Schema.relocate .forget)
                (Schema.ofSources options (before ++ (source, fixed text) :: behind)) =
              relocateResult .forget (Schema.relocate .forget)
                (Schema.ofSources options (before ++ (source, text) :: behind))) := by
  obtain ⟨⟨place, hstop⟩, hkept⟩ := ofText_fixed h
  refine ⟨⟨place, hstop⟩, hkept, fun hstrings => ?_⟩
  have hplaces := TokenStream.relocate_forget_eq hkept hstrings h hstop
  have hread := Body.ofText_relocate hplaces
  refine ⟨?_, hread, fun options before behind => ?_⟩
  · have htokens := congrArg (fun s => s.tokens.map fun t => (t.kind, t.text)) hplaces
    simpa [TokenStream.relocate, Token.relocate, Function.comp_def] using htokens
  · refine Compilation.ofSources_reprint ?_ options
    simp [Compilation.reprints, hread]

theorem fixed_keeps_meaning_struct :
    (TokenStream.ofText "t" "type p \x7b\n  x : byte; \n\x7d;").stop =
        .finished ⟨"t", ⟨3, 3⟩⟩ ∧
      (TokenStream.ofText "t" "type p \x7b\n  x : byte; \n\x7d;").StringsOnOneLine ∧
      fixed "type p \x7b\n  x : byte; \n\x7d;" = "type p \x7b\n\tx : byte;\n\x7d;\n" ∧
      relocateResult .forget (Schema.relocate .forget)
          (Schema.ofSources {} [("t", fixed "type p \x7b\n  x : byte; \n\x7d;")]) =
        relocateResult .forget (Schema.relocate .forget)
          (Schema.ofSources {} [("t", "type p \x7b\n  x : byte; \n\x7d;")]) :=
  have hstop : (TokenStream.ofText "t" "type p \x7b\n  x : byte; \n\x7d;").stop =
      .finished ⟨"t", ⟨3, 3⟩⟩ := by decide +kernel
  have hstrings : (TokenStream.ofText "t" "type p \x7b\n  x : byte; \n\x7d;").StringsOnOneLine := by
    decide +kernel
  ⟨hstop, hstrings, by decide +kernel, ((fixed_keeps_meaning hstop).2.2 hstrings).2.2 {} [] []⟩

/-- The quotes of a string are looked for line by line, so white space at the end of a line is
dropped even where a string goes on behind it. -/
theorem fixed_changes_string :
    (TokenStream.ofText "t" "type p \x7b\n\tk = \"a \n\tb\";\n\x7d;\n").stop =
        .finished ⟨"t", ⟨5, 1⟩⟩ ∧
      (TokenStream.ofText "t"
          (fixed "type p \x7b\n\tk = \"a \n\tb\";\n\x7d;\n")).tokens.map Token.text ≠
        (TokenStream.ofText "t"
          "type p \x7b\n\tk = \"a \n\tb\";\n\x7d;\n").tokens.map Token.text := by
  decide +kernel

end Style

end PacketSchema
