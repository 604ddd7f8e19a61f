import PacketSchema.Proofs.Token.Shapes

/-! Tokens with spaces between them. Each token of a text is found again from its own characters,
and a space goes on with none of them, so the tokens of a text, written down with a space between
each two, are the tokens of what is written. -/

namespace PacketSchema

/-! ## One token -/

/-- The characters of the token have a shape, and what is found from them is this token. -/
def Token.Stable (t : Token) : Prop :=
  ∃ kind, Lexeme.Shape kind t.text.toList ∧
    ∀ p, ofChars kind t.text.toList p = { t with position := p }

theorem Token.Shaped.stable {t : Token} (h : t.Shaped) : t.Stable := by
  obtain ⟨kind, chars, p, hshape, rfl⟩ := h
  cases hword : kind.isLiteral with
  | true =>
    simp only [ofChars_literal hword]
    exact ⟨kind, by rwa [String.toList_ofList], fun q => by
      rw [String.toList_ofList, ofChars_literal hword]⟩
  | false =>
    have hlower : (chars.map Char.toLower).map Char.toLower = chars.map Char.toLower := by
      rw [List.map_map]
      exact List.map_congr_left fun c _ => toLower_invariant (by decide +kernel) c
    simp only [ofChars_word hword]
    refine ⟨kind, ?_, fun q => ?_⟩
    · rw [String.toList_ofList]
      exact hshape.toLower hword
    · rw [String.toList_ofList, ofChars_word hword, hlower]

/-! ## All of them -/

namespace TokenStream

variable {t : Token} {ts : List Token} (source : String) (p : Place)

theorem ofSpot_stable (ht : t.Stable) {rest : List Char} (hrest : Lexeme.Apart rest) :
    ofSpot source ⟨p, t.text.toList ++ rest⟩ =
      (ofSpot source ⟨p.after t.text.toList, rest⟩).cons { t with position := ⟨source, p⟩ } := by
  obtain ⟨kind, hshape, htoken⟩ := ht
  rw [ofSpot_lexeme source p (hshape.first? hrest), htoken]

/-- The induction is on the tokens that are left, each but the last with the space behind it. -/
theorem ofSpot_spaced (h : ∀ t ∈ ts, t.Stable) :
    ∃ q s, ofSpot source ⟨p, [' '].intercalate (ts.map (·.text.toList))⟩ = ⟨s, .finished q⟩ ∧
      s.map (fun t => (t.kind, t.text)) = ts.map fun t => (t.kind, t.text) := by
  induction ts generalizing p with
  | nil => exact ⟨_, [], ofSpot_nil source p, rfl⟩
  | cons t ts ih =>
    obtain ⟨ht, hts⟩ := List.forall_mem_cons.1 h
    cases ts with
    | nil =>
      have hone := ofSpot_stable source p ht Lexeme.apart_nil
      rw [List.append_nil, ofSpot_nil] at hone
      exact ⟨_, [{ t with position := ⟨source, p⟩ }], by simpa [cons] using hone, rfl⟩
    | cons next ts =>
      have hcut : [' '].intercalate ((t :: next :: ts).map (·.text.toList)) =
          t.text.toList ++ ' ' :: [' '].intercalate ((next :: ts).map (·.text.toList)) := by
        rw [List.map_cons, List.map_cons, List.intercalate_cons_cons, List.append_assoc]
        rfl
      obtain ⟨q, s, hs, hsame⟩ := ih ((p.after t.text.toList).step ' ') hts
      refine ⟨q, { t with position := ⟨source, p⟩ } :: s, ?_,
        congrArg ((t.kind, t.text) :: ·) hsame⟩
      rw [hcut, ofSpot_stable source p ht (Lexeme.apart_space _), ofSpot_space source _ rfl, hs]
      rfl

/-- The tokens of a text with a space between each two of them are read without error, under
whichever name, as tokens of the same kinds and texts. -/
theorem ofText_spaced (source text name : String) :
    ∃ p, (ofText name (" ".intercalate ((ofText source text).tokens.map Token.text))).stop =
        .finished p ∧
      (ofText name (" ".intercalate ((ofText source text).tokens.map Token.text))).tokens.map
          (fun t => (t.kind, t.text)) =
        (ofText source text).tokens.map fun t => (t.kind, t.text) := by
  have hstable : ∀ t ∈ (ofText source text).tokens, t.Stable := fun t ht =>
    (shaped_ofText source text t ht).stable
  obtain ⟨p, s, hs, hsame⟩ := ofSpot_spaced name .start hstable
  have hchars : (" ".intercalate ((ofText source text).tokens.map Token.text)).toList =
      [' '].intercalate ((ofText source text).tokens.map (·.text.toList)) := by
    rw [String.toList_intercalate, List.map_map]
    rfl
  rw [ofText, hchars, hs]
  exact ⟨p, rfl, hsame⟩

/-- Where nothing stood between the tokens. -/
example : (ofText "t" "0x12ab0xTYPE;'\\''").tokens.map Token.text =
    ["0x12ab0", "xtype", ";", "'\\''"] := by decide +kernel

end TokenStream

end PacketSchema
