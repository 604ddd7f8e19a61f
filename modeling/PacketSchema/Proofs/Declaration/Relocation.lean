import PacketSchema.Proofs.Declaration.Reprinting

/-! Where tokens stand makes no difference to what is read from them: reading tokens at other places
gives the same declarations, or the same error, at those places. Other places alone are a print in
which all names and spellings stay. -/

namespace PacketSchema

/-! ## Other places -/

section

variable (f : Place → Place)

/-- Other places for what is named and spelled as it is. -/
abbrev Print.places : Print := ⟨id, f, id⟩

abbrev Position.relocate (p : Position) : Position := p.reprint (.places f)

abbrev Stop.relocate (stop : Stop) : Stop := stop.reprint (.places f)

abbrev Body.relocate (b : Body) : Body := b.reprint (.places f)

abbrev relocateAll (ss : List Statement) : List Statement := reprintAll (.places f) ss

abbrev SchemaError.relocate (e : SchemaError) : SchemaError := e.reprint (.places f)

/-- The result at other places, be it a value or an error. -/
abbrev relocateResult {α β : Type} (value : α → β) (result : Except SchemaError α) :
    Except SchemaError β :=
  reprintResult (.places f) value result

def Token.relocate (t : Token) : Token := { t with position := t.position.relocate f }

def TokenStream.relocate (s : TokenStream) : TokenStream :=
  ⟨s.tokens.map (Token.relocate f), s.stop.relocate f⟩

end

/-! ## Tokens -/

theorem Token.common_of_relocate_eq {f g : Place → Place} {t t' : Token}
    (h : t.relocate f = t'.relocate g) : t.Common (.places f) (.places g) t' := by
  obtain ⟨kind, text, p⟩ := t
  obtain ⟨kind', text', p'⟩ := t'
  obtain ⟨rfl, rfl, hp⟩ := Token.mk.inj h
  exact ⟨rfl, hp, fun _ => rfl, fun _ => rfl, fun _ => Literal.ofToken_coincide _ _ hp⟩

namespace TokenStream

theorem common_of_relocate_eq {f g : Place → Place} {s s' : TokenStream}
    (h : s.relocate f = s'.relocate g) : s.Common (.places f) (.places g) s' := by
  obtain ⟨htokens, hstop⟩ := TokenStream.mk.inj h
  refine ⟨?_, hstop⟩
  rw [← List.forall₂_eq_eq_eq, List.forall₂_map_left_iff, List.forall₂_map_right_iff] at htokens
  exact htokens.imp fun _ _ => Token.common_of_relocate_eq

/-- Tokens that differ only in their places are read alike. -/
theorem read_of_relocate_eq {f g : Place → Place} {s s' : TokenStream}
    (h : s.relocate f = s'.relocate g) :
    relocateResult f (Body.relocate f) (wholeBody.run s).1 =
      relocateResult g (Body.relocate g) (wholeBody.run s').1 :=
  (common_of_relocate_eq h).read

end TokenStream

/-- Texts whose tokens differ only in their places are read alike. -/
theorem Body.ofText_relocate {f g : Place → Place} {source source' text text' : String}
    (h : (TokenStream.ofText source text).relocate f =
      (TokenStream.ofText source' text').relocate g) :
    relocateResult f (relocate f) (ofText source text) =
      relocateResult g (relocate g) (ofText source' text') :=
  TokenStream.read_of_relocate_eq h

end PacketSchema
