import PacketSchema.Proofs.Compilation.Lineage

/-! Constraints and the types of their fields. A constraint is checked against the field that is
there when it is declared, be that one declared or taken over. A field is not checked against the
constraints that are there before it. -/

namespace PacketSchema.Compilation

open Schema

/-- A field that comes after all constraints on its name. -/
def ComesLast (es : List Entry) (name : String) : Prop :=
  ∀ before behind value, es = before ++ .constraint name value :: behind → .field name ∉ before

theorem History.fits_or_comesLast {c : Compilation} {past : List Compilation}
    (h : History (c :: past)) (htyped : c.options.typedConstraints = true) {id : ScopeId}
    {l : Layout} {name : String} {field : Field} {value : Literal}
    (hl : c.schema.layout? id = some l) (hfield : l.fields.find? name = some field)
    (hvalue : l.constraints.find? name = some value) :
    literalFits c.schema field.type value = true ∨ ComesLast (lineage (c :: past) id) name := by
  have haccounts := h.accounts hl
  by_cases hfits : literalFits c.schema field.type value = true
  · exact .inl hfits
  · refine .inr fun before behind other heq hmem => hfits ?_
    have hother : l.constraints.find? name = some other :=
      haccounts.constraints name other (heq ▸ List.mem_append_right _ List.mem_cons_self)
    rw [hvalue] at hother
    cases hother
    exact haccounts.fits htyped before name value behind field heq hmem hfield

/-- With typed constraints, all constraints in a compiled schema fit the types of their fields if
and only if those do whose field comes after all of them. -/
theorem ofSources_fits_iff {options : Options} {sources : List (String × String)} {s : Schema}
    (htyped : options.typedConstraints = true) (h : ofSources options sources = .ok s) :
    (∀ id l name field value, s.layout? id = some l → l.fields.find? name = some field →
      l.constraints.find? name = some value → literalFits s field.type value = true) ↔
    ∀ id l name field value, s.layout? id = some l → l.fields.find? name = some field →
      l.constraints.find? name = some value →
      ComesLast (lineage (history options sources) id) name →
      literalFits s field.type value = true := by
  obtain ⟨c, past, hhistory, rfl, rfl, hc⟩ := history_of_ok h
  rw [hhistory]
  constructor
  · intro hfits id l name field value hl hfield hvalue _
    exact hfits id l name field value hl hfield hvalue
  · intro hlate id l name field value hl hfield hvalue
    obtain hfits | hlast := hc.fits_or_comesLast htyped hl hfield hvalue
    · exact hfits
    · exact hlate id l name field value hl hfield hvalue hlast

/-- The field of the variant comes after the constraint of its struct. -/
theorem ofSources_fits_iff_arm : ∃ s, ofSources {}
      [("t", "type s { k = 3; variant a { k : ubyte; }; };")] = .ok s ∧
    ((∀ id l name field value, s.layout? id = some l → l.fields.find? name = some field →
      l.constraints.find? name = some value → literalFits s field.type value = true) ↔
    ∀ id l name field value, s.layout? id = some l → l.fields.find? name = some field →
      l.constraints.find? name = some value →
      ComesLast (lineage (history {} [("t", "type s { k = 3; variant a { k : ubyte; }; };")]) id)
        name → literalFits s field.type value = true) := by
  obtain ⟨s, hs, -⟩ := exists_ok (show ((ofSources {}
    [("t", "type s { k = 3; variant a { k : ubyte; }; };")]).toOption.any fun _ => true) = true by
    decide +kernel)
  exact ⟨s, hs, ofSources_fits_iff rfl hs⟩

/-- A field may be declared behind a constraint that its type does not have as a value. -/
theorem late_field_misfits :
    ∃ s l field, ofSources {} [("t", "type s { k = 300; k : ubyte; };")] = .ok s ∧
      s.layout? ⟨1⟩ = some l ∧ l.fields.find? "k" = some field ∧
      l.constraints.find? "k" = some (.number 300) ∧
      literalFits s field.type (.number 300) = false := by
  obtain ⟨s, hs, hp⟩ := exists_ok (show ((ofSources {}
    [("t", "type s { k = 300; k : ubyte; };")]).toOption.any fun s =>
      (s.layout? ⟨1⟩).any fun l =>
        (l.fields.find? "k").any (fun field => literalFits s field.type (.number 300) = false) ∧
        l.constraints.find? "k" = some (.number 300)) = true by decide +kernel)
  obtain ⟨l, hl, hp⟩ := (Option.any_eq_true _ _).1 hp
  obtain ⟨hfield, hvalue⟩ := of_decide_eq_true hp
  obtain ⟨field, hfield, hmisfit⟩ := (Option.any_eq_true _ _).1 hfield
  exact ⟨s, l, field, hs, hl, hfield, hvalue, of_decide_eq_true hmisfit⟩

end PacketSchema.Compilation
