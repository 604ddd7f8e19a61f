import PacketSchema.Proofs.Compilation.History
import PacketSchema.Proofs.Token.Recasing

/-! Compiling sources in other words. Only tokens matter, and of a literal only its value: sources
with alike tokens are refused for the same reason, or become schemas that differ in the sources and
places of what they hold at most. So white space, comments, case outside of quotes and the radix of
a number never change a schema. -/

namespace PacketSchema

/-- The same error, but for the source and the place that it points at. -/
def SchemaError.Alike (e e' : SchemaError) : Prop := e.reprint .blank = e'.reprint .blank

/-- Schemas that differ at most in the sources and places of their scopes, fields and warnings. -/
structure Schema.Alike (s s' : Schema) : Prop where
  scopes : s.scopes.map (Scope.reprint .blank) = s'.scopes.map (Scope.reprint .blank)
  types : s.types = s'.types
  warnings : s.warnings.map Finding.rule = s'.warnings.map Finding.rule
  outline : Outline.text s.outline = Outline.text s'.outline
  outlineOf : ∀ id, Outline.text (s.outlineOf id) = Outline.text (s'.outlineOf id)
  walk : s.walk = s'.walk

theorem Schema.alike_of_reprint {s s' : Schema} (h : s.reprint .blank = s'.reprint .blank) :
    s.Alike s' := by
  obtain ⟨hscopes, htypes, hwarnings⟩ := Schema.mk.inj h
  refine ⟨hscopes, htypes, ?_, ?_, fun id => ?_, ?_⟩
  · have hrules := congrArg (List.map Finding.rule) hwarnings
    rwa [List.map_map, List.map_map] at hrules
  · rw [← s.outline_reprint (r := .blank), h, s'.outline_reprint]
  · rw [← s.outlineOf_reprint (r := .blank), h, s'.outlineOf_reprint]
  · rw [← s.walk_reprint (r := .blank), h, s'.walk_reprint]

/-- Named sources with alike tokens. Texts in other words have such tokens, and readable texts in
other case. -/
inductive AlikeSources : String × String → String × String → Prop
  | tokens {source source' text text' : String}
      (h : (TokenStream.ofText source text).Alike (TokenStream.ofText source' text')) :
      AlikeSources (source, text) (source', text')
  | reworded {source source' text text' : String} (h : Reworded text.toList text'.toList) :
      AlikeSources (source, text) (source', text')
  | recased {source source' text text' : String} (h : Recased text.toList text'.toList)
      (hread : Readable text.toList) : AlikeSources (source, text) (source', text')

theorem AlikeSources.alike {a b : String × String} (h : AlikeSources a b) :
    (TokenStream.ofText a.1 a.2).Alike (TokenStream.ofText b.1 b.2) := by
  cases h with
  | tokens h => exact h
  | reworded h => exact h.alike _ _
  | recased h hread => exact (h.reworded hread).alike _ _

namespace Compilation

open Schema

theorem reprints_blank {sources sources' : List (String × String)}
    (h : List.Forall₂ AlikeSources sources sources') :
    reprints .blank sources = reprints .blank sources' := by
  induction h with
  | nil => rfl
  | cons h _ ih => exact congrArg₂ List.cons (congrArg (Prod.mk "") h.alike.common.read) ih

/-- Only tokens matter, and of a literal only its value. Sources with alike tokens, whatever their
names, compile to the same error or to the same schema, but for sources and places. -/
theorem ofSources_alike {sources sources' : List (String × String)}
    (h : List.Forall₂ AlikeSources sources sources') (options : Options) :
    Paired SchemaError.Alike Schema.Alike (ofSources options sources)
      (ofSources options sources') := by
  have hresult := ofSources_reprint (reprints_blank h) options
  generalize ofSources options sources = x at hresult
  generalize ofSources options sources' = y at hresult
  obtain e | s := x <;> obtain e' | s' := y
  · exact .error (Except.error.inj hresult)
  · cases hresult
  · cases hresult
  · exact .ok (alike_of_reprint (Except.ok.inj hresult))

/-- A number in another radix, other names for the sources, a comment and other white space, and
other case. -/
theorem ofSources_alike_struct : ∃ s s',
    ofSources {} [("a", "type p {k = 0X1F;};"), ("b", "type Q;#"), ("c", "type r;")] = .ok s ∧
      ofSources {} [("d", "TYPE P\n{ k=31 ;};"), ("e", " TYPE q;"), ("c", "Type R;")] = .ok s' ∧
      (s.layout? ⟨1⟩).map Layout.order = some [.constraint "k" (.number 31)] ∧ s.Alike s' := by
  have hcomment : Reworded "type Q;#".toList " TYPE q;".toList := by
    have hend := @Reworded.comment [] [] [] (by simp) (by simp) .done
    have hsemicolon := @Reworded.lexeme [';', '#'] [';'] ⟨.symbol, [';'], ['#']⟩
      ⟨.symbol, [';'], []⟩ rfl rfl (.word rfl rfl) hend
    have hname := @Reworded.lexeme ['Q', ';', '#'] ['q', ';'] ⟨.ident, ['Q'], [';', '#']⟩
      ⟨.ident, ['q'], [';']⟩ rfl rfl (.word rfl rfl) hsemicolon
    have htype := @Reworded.lexeme ['t', 'y', 'p', 'e', ' ', 'Q', ';', '#']
      ['T', 'Y', 'P', 'E', ' ', 'q', ';'] ⟨.ident, ['t', 'y', 'p', 'e'], [' ', 'Q', ';', '#']⟩
      ⟨.ident, ['T', 'Y', 'P', 'E'], [' ', 'q', ';']⟩ rfl rfl (.word rfl rfl)
      (.space rfl (.symm (.space rfl (.symm hname))))
    exact .symm (.space rfl (.symm htype))
  have hcase : Recased "type r;".toList "Type R;".toList := by
    rw [show "type r;".toList = ['t', 'y', 'p', 'e', ' ', 'r', ';'] from rfl,
      show "Type R;".toList = ['T', 'y', 'p', 'e', ' ', 'R', ';'] from rfl]
    repeat' first
      | exact .done
      | refine .char rfl rfl (by decide) ?_
  have hsources : List.Forall₂ AlikeSources
      [("a", "type p {k = 0X1F;};"), ("b", "type Q;#"), ("c", "type r;")]
      [("d", "TYPE P\n{ k=31 ;};"), ("e", " TYPE q;"), ("c", "Type R;")] :=
    .cons (.tokens (by decide +kernel)) (.cons (.reworded hcomment)
      (.cons (.recased hcase ⟨"c", .start, by decide +kernel⟩) .nil))
  obtain ⟨s, hs, hp⟩ := exists_ok (show ((ofSources {}
    [("a", "type p {k = 0X1F;};"), ("b", "type Q;#"), ("c", "type r;")]).toOption.any fun s =>
      (s.layout? ⟨1⟩).map Layout.order = some [.constraint "k" (.number 31)]) = true
    by decide +kernel)
  have halike := ofSources_alike hsources {}
  rw [hs] at halike
  cases hs' : ofSources {} [("d", "TYPE P\n{ k=31 ;};"), ("e", " TYPE q;"), ("c", "Type R;")] with
  | error e =>
    rw [hs'] at halike
    cases halike
  | ok s' =>
    rw [hs'] at halike
    cases halike with
    | ok h => exact ⟨s, s', hs, rfl, of_decide_eq_true hp, h⟩

end Compilation

end PacketSchema
