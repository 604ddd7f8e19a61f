import PacketSchema.Proofs.Declaration.Soundness

/-! Reading ends by itself. Every recursive reader has taken a token before it goes on, so that fuel
beyond the number of tokens makes no difference, to what is returned or to where reading fails. -/

namespace PacketSchema

namespace TokenStream

variable {α β : Type} {s rest : TokenStream} {text : String}

theorem length_tokens_cons (s : TokenStream) (t : Token) :
    (s.cons t).tokens.length = s.tokens.length + 1 := rfl

namespace Takes

variable {G : List Token → Prop}

theorem length_le (h : Takes G s rest) : rest.tokens.length ≤ s.tokens.length := by
  obtain ⟨ts, rfl, -⟩ := h
  rw [prepend_tokens, List.length_append]
  exact Nat.le_add_left _ _

theorem length_lt {P : Token → Prop} (h : Takes G s rest)
    (hG : ∀ ts, G ts → ∃ t us, ts = t :: us ∧ P t) :
    rest.tokens.length < s.tokens.length := by
  obtain ⟨ts, rfl, hts, -⟩ := h
  obtain ⟨t, us, rfl, -⟩ := hG ts hts
  rw [prepend_tokens, List.length_append, List.length_cons]
  omega

end Takes

theorem MayDerive.length_le {G : List Token → α → Prop} {x : Reader (Option α)} {o : Option α}
    (hx : MayDerive G x) (h : Returns x s o rest) : rest.tokens.length ≤ s.tokens.length := by
  obtain ⟨_, -, htakes⟩ | ⟨-, rfl⟩ := hx s o rest h
  · exact htakes.length_le
  · exact Nat.le_refl _

theorem MayDerive.length_lt {G : List Token → α → Prop} {P : Token → Prop}
    {x : Reader (Option α)} {a : α} (hx : MayDerive G x)
    (hG : ∀ ts, G ts a → ∃ t us, ts = t :: us ∧ P t) (h : Returns x s (some a) rest) :
    rest.tokens.length < s.tokens.length := by
  obtain ⟨_, ⟨⟩, htakes⟩ | ⟨hnone, -⟩ := hx s _ rest h
  · exact htakes.length_lt hG
  · cases hnone

/-! ## Readers that run alike -/

theorem run_bind_same {x x' : Reader α} {f f' : α → Reader β} (hx : x.run s = x'.run s)
    (hf : ∀ a mid, Returns x' s a mid → (f a).run mid = (f' a).run mid) :
    (x >>= f).run s = (x' >>= f').run s := by
  rw [run_bind, run_bind, hx]
  rcases hxs : x'.run s with ⟨e | a, mid⟩
  · rfl
  · exact hf a mid hxs

/-- Streams with fewer than so many tokens are read alike. -/
def SameBelow (n : Nat) (x x' : Reader α) : Prop :=
  ∀ mid : TokenStream, mid.tokens.length < n → x.run mid = x'.run mid

theorem run_ite_same {x x' y y' : Reader α} (hx : SameBelow s.tokens.length x x')
    (hy : y.run s = y'.run s) :
    (do if ← accept text then x else y : Reader α).run s =
      (do if ← accept text then x' else y' : Reader α).run s := by
  refine run_bind_same rfl fun found mid h => ?_
  obtain ⟨t, -, rfl, rfl⟩ | ⟨-, rfl, rfl⟩ := returns_accept.1 h
  · exact hx mid (Nat.lt_succ_self _)
  · exact hy

theorem run_require_same {x x' : Reader (Option α)} (what : Expectation)
    (hx : x.run s = x'.run s) : (require what x).run s = (require what x').run s :=
  run_bind_same hx fun _ _ _ => rfl

theorem run_map_same {x x' : Reader (Option α)} (f : α → β) (hx : x.run s = x'.run s) :
    (do return (← x).map f : Reader (Option β)).run s =
      (do return (← x').map f : Reader (Option β)).run s :=
  run_bind_same hx fun _ _ _ => rfl

theorem run_between?_same {x x' : Reader α} (opening closing : String)
    (hx : SameBelow s.tokens.length x x') :
    (between? opening closing x).run s = (between? opening closing x').run s :=
  run_ite_same (fun mid hmid => run_bind_same (hx mid hmid) fun _ _ _ => rfl) rfl

section

variable {statements statements' : Reader (List Statement)}
  {block? block?' : Reader (Option Body)} {type? type?' : Reader (Option TypeExpr)}

theorem run_bodyOf_same (hs : statements.run s = statements'.run s) :
    (bodyOf statements).run s = (bodyOf statements').run s := by
  refine run_bind_same rfl fun p mid hp => ?_
  obtain ⟨-, -, rfl⟩ := returns_position.1 hp
  exact run_bind_same hs fun _ _ _ => rfl

theorem run_block?_same (hs : SameBelow s.tokens.length statements statements') :
    (TokenStream.block? statements).run s = (TokenStream.block? statements').run s :=
  run_between?_same _ _ fun mid hmid => run_bodyOf_same (hs mid hmid)

theorem run_enclosed?_same (hs : SameBelow s.tokens.length statements statements')
    (ht : SameBelow s.tokens.length type? type?') :
    (enclosed? statements type?).run s = (enclosed? statements' type?').run s := by
  refine run_bind_same (run_between?_same _ _ fun mid hmid => run_require_same _ (ht mid hmid))
    fun e mid he => ?_
  cases e with
  | some e => rfl
  | none =>
    obtain ⟨_, _, _, _, _, -, -, -, -, -, hsome⟩ | ⟨-, -, rfl⟩ := returns_between?.1 he
    · cases hsome
    · exact run_map_same _ (run_block?_same hs)

theorem run_typeOrBlock?_same (hb : block?.run s = block?'.run s)
    (ht : SameBelow s.tokens.length type? type?') :
    (typeOrBlock? block? type?).run s = (typeOrBlock? block?' type?').run s :=
  run_ite_same (fun mid hmid => run_bind_same (run_require_same _ (ht mid hmid)) fun _ _ _ => rfl)
    (run_map_same _ hb)

theorem run_fieldsOrConstraint_same {p : Position} {left : Operand}
    (ht : SameBelow (s.tokens.length + 1) type? type?') :
    (fieldsOrConstraint p left type?).run s = (fieldsOrConstraint p left type?').run s := by
  refine run_ite_same (fun _ _ => rfl) ?_
  split
  · refine run_bind_same rfl fun _ mid hget => ?_
    obtain ⟨rfl, rfl⟩ := returns_get.1 hget
    refine run_bind_same rfl fun names mid hnames => ?_
    have hle := (moreNames_derives _ _ _ _ hnames).length_le
    exact run_bind_same (run_require_same _ (ht mid (Nat.lt_succ_of_le hle))) fun _ _ _ => rfl
  · rfl

theorem run_statement?_same (hb : SameBelow s.tokens.length block? block?')
    (ht : SameBelow s.tokens.length type? type?') :
    (statement? block? type?).run s = (statement? block?' type?').run s := by
  refine run_bind_same rfl fun p mid hp => ?_
  obtain ⟨-, -, rfl⟩ := returns_position.1 hp
  refine run_ite_same (fun mid hmid => ?_) (run_ite_same (fun mid hmid => ?_)
    (run_ite_same (fun mid hmid => ?_) ?_))
  · refine run_bind_same rfl fun name mid' hname => ?_
    have hle := ident?_mayDerive.length_le hname
    exact run_bind_same (hb mid' (by omega)) fun _ _ _ => rfl
  · refine run_bind_same rfl fun name mid' hname => ?_
    have hle := ((ident?_mayDerive.require _) _ _ _ hname).length_le
    exact run_bind_same (hb mid' (by omega)) fun _ _ _ => rfl
  · refine run_bind_same rfl fun name mid' hname => ?_
    have hle := ((ident?_mayDerive.require _) _ _ _ hname).length_le
    exact run_bind_same (run_typeOrBlock?_same (hb mid' (by omega))
      fun mid'' hmid'' => ht mid'' (by omega)) fun _ _ _ => rfl
  · refine run_bind_same rfl fun left mid hleft => ?_
    cases left with
    | none => rfl
    | some left =>
      have hlt := operand?_mayDerive.length_lt (fun _ h => h.first) hleft
      exact run_bind_same (run_fieldsOrConstraint_same fun mid' hmid' => ht mid' (by omega))
        fun _ _ _ => rfl

end

mutual

theorem run_statements_same (fuel : Nat) : ∀ (fuel' : Nat) (s : TokenStream),
    s.tokens.length < fuel → s.tokens.length < fuel' →
    (statements fuel).run s = (statements fuel').run s := by
  intro fuel' s h h'
  cases fuel with
  | zero => exact absurd h (Nat.not_lt_zero _)
  | succ fuel =>
    cases fuel' with
    | zero => exact absurd h' (Nat.not_lt_zero _)
    | succ fuel' =>
      have hinner : SameBelow s.tokens.length (statements fuel) (statements fuel') :=
        fun mid hmid => run_statements_same fuel fuel' mid (by omega) (by omega)
      have htype : SameBelow s.tokens.length (type? fuel) (type? fuel') :=
        fun mid hmid => run_type?_same fuel fuel' mid (by omega) (by omega)
      refine run_ite_same hinner (run_bind_same (run_statement?_same
        (fun mid hmid => run_block?_same fun mid' hmid' => hinner mid' (by omega)) htype)
        fun st mid hst => ?_)
      cases st with
      | none => rfl
      | some st =>
        have hlt := (statement?_mayDerive (block?_mayDerive (statements_derives fuel'))
          (type?_mayDerive fuel')).length_lt (fun _ h => h.first) hst
        refine run_bind_same rfl fun _ mid' hsemicolon => ?_
        obtain ⟨t, -, rfl⟩ := returns_expect.1 hsemicolon
        rw [length_tokens_cons] at hlt
        exact run_bind_same (hinner mid' (by omega)) fun _ _ _ => rfl

theorem run_type?_same (fuel : Nat) : ∀ (fuel' : Nat) (s : TokenStream),
    s.tokens.length < fuel → s.tokens.length < fuel' →
    (type? fuel).run s = (type? fuel').run s := by
  intro fuel' s h h'
  cases fuel with
  | zero => exact absurd h (Nat.not_lt_zero _)
  | succ fuel =>
    cases fuel' with
    | zero => exact absurd h' (Nat.not_lt_zero _)
    | succ fuel' =>
      refine run_bind_same rfl fun p mid hp => ?_
      obtain ⟨-, -, rfl⟩ := returns_position.1 hp
      refine run_bind_same (run_enclosed?_same
        (fun mid hmid => run_statements_same fuel fuel' mid (by omega) (by omega))
        (fun mid hmid => run_type?_same fuel fuel' mid (by omega) (by omega))) fun e mid he => ?_
      cases e with
      | some e => rfl
      | none =>
        have hle :=
          (enclosed?_mayDerive (statements_derives fuel') (type?_mayDerive fuel')).length_le he
        refine run_bind_same rfl fun head mid' hhead => ?_
        cases head with
        | none => rfl
        | some head =>
          have hlt := operand?_mayDerive.length_lt (fun _ h => h.first) hhead
          exact run_bind_same (run_typeArgs_same fuel fuel' mid' (by omega) (by omega))
            fun _ _ _ => rfl

theorem run_typeArgs_same (fuel : Nat) : ∀ (fuel' : Nat) (s : TokenStream),
    s.tokens.length < fuel → s.tokens.length < fuel' →
    (typeArgs fuel).run s = (typeArgs fuel').run s := by
  intro fuel' s h h'
  cases fuel with
  | zero => exact absurd h (Nat.not_lt_zero _)
  | succ fuel =>
    cases fuel' with
    | zero => exact absurd h' (Nat.not_lt_zero _)
    | succ fuel' =>
      refine run_bind_same (run_enclosed?_same
        (fun mid hmid => run_statements_same fuel fuel' mid (by omega) (by omega))
        (fun mid hmid => run_type?_same fuel fuel' mid (by omega) (by omega))) fun e mid he => ?_
      have henclosed := enclosed?_mayDerive (statements_derives fuel') (type?_mayDerive fuel')
      cases e with
      | some e =>
        have hlt := henclosed.length_lt (fun _ h => h.first) he
        exact run_bind_same (run_typeArgs_same fuel fuel' mid (by omega) (by omega))
          fun _ _ _ => rfl
      | none =>
        have hle := henclosed.length_le he
        refine run_bind_same rfl fun a mid' ha => ?_
        cases a with
        | none => rfl
        | some a =>
          have hlt := operand?_mayDerive.length_lt (fun _ h => h.first) ha
          exact run_bind_same (run_typeArgs_same fuel fuel' mid' (by omega) (by omega))
            fun _ _ _ => rfl

end

/-- A body is read as with any more fuel. -/
theorem run_body_eq {fuel : Nat} (h : s.tokens.length < fuel) :
    body.run s = (bodyOf (statements fuel)).run s := by
  unfold body
  rw [run_get_bind]
  exact run_bodyOf_same (run_statements_same _ _ s (Nat.lt_succ_self _) h)

end TokenStream

end PacketSchema
