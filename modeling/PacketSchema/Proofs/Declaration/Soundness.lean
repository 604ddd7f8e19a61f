import PacketSchema.Proofs.Declaration.Returning

/-! What is read derives from the grammar. Every reader takes tokens that derive what it returns,
however much fuel it has. -/

namespace PacketSchema

theorem Token.inRange_of_not_isLiteral {t : Token} (h : t.isLiteral = false) : t.InRange := by
  intro hk
  simp [isLiteral, hk, TokenKind.isLiteral] at h

theorem Token.Reads.inRange {t : Token} {text : String} (h : t.Reads text) : t.InRange :=
  inRange_of_not_isLiteral h.1

theorem Token.inRange_of_ident {t : Token} (h : t.kind = .ident) : t.InRange := by
  intro hk
  rw [h] at hk
  cases hk

namespace TokenStream

open Grammar (Tail MoreNames Statements OptionalBlock OptionalType Spec Enclosed Args)

/-- In front of the rest a stream has tokens with a property, and its numbers are in range. -/
def Takes (G : List Token → Prop) (s rest : TokenStream) : Prop :=
  ∃ ts, s = rest.prepend ts ∧ G ts ∧ ∀ t ∈ ts, t.InRange

namespace Takes

variable {G H K : List Token → Prop} {s mid rest : TokenStream} {t u : Token}

theorem nil (h : G []) : Takes G s s := ⟨[], rfl, h, fun _ ht => nomatch ht⟩

theorem append (hG : Takes G s mid) (hH : Takes H mid rest)
    (h : ∀ ts us, G ts → H us → K (ts ++ us)) : Takes K s rest := by
  obtain ⟨ts, rfl, hts, hr⟩ := hG
  obtain ⟨us, rfl, hus, hr'⟩ := hH
  exact ⟨ts ++ us, (prepend_append _ _ _).symm, h ts us hts hus,
    List.forall_mem_append.2 ⟨hr, hr'⟩⟩

theorem cons (ht : t.InRange) (hH : Takes H s rest) (h : ∀ ts, H ts → K (t :: ts)) :
    Takes K (s.cons t) rest := by
  obtain ⟨ts, rfl, hts, hr⟩ := hH
  exact ⟨t :: ts, rfl, h ts hts, List.forall_mem_cons.2 ⟨ht, hr⟩⟩

theorem imp (hG : Takes G s rest) (h : ∀ ts, G ts → K ts) : Takes K s rest := by
  obtain ⟨ts, hs, hts, hr⟩ := hG
  exact ⟨ts, hs, h ts hts, hr⟩

/-- Between two symbols. -/
theorem between (ht : t.InRange) (hu : u.InRange) (hG : Takes G s (rest.cons u))
    (h : ∀ ts, G ts → K (t :: ts ++ [u])) : Takes K (s.cons t) rest := by
  refine cons ht (append hG (cons (K := (· = [u])) hu (nil (G := (· = [])) rfl) ?_) ?_)
    (H := fun ts => ∃ us, ts = us ++ [u] ∧ G us) ?_
  · rintro _ rfl
    rfl
  · rintro ts _ hts rfl
    exact ⟨ts, rfl, hts⟩
  · rintro _ ⟨us, rfl, hus⟩
    exact h us hus

end Takes

/-- What a reader returns derives from the tokens that it takes. -/
def Derives {α : Type} (G : List Token → α → Prop) (x : Reader α) : Prop :=
  ∀ s a rest, Returns x s a rest → Takes (G · a) s rest

/-- A reader returns what derives from the tokens that it takes, or takes none. -/
def MayDerive {α : Type} (G : List Token → α → Prop) (x : Reader (Option α)) : Prop :=
  ∀ s o rest, Returns x s o rest → (∃ a, o = some a ∧ Takes (G · a) s rest) ∨ o = none ∧ s = rest

theorem MayDerive.require {α : Type} {G : List Token → α → Prop} {x : Reader (Option α)}
    (hx : MayDerive G x) (what : Expectation) : Derives G (require what x) := by
  intro s a rest h
  obtain ⟨_, ⟨⟩, htakes⟩ | ⟨hnone, -⟩ := hx s _ rest (returns_require.1 h)
  · exact htakes
  · cases hnone

theorem ident?_mayDerive : MayDerive (fun ts i => ∃ t, ts = [t] ∧ t.kind = .ident ∧ i = t.ident)
    ident? := by
  intro s o rest h
  obtain ⟨t, ht, rfl, rfl⟩ | ⟨-, rfl, rfl⟩ := returns_ident?.1 h
  · exact .inl ⟨_, rfl, .cons (Token.inRange_of_ident ht) (.nil (G := (· = [])) rfl)
      fun _ hts => ⟨t, hts ▸ rfl, ht, rfl⟩⟩
  · exact .inr ⟨rfl, rfl⟩

theorem nameTail_derives (fuel : Nat) : Derives Tail (nameTail fuel) := by
  intro s names rest h
  induction fuel generalizing s names with
  | zero =>
    obtain ⟨rfl, rfl⟩ := returns_pure.1 h
    exact .nil .nil
  | succ fuel ih =>
    obtain ⟨dot, mid, hdot, rfl, hthen⟩ | ⟨-, helse⟩ := returns_ite.1 h
    · obtain ⟨i, mid', hi, hthen⟩ := returns_bind.1 hthen
      obtain ⟨names', _, htail, hthen⟩ := returns_bind.1 hthen
      obtain ⟨rfl, rfl⟩ := returns_pure.1 hthen
      refine .cons hdot.inRange
        ((ident?_mayDerive.require _ _ _ _ hi).append (K := fun ts => Tail (dot :: ts) _)
          (ih _ _ htail) ?_) fun _ hts => hts
      rintro _ us ⟨t, rfl, ht, rfl⟩ hus
      exact .cons hdot ht hus
    · obtain ⟨rfl, rfl⟩ := returns_pure.1 helse
      exact .nil .nil

theorem name?_mayDerive : MayDerive (fun ts n => Grammar.Operand ts (.name n)) name? := by
  intro s o rest h
  obtain ⟨i, mid, hi, h⟩ := returns_bind.1 h
  obtain ⟨i, rfl, hident⟩ | ⟨rfl, rfl⟩ := ident?_mayDerive _ _ _ hi
  · obtain ⟨_, _, hget, h⟩ := returns_bind.1 h
    obtain ⟨rfl, rfl⟩ := returns_get.1 hget
    obtain ⟨names, _, htail, h⟩ := returns_bind.1 h
    obtain ⟨rfl, rfl⟩ := returns_pure.1 h
    refine .inl ⟨_, rfl, hident.append (nameTail_derives _ _ _ _ htail) ?_⟩
    rintro _ us ⟨t, rfl, ht, rfl⟩ hus
    exact .name ht hus
  · exact .inr (returns_pure.1 h)

theorem operand_of_ofToken {t : Token} {l : Literal}
    (h : Literal.ofToken t.kind t.text t.position = .ok l) :
    Grammar.Operand [t] (.value ⟨l, t.text, t.position⟩) ∧ t.InRange := by
  unfold Literal.ofToken at h
  split at h
  · rename_i hk
    split at h
    · rename_i n hn
      cases h
      obtain ⟨hvalue, hrange⟩ := Option.filter_eq_some_iff.1 hn
      refine ⟨.number hk hvalue, fun _ m hm => ?_⟩
      rw [hvalue] at hm
      cases hm
      exact of_decide_eq_true hrange
    · cases h
  · rename_i hk
    cases h
    exact ⟨.string hk, fun hnumber => by rw [hk] at hnumber; cases hnumber⟩
  · cases h

theorem returns_liftExcept {α : Type} {x : Except SchemaError α} {s rest : TokenStream} {a : α}
    (h : Returns (liftExcept x) s a rest) : x = .ok a ∧ s = rest := by
  cases x with
  | error e => exact absurd h not_returns_throw
  | ok b =>
    obtain ⟨rfl, rfl⟩ := returns_pure.1 h
    exact ⟨rfl, rfl⟩

theorem value?_mayDerive : MayDerive (fun ts v => Grammar.Operand ts (.value v)) value? := by
  intro s o rest h
  obtain ⟨found, mid, hfound, h⟩ := returns_bind.1 h
  obtain ⟨t, -, rfl, rfl⟩ | ⟨-, rfl, rfl⟩ := returns_takeIf.1 hfound
  · obtain ⟨l, _, hl, h⟩ := returns_bind.1 h
    obtain ⟨rfl, rfl⟩ := returns_pure.1 h
    obtain ⟨hliteral, rfl⟩ := returns_liftExcept hl
    obtain ⟨hoperand, hrange⟩ := operand_of_ofToken hliteral
    exact .inl ⟨_, rfl, .cons hrange (.nil (G := (· = [])) rfl) fun _ hts => hts ▸ hoperand⟩
  · exact .inr (returns_pure.1 h)

theorem operand?_mayDerive : MayDerive Grammar.Operand operand? := by
  intro s o rest h
  obtain ⟨n, mid, hn, h⟩ := returns_bind.1 h
  obtain ⟨m, rfl, htakes⟩ | ⟨rfl, rfl⟩ := name?_mayDerive _ _ _ hn
  · obtain ⟨rfl, rfl⟩ := returns_pure.1 h
    exact .inl ⟨_, rfl, htakes⟩
  · obtain ⟨v, hv, rfl⟩ := returns_map.1 h
    obtain ⟨v, rfl, htakes⟩ | ⟨rfl, rfl⟩ := value?_mayDerive _ _ _ hv
    · exact .inl ⟨_, rfl, htakes⟩
    · exact .inr ⟨rfl, rfl⟩

/-- The names of fields with the colon behind them. -/
theorem moreNames_derives (fuel : Nat) : Derives (fun ts names => ∃ us colon,
    ts = us ++ [colon] ∧ MoreNames us names ∧ colon.Reads ":") (moreNames fuel) := by
  intro s names rest h
  induction fuel generalizing s names with
  | zero => exact absurd h not_returns_refuse
  | succ fuel ih =>
    obtain ⟨colon, mid, hcolon, rfl, hthen⟩ | ⟨-, helse⟩ := returns_ite.1 h
    · obtain ⟨rfl, rfl⟩ := returns_pure.1 hthen
      exact .cons hcolon.inRange (.nil (G := (· = [])) rfl)
        fun _ hts => ⟨[], colon, by rw [hts]; rfl, .nil, hcolon⟩
    · obtain ⟨comma, mid, hcomma, rfl, hthen⟩ | ⟨-, helse⟩ := returns_ite.1 helse
      · obtain ⟨i, mid', hi, hthen⟩ := returns_bind.1 hthen
        obtain ⟨names', _, hmore, hthen⟩ := returns_bind.1 hthen
        obtain ⟨rfl, rfl⟩ := returns_pure.1 hthen
        refine .cons hcomma.inRange
          ((ident?_mayDerive.require _ _ _ _ hi).append (H := fun ts => ∃ us colon,
            ts = us ++ [colon] ∧ MoreNames us names' ∧ colon.Reads ":")
            (K := fun ts => ∃ us colon, comma :: ts = us ++ [colon] ∧
              MoreNames us (i :: names') ∧ colon.Reads ":") (ih _ _ hmore) ?_) fun _ hts => hts
        rintro _ _ ⟨t, rfl, ht, rfl⟩ ⟨us, colon, rfl, hus, hcolon⟩
        exact ⟨comma :: t :: us, colon, rfl, .cons hcomma ht hus, hcolon⟩
      · exact absurd helse not_returns_refuse

/-! ## Declarations -/

section

variable {statements : Reader (List Statement)} {block? : Reader (Option Body)}
  {type? : Reader (Option TypeExpr)}

theorem bodyOf_takes (hs : Derives Statements statements) {s rest : TokenStream} {b : Body}
    (h : Returns (bodyOf statements) s b rest) : Takes (Grammar.Body rest.front · b) s rest := by
  obtain ⟨p, _, hp, h⟩ := returns_bind.1 h
  obtain ⟨-, rfl, rfl⟩ := returns_position.1 hp
  obtain ⟨ss, _, hss, h⟩ := returns_bind.1 h
  obtain ⟨rfl, rfl⟩ := returns_pure.1 h
  obtain ⟨ts, rfl, hts, hr⟩ := hs _ _ _ hss
  refine ⟨ts, rfl, ?_, hr⟩
  rw [front_prepend]
  exact .mk hts

theorem block?_mayDerive (hs : Derives Statements statements) :
    MayDerive Grammar.Block (TokenStream.block? statements) := by
  intro s o rest h
  obtain ⟨t, u, b, mid, mid', ht, hu, rfl, hb, rfl, rfl⟩ | ⟨-, rfl, rfl⟩ := returns_between?.1 h
  · exact .inl ⟨b, rfl, .between ht.inRange hu.inRange
      (bodyOf_takes hs hb) fun _ hts => .mk ht hts hu⟩
  · exact .inr ⟨rfl, rfl⟩

theorem MayDerive.optional (hb : MayDerive Grammar.Block block?) :
    Derives OptionalBlock block? := by
  intro s o rest h
  obtain ⟨b, rfl, htakes⟩ | ⟨rfl, rfl⟩ := hb _ _ _ h
  · exact htakes.imp fun _ hts => .some hts
  · exact .nil .none

theorem enclosed?_mayDerive (hs : Derives Statements statements) (ht : MayDerive Spec type?) :
    MayDerive Enclosed (enclosed? statements type?) := by
  intro s o rest h
  obtain ⟨e, mid, he, h⟩ := returns_bind.1 h
  obtain ⟨t, u, e, mid, mid', htext, hu, rfl, hspec, rfl, rfl⟩ | ⟨-, rfl, rfl⟩ :=
    returns_between?.1 he
  · obtain ⟨rfl, rfl⟩ := returns_pure.1 h
    exact .inl ⟨e, rfl, .between htext.inRange hu.inRange
      (ht.require _ _ _ _ hspec) fun _ hts => .parentheses htext hts hu⟩
  · obtain ⟨b, hb, rfl⟩ := returns_map.1 h
    obtain ⟨b, rfl, htakes⟩ | ⟨rfl, rfl⟩ := block?_mayDerive hs _ _ _ hb
    · exact .inl ⟨_, rfl, htakes.imp fun _ hts => .block hts⟩
    · exact .inr ⟨rfl, rfl⟩

theorem typeOrBlock?_derives (hb : MayDerive Grammar.Block block?) (ht : MayDerive Spec type?) :
    Derives OptionalType (typeOrBlock? block? type?) := by
  intro s o rest h
  obtain ⟨colon, mid, hcolon, rfl, hthen⟩ | ⟨-, helse⟩ := returns_ite.1 h
  · obtain ⟨e, _, he, hthen⟩ := returns_bind.1 hthen
    obtain ⟨rfl, rfl⟩ := returns_pure.1 hthen
    exact .cons hcolon.inRange (ht.require _ _ _ _ he) fun _ hts =>
      .spec hcolon hts
  · obtain ⟨b, hb', rfl⟩ := returns_map.1 helse
    obtain ⟨b, rfl, htakes⟩ | ⟨rfl, rfl⟩ := hb _ _ _ hb'
    · exact htakes.imp fun _ hts => .block hts
    · exact .nil .none

/-- What stands behind an operand makes a statement of it. -/
theorem fieldsOrConstraint_derives (ht : MayDerive Spec type?) {t : Token} {ts : List Token}
    {left : Operand} (hleft : Grammar.Operand (t :: ts) left) :
    Derives (fun us st => Grammar.Statement (t :: ts ++ us) st)
      (fieldsOrConstraint t.position left type?) := by
  intro s st rest h
  obtain ⟨equals, mid, hequals, rfl, hthen⟩ | ⟨-, helse⟩ := returns_ite.1 h
  · obtain ⟨right, _, hright, hthen⟩ := returns_bind.1 hthen
    obtain ⟨rfl, rfl⟩ := returns_pure.1 hthen
    exact .cons hequals.inRange (operand?_mayDerive.require _ _ _ _ hright)
      fun _ hus => .constraint hleft hequals hus
  · split at helse
    · obtain ⟨_, _, hget, helse⟩ := returns_bind.1 helse
      obtain ⟨rfl, rfl⟩ := returns_get.1 hget
      obtain ⟨names, mid, hnames, helse⟩ := returns_bind.1 helse
      obtain ⟨e, _, he, helse⟩ := returns_bind.1 helse
      obtain ⟨rfl, rfl⟩ := returns_pure.1 helse
      refine (moreNames_derives _ _ _ _ hnames).append (ht.require _ _ _ _ he) ?_
      rintro _ vs ⟨us, colon, rfl, hus, hcolon⟩ hvs
      cases hleft with
      | name hident htail =>
        cases htail
        rw [List.append_assoc]
        exact .fields hident hus hcolon hvs
    · exact absurd helse not_returns_throw

theorem statement?_mayDerive (hb : MayDerive Grammar.Block block?) (ht : MayDerive Spec type?) :
    MayDerive Grammar.Statement (statement? block? type?) := by
  intro s o rest h
  obtain ⟨p, _, hp, h⟩ := returns_bind.1 h
  obtain ⟨-, rfl, rfl⟩ := returns_position.1 hp
  obtain ⟨t, mid, htext, rfl, hthen⟩ | ⟨-, helse⟩ := returns_ite.1 h
  · obtain ⟨name, mid', hname, hthen⟩ := returns_bind.1 hthen
    obtain ⟨body, _, hbody, hthen⟩ := returns_bind.1 hthen
    obtain ⟨rfl, rfl⟩ := returns_pure.1 hthen
    have hbody := hb.optional _ _ _ hbody
    refine .inl ⟨_, rfl, ?_⟩
    obtain ⟨i, rfl, hident⟩ | ⟨rfl, rfl⟩ := ident?_mayDerive _ _ _ hname
    · refine .cons htext.inRange (hident.append hbody
        (K := fun ts => Grammar.Statement (t :: ts) _) ?_) fun _ hts => hts
      rintro _ us ⟨i, rfl, hi, rfl⟩ hus
      exact .variant htext hi hus
    · exact .cons htext.inRange hbody fun _ hts => .proxy htext hts
  obtain ⟨t, mid, htext, rfl, hthen⟩ | ⟨-, helse⟩ := returns_ite.1 helse
  · obtain ⟨name, mid', hname, hthen⟩ := returns_bind.1 hthen
    obtain ⟨body, _, hbody, hthen⟩ := returns_bind.1 hthen
    obtain ⟨rfl, rfl⟩ := returns_pure.1 hthen
    refine .inl ⟨_, rfl, .cons htext.inRange
      ((ident?_mayDerive.require _ _ _ _ hname).append (hb.optional _ _ _ hbody)
        (K := fun ts => Grammar.Statement (t :: ts) _) ?_) fun _ hts => hts⟩
    rintro _ us ⟨i, rfl, hi, rfl⟩ hus
    exact .space htext hi hus
  obtain ⟨t, mid, htext, rfl, hthen⟩ | ⟨-, helse⟩ := returns_ite.1 helse
  · obtain ⟨name, mid', hname, hthen⟩ := returns_bind.1 hthen
    obtain ⟨e, _, he, hthen⟩ := returns_bind.1 hthen
    obtain ⟨rfl, rfl⟩ := returns_pure.1 hthen
    refine .inl ⟨_, rfl, .cons htext.inRange
      ((ident?_mayDerive.require _ _ _ _ hname).append (typeOrBlock?_derives hb ht _ _ _ he)
        (K := fun ts => Grammar.Statement (t :: ts) _) ?_) fun _ hts => hts⟩
    rintro _ us ⟨i, rfl, hi, rfl⟩ hus
    exact .type htext hi hus
  obtain ⟨left, mid, hleft, helse⟩ := returns_bind.1 helse
  obtain ⟨left, rfl, ts, rfl, hts, hr⟩ | ⟨rfl, rfl⟩ := operand?_mayDerive _ _ _ hleft
  · obtain ⟨st, _, hst, helse⟩ := returns_bind.1 helse
    obtain ⟨rfl, rfl⟩ := returns_pure.1 helse
    obtain ⟨t, us, rfl, -⟩ := hts.first
    refine .inl ⟨_, rfl, .append (G := (· = t :: us)) ⟨_, rfl, rfl, hr⟩
      (fieldsOrConstraint_derives ht hts _ _ _ hst) ?_⟩
    rintro _ vs rfl hvs
    exact hvs
  · exact .inr (returns_pure.1 helse)

end

mutual

theorem statements_derives (fuel : Nat) : Derives Statements (statements fuel) := by
  intro s ss rest h
  cases fuel with
  | zero => exact absurd h not_returns_refuse
  | succ fuel =>
    obtain ⟨t, mid, ht, rfl, hthen⟩ | ⟨-, helse⟩ := returns_ite.1 h
    · exact .cons ht.inRange (statements_derives fuel _ _ _ hthen) fun _ hts =>
        .skip ht hts
    · obtain ⟨st, mid, hst, helse⟩ := returns_bind.1 helse
      obtain ⟨st, rfl, htakes⟩ | ⟨rfl, rfl⟩ := statement?_mayDerive
        (block?_mayDerive (statements_derives fuel)) (type?_mayDerive fuel) _ _ _ hst
      · obtain ⟨_, mid', hsemicolon, helse⟩ := returns_bind.1 helse
        obtain ⟨rest', _, hrest, helse⟩ := returns_bind.1 helse
        obtain ⟨rfl, rfl⟩ := returns_pure.1 helse
        obtain ⟨t, ht, rfl⟩ := returns_expect.1 hsemicolon
        exact htakes.append (.cons (K := fun us => ∃ vs, us = t :: vs ∧ Statements vs rest')
          ht.inRange (statements_derives fuel _ _ _ hrest) fun vs hvs => ⟨vs, rfl, hvs⟩)
          fun _ _ hts ⟨vs, hus, hvs⟩ => hus ▸ .cons hts ht hvs
      · obtain ⟨rfl, rfl⟩ := returns_pure.1 helse
        exact .nil .nil

theorem type?_mayDerive (fuel : Nat) : MayDerive Spec (type? fuel) := by
  intro s o rest h
  cases fuel with
  | zero => exact absurd h not_returns_refuse
  | succ fuel =>
    obtain ⟨p, _, hp, h⟩ := returns_bind.1 h
    obtain ⟨-, rfl, rfl⟩ := returns_position.1 hp
    obtain ⟨e, mid, he, h⟩ := returns_bind.1 h
    obtain ⟨e, rfl, htakes⟩ | ⟨rfl, rfl⟩ :=
      enclosed?_mayDerive (statements_derives fuel) (type?_mayDerive fuel) _ _ _ he
    · obtain ⟨rfl, rfl⟩ := returns_pure.1 h
      exact .inl ⟨e, rfl, htakes.imp fun _ hts => .enclosed hts⟩
    · obtain ⟨head, mid, hhead, h⟩ := returns_bind.1 h
      obtain ⟨head, rfl, ts, rfl, hts, hr⟩ | ⟨rfl, rfl⟩ := operand?_mayDerive _ _ _ hhead
      · obtain ⟨args, _, hargs, h⟩ := returns_bind.1 h
        obtain ⟨rfl, rfl⟩ := returns_pure.1 h
        obtain ⟨t, us, rfl, -⟩ := hts.first
        refine .inl ⟨_, rfl, .append (G := (· = t :: us)) ⟨_, rfl, rfl, hr⟩
          (typeArgs_derives fuel _ _ _ hargs) ?_⟩
        rintro _ vs rfl hvs
        exact .application hts hvs
      · exact .inr (returns_pure.1 h)

theorem typeArgs_derives (fuel : Nat) : Derives Args (typeArgs fuel) := by
  intro s args rest h
  cases fuel with
  | zero => exact absurd h not_returns_refuse
  | succ fuel =>
    obtain ⟨e, mid, he, h⟩ := returns_bind.1 h
    obtain ⟨e, rfl, htakes⟩ | ⟨rfl, rfl⟩ :=
      enclosed?_mayDerive (statements_derives fuel) (type?_mayDerive fuel) _ _ _ he
    · obtain ⟨args', _, hargs, h⟩ := returns_bind.1 h
      obtain ⟨rfl, rfl⟩ := returns_pure.1 h
      exact htakes.append (typeArgs_derives fuel _ _ _ hargs) fun _ _ hts hus => .enclosed hts hus
    · obtain ⟨a, mid, ha, h⟩ := returns_bind.1 h
      obtain ⟨a, rfl, htakes⟩ | ⟨rfl, rfl⟩ := operand?_mayDerive _ _ _ ha
      · obtain ⟨args', _, hargs, h⟩ := returns_bind.1 h
        obtain ⟨rfl, rfl⟩ := returns_pure.1 h
        exact htakes.append (typeArgs_derives fuel _ _ _ hargs) fun _ _ hts hus => .operand hts hus
      · obtain ⟨rfl, rfl⟩ := returns_pure.1 h
        exact .nil .nil

end

end TokenStream

end PacketSchema
