import PacketSchema.Proofs.Compilation.Binding
import PacketSchema.Proofs.Compilation.Completing

/-! Declarations and what becomes of them. Whatever is declared with a name is what the name is
bound to in the end, and nothing else is bound to a name. -/

namespace PacketSchema

/-! ## Declared names -/

mutual

/-- The names that are declared in an argument, at any depth. -/
def TypeArg.declared : TypeArg → List String
  | .name _ | .value _ => []
  | .type e => e.declared

def TypeExpr.declared : TypeExpr → List String
  | .application _ head args => head.declared ++ TypeArg.allDeclared args
  | .body b => b.declared

def Body.declared : Body → List String
  | .mk _ statements => Statement.allDeclared statements

/-- The names that are declared within a declaration, its own name apart. -/
def Statement.declaredInside : Statement → List String
  | .space _ _ none | .type _ _ none | .variant _ _ none | .constraint _ _ _ => []
  | .space _ _ (some body) | .variant _ _ (some body) => body.declared
  | .type _ _ (some e) | .fields _ _ e => e.declared

def TypeArg.allDeclared : List TypeArg → List String
  | [] => []
  | a :: rest => a.declared ++ TypeArg.allDeclared rest

def Statement.allDeclared : List Statement → List String
  | [] => []
  | st :: rest =>
    (st.name?.map Ident.text).toList ++ st.declaredInside ++ Statement.allDeclared rest

end

def Statement.declared (st : Statement) : List String :=
  (st.name?.map Ident.text).toList ++ st.declaredInside

theorem TypeArg.declared_of_isWord {a : TypeArg} (h : a.IsWord) : a.declared = [] := by
  cases a with
  | name _ => rfl
  | value _ => rfl
  | type _ => exact h.elim

theorem TypeArg.allDeclared_of_isWord {args : List TypeArg} (h : ∀ a ∈ args, TypeArg.IsWord a) :
    TypeArg.allDeclared args = [] := by
  induction args with
  | nil => rfl
  | cons a args ih =>
    unfold TypeArg.allDeclared
    rw [declared_of_isWord (h a (.head _)), ih fun b hb => h b (.tail _ hb), List.append_nil]

theorem TypeArg.allDeclared_singleton (a : TypeArg) : TypeArg.allDeclared [a] = a.declared :=
  List.append_nil _

theorem Body.allDeclared_statements (b : Body) :
    Statement.allDeclared b.statements = b.declared := by
  cases b
  rfl

theorem Statement.declared_of_name {st : Statement} {name : Ident} (h : st.name? = some name) :
    st.declared = name.text :: st.declaredInside := by
  unfold Statement.declared
  rw [h]
  rfl

theorem TypeArg.declared_of_expr? {a : TypeArg} {e : TypeExpr} (he : a.expr? = some e) :
    a.declared = e.declared := by
  cases a with
  | name n =>
    cases he
    rfl
  | value _ => cases he
  | type _ =>
    cases he
    rfl

namespace Schema

/-- The scope with a number is one of the same shape. -/
def HasShape (s : Schema) (id : ScopeId) (scope : Scope) : Prop :=
  ∃ found, s.scope? id = some found ∧ found.shape = scope.shape

theorem HasShape.keeps {s s' : Schema} {id : ScopeId} {scope : Scope} (h : s.HasShape id scope)
    (hk : s.Keeps s') : s'.HasShape id scope := by
  obtain ⟨found, hs, heq⟩ := h
  obtain ⟨found', hs', heq'⟩ := hk id found hs
  exact ⟨found', hs', heq'.trans heq⟩

end Schema

namespace Compilation

open Schema

/-! ## What becomes of declarations -/

mutual

/-- What is declared in an argument that stands in the scope is bound in the schema. -/
def DeclaredArg (ms : List Compilation) (s : Schema) : TypeArg → ScopeId → Prop
  | .name _, _ | .value _, _ => True
  | .type e, d => DeclaredType ms s e d

def DeclaredType (ms : List Compilation) (s : Schema) : TypeExpr → ScopeId → Prop
  | .application _ head args, d => DeclaredArg ms s head d ∧ DeclaredArgs ms s args d
  | .body (.mk p statements), d =>
    ∃ id, s.HasShape id ⟨none, some d, some p, .struct {}, {}⟩ ∧
      DeclaredAll ms s statements id

def DeclaredBody (ms : List Compilation) (s : Schema) : Option Body → ScopeId → Prop
  | none, _ => True
  | some (.mk _ statements), d => DeclaredAll ms s statements d

/-- A declaration that stands in the scope is bound to its name there, and so is all that is
declared inside of it. A name for a type that has been resolved is bound to that type. -/
def Declared (ms : List Compilation) (s : Schema) : Statement → ScopeId → Prop
  | .space p name body, d =>
    ∃ id, s.getLocal? d name.text = some (.space id) ∧
      s.HasShape id ⟨some name.text, some d, some p, .space, {}⟩ ∧ DeclaredBody ms s body id
  | .type p name none, d =>
    ∃ id, s.getLocal? d name.text = some (.type (.struct id)) ∧
      s.HasShape id ⟨some name.text, some d, some p, .struct {}, {}⟩
  | .type p name (some (.body (.mk _ statements))), d =>
    ∃ id, s.getLocal? d name.text = some (.type (.struct id)) ∧
      s.HasShape id ⟨some name.text, some d, some p, .struct {}, {}⟩ ∧
      DeclaredAll ms s statements id
  | .type _ name (some (.application q head args)), d =>
    (∃ t, s.getLocal? d name.text = some (.type t) ∧
      Resolved ms d (.application q head args) t) ∧
      DeclaredArg ms s head d ∧ DeclaredArgs ms s args d
  | .variant p (some name) body, d =>
    ∃ id kind, kind.path?.isSome = true ∧
      s.getLocal? d name.text = some (.type (.struct id)) ∧
      s.HasShape id ⟨some name.text, some d, some p, kind, {}⟩ ∧ DeclaredBody ms s body id
  | .variant p none body, d =>
    ∃ id kind, ScopeKind.isProxy kind = true ∧
      s.HasShape id ⟨none, some d, some p, kind, {}⟩ ∧ DeclaredBody ms s body id
  | .constraint _ _ _, _ => True
  | .fields _ _ e, d => DeclaredType ms s e d

def DeclaredArgs (ms : List Compilation) (s : Schema) : List TypeArg → ScopeId → Prop
  | [], _ => True
  | a :: rest, d => DeclaredArg ms s a d ∧ DeclaredArgs ms s rest d

def DeclaredAll (ms : List Compilation) (s : Schema) : List Statement → ScopeId → Prop
  | [], _ => True
  | st :: rest, d => Declared ms s st d ∧ DeclaredAll ms s rest d

end

section

variable {ms : List Compilation} {s : Schema} {d : ScopeId}

theorem declaredArg_of_isWord {a : TypeArg} (h : a.IsWord) : DeclaredArg ms s a d := by
  cases a with
  | name _ => exact trivial
  | value _ => exact trivial
  | type _ => exact h.elim

theorem declaredArgs_of_isWord {args : List TypeArg} (h : ∀ a ∈ args, TypeArg.IsWord a) :
    DeclaredArgs ms s args d := by
  induction args with
  | nil => exact trivial
  | cons a args ih =>
    exact ⟨declaredArg_of_isWord (h a (.head _)), ih fun b hb => h b (.tail _ hb)⟩

theorem declaredArg_of_expr? {a : TypeArg} {e : TypeExpr} (he : a.expr? = some e)
    (h : DeclaredType ms s e d) : DeclaredArg ms s a d := by
  cases a with
  | name _ => exact trivial
  | value _ => exact trivial
  | type _ =>
    cases he
    exact h

theorem declaredBody_inside {body : Option Body} (h : DeclaredAll ms s (Body.inside body) d) :
    DeclaredBody ms s body d := by
  cases body with
  | none => exact trivial
  | some body =>
    cases body
    exact h

/-- The item is what a declaration stands for, and what is declared inside of it is bound. -/
inductive Means (ms : List Compilation) (s : Schema) (d : ScopeId) : Statement → Item → Prop
  | opened {st : Statement} {scope : Scope} {body : List Statement} {id : ScopeId}
      (hst : Stands d st scope body) (hs : s.HasShape id scope) (h : DeclaredAll ms s body id) :
      Means ms s d st (scope.item id)
  | assigned {p : Position} {name : Ident} {q : Position} {head : TypeArg} {args : List TypeArg}
      {t : TypeRef} (hrun : Resolved ms d (.application q head args) t)
      (h : DeclaredType ms s (.application q head args) d) :
      Means ms s d (.type p name (some (.application q head args))) (.type t)

theorem Means.declared {st : Statement} {name : Ident} {item : Item} (h : Means ms s d st item)
    (hname : st.name? = some name) (hitem : s.getLocal? d name.text = some item) :
    Declared ms s st d := by
  cases h with
  | @assigned p other q head args t hrun h =>
    cases hname
    exact ⟨⟨t, hitem, hrun⟩, h⟩
  | @opened _ scope body id hst hs h =>
    cases hst with
    | space p other body =>
      cases hname
      exact ⟨id, hitem, hs, declaredBody_inside h⟩
    | @struct p other e body hinside =>
      cases hname
      match e, hinside with
      | none, _ => exact ⟨id, hitem, hs⟩
      | some (.body (.mk _ _)), rfl => exact ⟨id, hitem, hs, h⟩
    | @variant p other body kind hk =>
      cases hname
      rw [Scope.item_of_path hk] at hitem
      exact ⟨id, kind, hk, hitem, hs, declaredBody_inside h⟩

end

/-- What a schema has after a job. -/
def Job.Declared (ms : List Compilation) (s : Schema) (d : ScopeId) : Job → Prop
  | .scope new body id => s.HasShape id new ∧ DeclaredAll ms s body id
  | .type e _ => DeclaredType ms s e d
  | .length a => DeclaredArg ms s a d
  | .applied args _ => DeclaredArgs ms s args d
  | .meaning st item => Means ms s d st item
  | .bound st item =>
    Means ms s d st item ∧ ∃ name, st.name? = some name ∧ s.getLocal? d name.text = some item
  | .statement st => Compilation.Declared ms s st d
  | .statements sts => DeclaredAll ms s sts d

/-- What a job declares stays declared, whatever the schema becomes. -/
theorem Makes.stays {ms : List Compilation} {d : ScopeId} {job : Job} {s s' : Schema}
    (h : Makes ms d job s s') (hr : s.Rooted) (hd : s.Has d) {final : Schema}
    (hfinal : Grows s' final) : job.Declared ms final d := by
  induction h generalizing final with
  | @scope d task scope body s s' hopens h ih =>
    have hr' := hr.addScope hd hopens.parent
    have hhas := has_addScope s scope
    have hshape : (s.addScope scope).HasShape s.nextId scope :=
      ⟨scope, scope?_addScope_self s scope, rfl⟩
    have hgrows := (h.framed hr' hhas).toGrows.trans hfinal
    exact ⟨hshape.keeps hgrows.keeps, ih hr' hhas hfinal⟩
  | builtin _ _ => exact ⟨trivial, trivial⟩
  | @application d p n b args t s s' _ h ih =>
    have hframed := h.framed hr hd
    have hintern : Framed none s' (s'.intern t) := .of_scopes_eq hframed.rooted rfl
    exact ⟨trivial, ih hr hd (hintern.toGrows.trans hfinal)⟩
  | named _ _ => exact ⟨trivial, trivial⟩
  | grouped _ ih => exact ⟨ih hr hd hfinal, trivial⟩
  | inline _ ih => exact ⟨_, ih hr hd hfinal⟩
  | word ha => exact declaredArg_of_isWord ha
  | counted he _ ih => exact declaredArg_of_expr? he (ih hr hd hfinal)
  | plain hargs _ => exact declaredArgs_of_isWord hargs
  | measured hargs _ _ ih => exact ⟨ih hr hd hfinal, declaredArgs_of_isWord hargs⟩
  | array hl he h ihl ih =>
    have hframed := hl.framed hr hd
    have hd₁ := hframed.keeps.has hd
    have hgrows := (h.framed hframed.rooted hd₁).toGrows.trans hfinal
    exact ⟨ihl hr hd hgrows, declaredArg_of_expr? he (ih hframed.rooted hd₁ hfinal), trivial⟩
  | boolOptional he _ ih => exact ⟨declaredArg_of_expr? he (ih hr hd hfinal), trivial⟩
  | opened hst _ ih =>
    obtain ⟨hshape, hinside⟩ := ih hr hd hfinal
    exact .opened hst hshape hinside
  | assigned hrun _ ih => exact .assigned hrun (ih hr hd hfinal)
  | @bound d st name item s s' hname hfree h ih =>
    have hframed := h.framed hr hd
    have hd' := hframed.keeps.has hd
    have hbind := Framed.bind hframed.rooted hd' (h.free hr hd hfree) item
    refine ⟨ih hr hd (hbind.toGrows.trans hfinal), name, hname, ?_⟩
    refine hfinal.bound (hbind.keeps.has hd') ?_
    rw [getLocal?_bind hframed.rooted hd' hd', if_pos ⟨rfl, rfl⟩]
  | declared _ _ ih =>
    obtain ⟨hmeans, name, hname, hitem⟩ := ih hr hd hfinal
    exact hmeans.declared hname hitem
  | @variant d p name body id a path layout s s' _ _ h _ _ ih =>
    have hbranch : Framed none s' _ :=
      .modifyLayout (h.framed hr hd).rooted a.base (·.addBranch path id)
    obtain ⟨hmeans, name, hname, hitem⟩ := ih hr hd (hbranch.toGrows.trans hfinal)
    exact hmeans.declared hname hitem
  | proxy hk _ ih =>
    obtain ⟨hshape, hinside⟩ := ih hr hd hfinal
    exact ⟨_, _, hk, hshape, declaredBody_inside hinside⟩
  | constraint _ _ _ => exact trivial
  | fields _ h hadds ih =>
    exact ih hr hd ((hadds.framed (h.framed hr hd).rooted).toGrows.trans hfinal)
  | nil => exact trivial
  | cons h hrest ih ihrest =>
    have hframed := h.framed hr hd
    have hd₁ := hframed.keeps.has hd
    have hgrows := (hrest.framed hframed.rooted hd₁).toGrows.trans hfinal
    exact ⟨ih hr hd hgrows, ihrest hframed.rooted hd₁ hfinal⟩

/-! ## What is bound -/

theorem perm_flatMap_modify {α β : Type} {f : α → α} {g : α → List β} {more : List β} {i : Nat}
    {a : α} {l : List α} (hi : l[i]? = some a) (hf : g (f a) = g a ++ more) :
    ((l.modify i f).flatMap g).Perm (l.flatMap g ++ more) := by
  induction l generalizing i with
  | nil => cases hi
  | cons b l ih =>
    cases i with
    | zero =>
      cases hi
      simp only [List.modify_zero_cons, List.flatMap_cons, hf, List.append_assoc]
      exact .append_left _ List.perm_append_comm
    | succ i =>
      simp only [List.modify_succ_cons, List.flatMap_cons, List.append_assoc]
      exact .append_left _ (ih hi)

/-- The names that are bound in addition. -/
def Binds (names : List String) (s s' : Schema) : Prop :=
  s'.boundNames.Perm (s.boundNames ++ names)

namespace Binds

variable {names more : List String} {s s₁ s' : Schema}

theorem of_tables_eq (h : s'.tables = s.tables) : Binds [] s s' := by
  unfold Binds boundNames
  rw [h, List.append_nil]

theorem refl (s : Schema) : Binds [] s s := of_tables_eq rfl

theorem trans (h : Binds names s s₁) (h' : Binds more s₁ s') : Binds (names ++ more) s s' := by
  unfold Binds at h h' ⊢
  rw [← List.append_assoc]
  exact h'.trans (h.append_right more)

/-- What binds no names adds nothing to those that are bound. -/
theorem trans_nil (h : Binds names s s₁) (h' : Binds [] s₁ s') : Binds names s s' := by
  have hall := h.trans h'
  rwa [List.append_nil] at hall

theorem perm (h : Binds names s s') (hp : more.Perm names) : Binds more s s' :=
  List.Perm.trans h (hp.symm.append_left _)

theorem addScope {scope : Scope} (h : scope.names = {}) : Binds [] s (s.addScope scope) := by
  unfold Binds boundNames
  rw [tables_addScope h, List.flatMap_append]
  exact .refl _

theorem bind (hr : s.Rooted) {d : ScopeId} (hd : s.Has d) {name : String}
    (hfree : s.getLocal? d name = none) (item : Item) : Binds [name] s (s.bind d name item) := by
  obtain ⟨owner, ho, -, -⟩ := hr.namesOwner_spec hd
  unfold Binds boundNames tables
  rw [List.flatMap_map, List.flatMap_map]
  refine perm_flatMap_modify ho ?_
  rw [entries_insert_of_free ho hfree, List.map_append]
  rfl

end Binds

theorem AddsFields.tables_eq {d : ScopeId} {t : TypeRef} {names : List Ident} {s s' : Schema}
    (h : AddsFields d t names s s') : s'.tables = s.tables := by
  induction h with
  | nil => rfl
  | warn f _ ih => exact ih.trans (tables_of_scopes_eq rfl)
  | cons _ _ _ ih => exact ih.trans (tables_modifyLayout _ _ _)

theorem Stands.declaredInside {d : ScopeId} {st : Statement} {scope : Scope}
    {body : List Statement} (h : Stands d st scope body) :
    st.declaredInside = Statement.allDeclared body := by
  cases h with
  | space p name body =>
    cases body with
    | none => rfl
    | some body => exact body.allDeclared_statements.symm
  | variant p name body _ =>
    cases body with
    | none => rfl
    | some body => exact body.allDeclared_statements.symm
  | @struct p name e body hinside =>
    match e, hinside with
    | none, rfl => rfl
    | some (.body (.mk _ _)), rfl => rfl

/-- The names that a job binds. -/
def Job.names : Job → List String
  | .scope _ body _ => Statement.allDeclared body
  | .type e _ => e.declared
  | .length a => a.declared
  | .applied args _ => TypeArg.allDeclared args
  | .meaning st _ => st.declaredInside
  | .bound st _ | .statement st => st.declared
  | .statements sts => Statement.allDeclared sts

/-- What is declared with a name is bound, each time, and nothing else is. -/
theorem Makes.binds {ms : List Compilation} {d : ScopeId} {job : Job} {s s' : Schema}
    (h : Makes ms d job s s') (hr : s.Rooted) (hd : s.Has d) : Binds job.names s s' := by
  induction h with
  | @scope d task scope body s s' hopens h ih =>
    have hinside := ih (hr.addScope hd hopens.parent) (has_addScope s scope)
    exact (Binds.addScope hopens.names).trans hinside
  | builtin _ _ => exact .refl _
  | application _ _ ih => exact (ih hr hd).trans_nil (.of_tables_eq rfl)
  | named _ _ => exact .refl _
  | grouped _ ih => exact (ih hr hd).perm (.of_eq (List.append_nil _))
  | inline _ ih => exact ih hr hd
  | word ha => exact (Binds.refl _).perm (.of_eq (TypeArg.declared_of_isWord ha))
  | counted he _ ih => exact (ih hr hd).perm (.of_eq (TypeArg.declared_of_expr? he))
  | plain hargs _ => exact (Binds.refl _).perm (.of_eq (TypeArg.allDeclared_of_isWord hargs))
  | measured hargs _ _ ih =>
    have hnone := TypeArg.allDeclared_of_isWord hargs
    exact (ih hr hd).perm (.of_eq ((congrArg _ hnone).trans (List.append_nil _)))
  | array hl he h ihl ih =>
    have hframed := hl.framed hr hd
    have hall := (ihl hr hd).trans (ih hframed.rooted (hframed.keeps.has hd))
    have helem := (TypeArg.allDeclared_singleton _).trans (TypeArg.declared_of_expr? he)
    exact hall.perm (.of_eq (congrArg _ helem))
  | boolOptional he _ ih =>
    have helem := (TypeArg.allDeclared_singleton _).trans (TypeArg.declared_of_expr? he)
    exact (ih hr hd).perm (.of_eq helem)
  | opened hst _ ih => exact (ih hr hd).perm (.of_eq hst.declaredInside)
  | assigned _ _ ih => exact ih hr hd
  | @bound d st name item s s' hname hfree h ih =>
    have hframed := h.framed hr hd
    have hbind := Binds.bind hframed.rooted (hframed.keeps.has hd) (h.free hr hd hfree) item
    -- A name is bound after those that are declared inside of its declaration.
    have hnames := List.perm_append_singleton name.text st.declaredInside
    rw [← Statement.declared_of_name hname] at hnames
    exact ((ih hr hd).trans hbind).perm hnames.symm
  | declared _ _ ih => exact ih hr hd
  | variant _ _ _ _ _ ih => exact (ih hr hd).trans_nil (.of_tables_eq (tables_modifyLayout _ _ _))
  | @proxy d p kind body id s s' hk _ ih =>
    cases body with
    | none => exact ih hr hd
    | some body => exact (ih hr hd).perm (.of_eq body.allDeclared_statements.symm)
  | constraint _ _ _ => exact .of_tables_eq (tables_modifyLayout _ _ _)
  | fields _ _ hadds ih => exact (ih hr hd).trans_nil (.of_tables_eq hadds.tables_eq)
  | nil => exact .refl _
  | cons h _ ih ihrest =>
    have hframed := h.framed hr hd
    exact (ih hr hd).trans (ihrest hframed.rooted (hframed.keeps.has hd))

/-! ## Compiled schemas -/

theorem readable_of_addText {source text : String} {c c' : Compilation}
    (h : (addText source text : Build Unit).run c = (.ok (), c')) :
    ∃ body, Body.ofText source text = .ok body := by
  unfold addText at h
  cases hbody : Body.ofText source text with
  | ok body => exact ⟨body, rfl⟩
  | error e =>
    rw [hbody] at h
    cases h

theorem readable_of_addTexts {sources : List (String × String)} {c c' : Compilation}
    (h : (addTexts sources : Build Unit).run c = (.ok (), c')) :
    ∀ entry ∈ sources, ∃ body, Body.ofText entry.1 entry.2 = .ok body := by
  induction sources generalizing c with
  | nil => exact fun _ hentry => nomatch hentry
  | cons first rest ih =>
    unfold addTexts at h
    rw [run_bind] at h
    rcases hfirst : (addText first.1 first.2 : Build Unit).run c with ⟨e | ⟨⟩, c₁⟩
    · rw [hfirst] at h
      cases h
    · rw [hfirst] at h
      intro entry hentry
      obtain rfl | hentry := List.mem_cons.1 hentry
      · exact readable_of_addText hfirst
      · exact ih h entry hentry

/-- In a successful compilation all texts can be read. -/
theorem readable_of_ok {options : Options} {sources : List (String × String)} {s : Schema}
    (h : ofSources options sources = .ok s) :
    ∀ entry ∈ sources, ∃ body, Body.ofText entry.1 entry.2 = .ok body := by
  unfold ofSources at h
  split at h
  · rename_i c hrun
    exact readable_of_addTexts hrun
  · cases h

/-- No declaration is lost or overwritten. From each moment of a compilation to the next, name tables
stay as they are, or a new scope brings an empty one, or a name is bound that was free, and proxies
bind nothing at all. In the end every declaration with a name is what its name means in the scope
where it stands, and the names that are bound are those that have been declared, each as often as it
has been declared. -/
theorem ofSources_declared {options : Options} {sources : List (String × String)} {s : Schema}
    (h : ofSources options sources = .ok s) :
    ((history options sources).IsChain fun c' c => NameChange c.schema c'.schema) ∧
    (∀ c ∈ history options sources, c.schema.BareProxies) ∧
    (∀ entry ∈ sources, ∃ body, Body.ofText entry.1 entry.2 = .ok body) ∧
    DeclaredAll (history options sources) s (statementsOf sources) root ∧
    s.boundNames.Perm (Statement.allDeclared (statementsOf sources)) ∧
    (s.tables.flatMap Table.entries).length =
      (Statement.allDeclared (statementsOf sources)).length := by
  have hmakes := makes_of_ok h
  have hhas : Schema.empty.Has root := Nat.zero_lt_one
  obtain ⟨fs, hsteps⟩ := exists_steps options sources
  have hbinds : Binds (Statement.allDeclared (statementsOf sources)) .empty s :=
    hmakes.binds rooted_empty hhas
  have hlength : (s.tables.flatMap Table.entries).length = s.boundNames.length := by
    unfold boundNames
    rw [← List.map_flatMap, List.length_map]
  exact ⟨hsteps.nameChanges, hsteps.bareProxies, readable_of_ok h,
    hmakes.stays rooted_empty hhas (.refl s), hbinds, hlength.trans hbinds.length_eq⟩

/-- Names in a namespace, a struct, a proxy and the struct of a field, and one of a second text. -/
theorem ofSources_declared_nested : ∃ s,
    ofSources {} [("a", "namespace n { type s { variant { variant v; }; x : { type t; }; }; };"),
        ("b", "type s : array 3 byte;")] = .ok s ∧
      s.boundNames.Perm ["n", "s", "v", "t", "s"] ∧
      (s.tables.flatMap Table.entries).length = 5 ∧
      (s.scopes.any Scope.isProxy) = true ∧ s.BareProxies := by
  obtain ⟨s, hs, hproxy⟩ := exists_ok (show ((ofSources {}
    [("a", "namespace n { type s { variant { variant v; }; x : { type t; }; }; };"),
      ("b", "type s : array 3 byte;")]).toOption.any fun s => s.scopes.any Scope.isProxy) = true by
    decide +kernel)
  have hnames : Statement.allDeclared (statementsOf
      [("a", "namespace n { type s { variant { variant v; }; x : { type t; }; }; };"),
        ("b", "type s : array 3 byte;")]) = ["n", "s", "v", "t", "s"] := by
    decide +kernel
  obtain ⟨-, hbare, -, -, hperm, hlength⟩ := ofSources_declared hs
  rw [hnames] at hperm hlength
  obtain ⟨c, past, hhistory, rfl, -, -⟩ := history_of_ok hs
  exact ⟨_, hs, hperm, hlength, hproxy, hbare c (hhistory ▸ List.mem_cons_self)⟩

end Compilation

end PacketSchema
