import PacketSchema.Proofs.Compilation.Ordering
import PacketSchema.Proofs.Compilation.Performing

/-! Fields that come too late for a variant. The compiler finds them by the scopes that it has
marked as taken over; which ones they are can be read off the text. The marks agree with the text
because a variant marks nothing but the struct in whose body it stands, and that at once. -/

namespace PacketSchema

/-! ## Late fields in a text -/

mutual

def Body.declaresVariant : Option Body → Bool
  | none => false
  | some (.mk _ body) => Statement.anyDeclaresVariant body

/-- A variant, or a namespace with a variant in it, be it in a further namespace. -/
def Statement.declaresVariant : Statement → Bool
  | .variant _ _ _ => true
  | .space _ _ body => Body.declaresVariant body
  | .type _ _ _ | .constraint _ _ _ | .fields _ _ _ => false

def Statement.anyDeclaresVariant : List Statement → Bool
  | [] => false
  | st :: rest => st.declaresVariant || Statement.anyDeclaresVariant rest

end

theorem Body.declaresVariant_eq (body : Option Body) :
    Body.declaresVariant body = Statement.anyDeclaresVariant (Body.inside body) := by
  obtain _ | ⟨_, _⟩ := body <;> rfl

def Statement.fieldNames : Statement → List Ident
  | .fields _ names _ => names
  | .space _ _ _ | .type _ _ _ | .variant _ _ _ | .constraint _ _ _ => []

/-- A field that is declared behind a variant of the same body, and the number of the next scope
that is opened there. -/
structure LateField where
  scope : ScopeId
  name : Ident
  next : Nat

def LateField.finding (s : Schema) (f : LateField) : Finding :=
  ⟨f.name.position.place, .lateField f.name.text (s.qualifiedName f.scope).text⟩

/-- The late fields of a body, where the flag tells whether a variant has come before. -/
def Statement.lateFields (scope : ScopeId) (late : Bool) (next : Nat) :
    List Statement → List LateField
  | [] => []
  | st :: rest =>
    (if late then st.fieldNames.map fun name => ⟨scope, name, next⟩ else []) ++
      lateFields scope (late || st.declaresVariant) (next + st.openings.length) rest

@[simp] theorem Statement.anyDeclaresVariant_append (body rest : List Statement) :
    Statement.anyDeclaresVariant (body ++ rest) =
      (Statement.anyDeclaresVariant body || Statement.anyDeclaresVariant rest) := by
  induction body with
  | nil => rfl
  | cons st body ih => simp [anyDeclaresVariant, ih, Bool.or_assoc]

@[simp] theorem Statement.allOpenings_append (body rest : List Statement) :
    Statement.allOpenings (body ++ rest) =
      Statement.allOpenings body ++ Statement.allOpenings rest := by
  induction body with
  | nil => rfl
  | cons st body ih => simp [allOpenings, ih]

theorem Statement.lateFields_append (scope : ScopeId) (late : Bool) (next : Nat)
    (body rest : List Statement) :
    Statement.lateFields scope late next (body ++ rest) =
      Statement.lateFields scope late next body ++
        Statement.lateFields scope (late || Statement.anyDeclaresVariant body)
          (next + (Statement.allOpenings body).length) rest := by
  induction body generalizing late next with
  | nil => simp [lateFields, anyDeclaresVariant, allOpenings]
  | cons st body ih =>
    simp [lateFields, anyDeclaresVariant, allOpenings, ih, Bool.or_assoc, Nat.add_assoc]

theorem Statement.scope_of_mem_lateFields {scope : ScopeId} {late : Bool} {next : Nat}
    {body : List Statement} {f : LateField} (h : f ∈ lateFields scope late next body) :
    f.scope = scope := by
  induction body generalizing late next with
  | nil => cases h
  | cons st body ih =>
    obtain h | h := List.mem_append.1 h
    · cases late with
      | false => cases h
      | true =>
        obtain ⟨name, -, rfl⟩ := List.mem_map.1 h
        rfl
    · exact ih h

/-- The late fields of all bodies, where the first of them is that of the scope with the number. -/
def Opening.lateFields (next : Nat) (openings : List Opening) : List LateField :=
  (openings.zipIdx next).flatMap fun (o, i) => Statement.lateFields ⟨i⟩ false (i + 1) o.body

namespace Opening

theorem lateFields_cons (next : Nat) (o : Opening) (rest : List Opening) :
    lateFields next (o :: rest) =
      Statement.lateFields ⟨next⟩ false (next + 1) o.body ++ lateFields (next + 1) rest := by
  simp [lateFields, List.zipIdx_cons]

theorem lateFields_append (next : Nat) (openings rest : List Opening) :
    lateFields next (openings ++ rest) =
      lateFields next openings ++ lateFields (next + openings.length) rest := by
  simp [lateFields, List.zipIdx_append]

end Opening

namespace Compilation

open Schema

/-! ## Schemas in the end -/

/-- The nearest struct that a scope stands in or is, be that a proxy. -/
def structAround? (s : Schema) (d : ScopeId) : Option ScopeId :=
  ((s.chain d).find? fun link => link.2.isStruct).map Prod.fst

theorem structAround?_child {s : Schema} (hr : s.Rooted) {id d : ScopeId} {scope : Scope}
    (hs : s.scope? id = some scope) (hp : scope.parent = some d) :
    structAround? s id = if scope.isStruct then some id else structAround? s d := by
  unfold structAround?
  rw [hr.chain_child hs hp, List.find?_cons]
  cases scope.isStruct <;> rfl

theorem structAround?_self {s : Schema} (hr : s.Rooted) {d : ScopeId}
    (hd : (s.layout? d).isSome = true) : structAround? s d = some d := by
  obtain ⟨l, hl⟩ := Option.isSome_iff_exists.1 hd
  obtain ⟨scope, hs, hlayout⟩ := Option.bind_eq_some_iff.1 hl
  have hstruct : scope.isStruct = true := Scope.isStruct_iff.2 ⟨l, hlayout⟩
  cases hp : scope.parent with
  | none =>
    unfold structAround?
    simp [chain_root hs hp, hstruct]
  | some p => rw [structAround?_child hr hs hp, if_pos hstruct]

/-- The schema keeps the scopes of all moments. -/
structure Outlasts (s : Schema) (ms : List Compilation) : Prop where
  rooted : s.Rooted
  rooted_of_mem : ∀ {c}, c ∈ ms → c.schema.Rooted
  keeps : ∀ {c}, c ∈ ms → c.schema.Keeps s

theorem History.keeps {c : Compilation} {past : List Compilation} (h : History (c :: past)) :
    ∀ m ∈ c :: past, m.schema.Rooted ∧ m.schema.Keeps c.schema := by
  generalize hmoments : c :: past = moments at h ⊢
  induction h generalizing c past with
  | start options =>
    cases hmoments
    intro m hm
    rw [List.mem_singleton.1 hm]
    exact ⟨rooted_empty, .refl _⟩
  | @step c₁ c' past' h hc ih =>
    cases hmoments
    intro m hm
    obtain rfl | hm := List.mem_cons.1 hm
    · exact ⟨hc.rooted h.rooted, .refl _⟩
    · obtain ⟨hr, hkeeps⟩ := ih rfl m hm
      exact ⟨hr, hkeeps.trans hc.keeps⟩

theorem History.outlasts {c : Compilation} {past : List Compilation} (h : History (c :: past)) :
    Outlasts c.schema (c :: past) where
  rooted := h.rooted
  rooted_of_mem := fun hm => (h.keeps _ hm).1
  keeps := fun hm => (h.keeps _ hm).2

namespace Outlasts

variable {s : Schema} {ms : List Compilation} {c : Compilation} {d : ScopeId} (h : Outlasts s ms)
  (hc : c ∈ ms)

include h hc

theorem structAround? (hd : c.schema.Has d) :
    structAround? s d = structAround? c.schema d := by
  have hfind := find?_map_mapLink (g := Scope.shape) (p := Scope.isStruct) (by simp)
  have hchain := (h.keeps hc).chain (h.rooted_of_mem hc) h.rooted hd
  unfold Compilation.structAround?
  rw [← hfind (s.chain d), ← hfind (c.schema.chain d), hchain]

theorem qualifiedName (hd : c.schema.Has d) : s.qualifiedName d = c.schema.qualifiedName d := by
  have hnames : ∀ links : List (ScopeId × Scope),
      links.filterMap (fun link => link.2.name) =
        (links.map (mapLink Scope.shape)).filterMap fun link => link.2.name := by
    intro links
    rw [List.filterMap_map]
    rfl
  have hchain := (h.keeps hc).chain (h.rooted_of_mem hc) h.rooted hd
  unfold Schema.qualifiedName
  rw [hnames (s.chain d), hnames (c.schema.chain d), hchain]

theorem layout? {l : Layout} (hl : c.schema.layout? d = some l) : ∃ l', s.layout? d = some l' := by
  obtain ⟨scope, hs, hl⟩ := Option.bind_eq_some_iff.1 hl
  obtain ⟨scope', hs', hshape⟩ := h.keeps hc d scope hs
  obtain ⟨l', hl'⟩ := Scope.layout?_of_shape hshape.symm hl
  exact ⟨l', Option.bind_eq_some_iff.2 ⟨scope', hs', hl'⟩⟩

end Outlasts

/-! ## What a job warns about -/

/-- At a moment, when all the scopes in front of a field had been opened, the field was not there
yet. -/
def Missing (ms : List Compilation) (f : LateField) : Prop :=
  ∃ m ∈ ms, f.next ≤ m.schema.scopes.length ∧
    ∃ l, m.schema.layout? f.scope = some l ∧ l.fields.find? f.name.text = none

/-- The scope is there, and so are all that are marked. -/
structure Sited (d : ScopeId) (c : Compilation) : Prop where
  has : c.schema.Has d
  marked : ∀ x ∈ c.snapshotted, c.schema.Has x

/-- A job in a scope has opened scopes and has warned about the late fields. Of the scopes that
there were before, it has marked the struct around it if it has declared a variant of that, and no
other one. -/
structure Warned (ms : List Compilation) (s : Schema) (d : ScopeId) (takes : Bool) (opened : Nat)
    (fields : List LateField) (c c' : Compilation) : Prop where
  options : c'.options = c.options
  count : c'.schema.scopes.length = c.schema.scopes.length + opened
  inRange : ∀ x ∈ c'.snapshotted, c'.schema.Has x
  marked : ∀ {x}, c.schema.Has x → (x ∈ c'.snapshotted ↔
    x ∈ c.snapshotted ∨ takes = true ∧ structAround? s d = some x)
  warnings : c'.schema.warnings.Perm (c.schema.warnings ++
    if c.options.lintLateFields then fields.map (LateField.finding s) else [])
  missing : ∀ f ∈ fields, Missing ms f

/-- Neither scopes nor marks nor warnings come. -/
structure Uneventful (c c' : Compilation) : Prop where
  options : c'.options = c.options
  count : c'.schema.scopes.length = c.schema.scopes.length
  marked : c'.snapshotted = c.snapshotted
  warnings : c'.schema.warnings = c.schema.warnings

/-- The flag tells whether the fields of a struct are marked as taken over. -/
def Tells (s : Schema) (d : ScopeId) (c : Compilation) (late : Bool) : Prop :=
  (s.layout? d).isSome = true → (late = true ↔ d ∈ c.snapshotted)

namespace Warned

variable {ms : List Compilation} {s : Schema} {d : ScopeId} {takes takes' : Bool} {n n' : Nat}
  {fields more : List LateField} {c c₁ c' : Compilation}

theorem quiet (hc : Sited d c) (h : Uneventful c c') : Warned ms s d false 0 [] c c' where
  options := h.options
  count := h.count
  inRange := by
    intro x hx
    rw [h.marked] at hx
    unfold Has
    rw [h.count]
    exact hc.marked x hx
  marked := by simp [h.marked]
  warnings := by simp [h.warnings]
  missing := fun _ hf => absurd hf List.not_mem_nil

theorem has (h : Warned ms s d takes n fields c c') {x : ScopeId} (hx : c.schema.Has x) :
    c'.schema.Has x := by
  have hcount := h.count
  unfold Has at hx ⊢
  omega

theorem sited (h : Warned ms s d takes n fields c c') (hc : Sited d c) : Sited d c' :=
  ⟨h.has hc.has, h.inRange⟩

theorem trans (h : Warned ms s d takes n fields c c₁) (h' : Warned ms s d takes' n' more c₁ c') :
    Warned ms s d (takes || takes') (n + n') (fields ++ more) c c' where
  options := h'.options.trans h.options
  count := by rw [h'.count, h.count, Nat.add_assoc]
  inRange := h'.inRange
  marked := by
    intro x hx
    rw [h'.marked (h.has hx), h.marked hx, Bool.or_eq_true, or_assoc, or_and_right]
  warnings := by
    have hfirst := h.warnings
    have hthen := h'.warnings
    rw [h.options] at hthen
    refine hthen.trans ((hfirst.append_right _).trans ?_)
    rw [List.append_assoc, List.map_append]
    split <;> simp
  missing := by
    intro f hf
    obtain hf | hf := List.mem_append.1 hf
    · exact h.missing f hf
    · exact h'.missing f hf

theorem perm (h : Warned ms s d takes n fields c c') (hperm : fields.Perm more) :
    Warned ms s d takes n more c c' where
  options := h.options
  count := h.count
  inRange := h.inRange
  marked := h.marked
  warnings := by
    refine h.warnings.trans (List.Perm.append_left _ ?_)
    split
    · exact hperm.map _
    · exact .refl _
  missing := fun f hf => h.missing f (hperm.mem_iff.2 hf)

/-- The struct in whose body a variant stands is marked from then on. -/
theorem tells (h : Warned ms s d takes n fields c c') (hr : s.Rooted) (hd : c.schema.Has d)
    {late : Bool} (hlate : Tells s d c late) : Tells s d c' (late || takes) := by
  intro hstruct
  rw [h.marked hd, ← hlate hstruct, structAround?_self hr hstruct]
  simp

/-- What is declared in a struct marks nothing outside of it. -/
theorem leave {scope : Scope} (hms : Outlasts s ms)
    (hp : scope.parent = some d) (hmem : c.mapSchema (·.addScope scope) ∈ ms)
    (h : Warned ms s c.schema.nextId takes n fields (c.mapSchema (·.addScope scope)) c') :
    Warned ms s d (takes && !scope.isStruct) (n + 1) fields c c' where
  options := h.options
  count := by
    have hcount := h.count
    simp only [mapSchema, Schema.addScope, List.length_append, List.length_singleton] at hcount
    omega
  inRange := h.inRange
  marked := by
    intro x hx
    have hkeep := keeps_addScope c.schema scope
    obtain ⟨scope', hs', hshape⟩ := hms.keeps hmem _ _ (scope?_addScope_self c.schema scope)
    have haround := structAround?_child hms.rooted hs' ((Scope.parent_eq hshape).trans hp)
    have hne : c.schema.nextId ≠ x := by
      rintro rfl
      exact Nat.lt_irrefl _ hx
    rw [h.marked (hkeep.has hx), haround, Scope.isStruct_eq hshape]
    cases scope.isStruct with
    | true => simp [mapSchema, hne]
    | false => simp [mapSchema]
  warnings := h.warnings
  missing := h.missing

end Warned

end Compilation

end PacketSchema
