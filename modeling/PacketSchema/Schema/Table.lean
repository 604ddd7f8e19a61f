/-! Tables that keep the order in which their keys first came. Storing under a key that is already
there replaces the value in its place, and a new key goes to the end. -/

namespace PacketSchema

structure Table (κ α : Type) where
  entries : List (κ × α) := []
deriving DecidableEq, Repr

namespace Table

variable {κ α : Type} [DecidableEq κ]

def lookup (k : κ) : List (κ × α) → Option α
  | [] => none
  | (j, a) :: rest => if j = k then some a else lookup k rest

def put (k : κ) (a : α) : List (κ × α) → List (κ × α)
  | [] => [(k, a)]
  | (j, b) :: rest => if j = k then (j, a) :: rest else (j, b) :: put k a rest

def find? (t : Table κ α) (k : κ) : Option α := lookup k t.entries

def contains (t : Table κ α) (k : κ) : Bool := (t.find? k).isSome

def insert (t : Table κ α) (k : κ) (a : α) : Table κ α := ⟨put k a t.entries⟩

theorem lookup_put (j k : κ) (a : α) (entries : List (κ × α)) :
    lookup j (put k a entries) = if k = j then some a else lookup j entries := by
  induction entries with
  | nil => rfl
  | cons entry rest ih =>
    obtain ⟨i, b⟩ := entry
    by_cases hik : i = k
    · subst i
      by_cases h : k = j <;> simp [put, lookup, h]
    · by_cases hij : i = j
      · subst i
        simp [put, lookup, hik, Ne.symm hik]
      · simp [put, lookup, hik, hij, ih]

theorem find?_insert (t : Table κ α) (j k : κ) (a : α) :
    (t.insert k a).find? j = if k = j then some a else t.find? j :=
  lookup_put j k a t.entries

theorem mem_of_lookup {k : κ} {a : α} {entries : List (κ × α)} (h : lookup k entries = some a) :
    (k, a) ∈ entries := by
  induction entries with
  | nil => nomatch h
  | cons entry rest ih =>
    obtain ⟨j, b⟩ := entry
    unfold lookup at h
    split at h
    · rename_i hj
      cases h
      exact hj ▸ List.mem_cons_self
    · exact .tail _ (ih h)

theorem mem_of_find? {t : Table κ α} {k : κ} {a : α} (h : t.find? k = some a) :
    (k, a) ∈ t.entries :=
  mem_of_lookup h

theorem put_of_lookup_eq_none {k : κ} {entries : List (κ × α)} (h : lookup k entries = none)
    (a : α) : put k a entries = entries ++ [(k, a)] := by
  induction entries with
  | nil => rfl
  | cons entry rest ih =>
    obtain ⟨i, b⟩ := entry
    by_cases hik : i = k
    · simp [lookup, hik] at h
    · simp only [lookup, if_neg hik] at h
      simp [put, hik, ih h]

theorem entries_insert_of_find?_eq_none {t : Table κ α} {k : κ} (h : t.find? k = none) (a : α) :
    (t.insert k a).entries = t.entries ++ [(k, a)] :=
  put_of_lookup_eq_none h a

theorem not_mem_of_lookup_eq_none {k : κ} {entries : List (κ × α)} (h : lookup k entries = none) :
    k ∉ entries.map Prod.fst := by
  induction entries with
  | nil => simp
  | cons entry rest ih =>
    obtain ⟨j, b⟩ := entry
    unfold lookup at h
    by_cases hj : j = k
    · rw [if_pos hj] at h
      nomatch h
    · rw [if_neg hj] at h
      rw [List.map_cons, List.mem_cons, not_or]
      exact ⟨Ne.symm hj, ih h⟩

theorem not_mem_keys {t : Table κ α} {k : κ} (h : t.find? k = none) :
    k ∉ t.entries.map Prod.fst :=
  not_mem_of_lookup_eq_none h

omit [DecidableEq κ] in
theorem nodup_keys_concat {entries : List (κ × α)} {k : κ} (a : α)
    (h : (entries.map Prod.fst).Nodup) (hk : k ∉ entries.map Prod.fst) :
    ((entries ++ [(k, a)]).map Prod.fst).Nodup := by
  rw [List.map_append]
  refine List.nodup_append.2 ⟨h, by simp, fun j hj i hi => ?_⟩
  rw [List.mem_singleton.1 hi]
  rintro rfl
  exact hk hj

theorem put_of_lookup_eq_some {k : κ} {a : α} {entries : List (κ × α)}
    (h : lookup k entries = some a) : put k a entries = entries := by
  induction entries with
  | nil => nomatch h
  | cons entry rest ih =>
    obtain ⟨j, b⟩ := entry
    unfold lookup at h
    unfold put
    split at h
    · rename_i hj
      cases h
      rw [if_pos hj]
    · rename_i hj
      rw [if_neg hj, ih h]

theorem insert_of_find?_eq_some {t : Table κ α} {k : κ} {a : α} (h : t.find? k = some a) :
    t.insert k a = t :=
  congrArg Table.mk (put_of_lookup_eq_some h)

theorem mem_put {j k : κ} {a b : α} {entries : List (κ × α)} (h : (j, b) ∈ put k a entries) :
    (j, b) = (k, a) ∨ (j, b) ∈ entries := by
  induction entries with
  | nil => exact .inl (List.mem_singleton.1 h)
  | cons entry rest ih =>
    obtain ⟨i, c⟩ := entry
    unfold put at h
    split at h
    · rename_i hi
      subst hi
      exact (List.mem_cons.1 h).imp_right (.tail _)
    · obtain h | h := List.mem_cons.1 h
      · exact .inr (h ▸ .head _)
      · exact (ih h).imp_right (.tail _)

theorem mem_insert {t : Table κ α} {j k : κ} {a b : α} (h : (j, b) ∈ (t.insert k a).entries) :
    (j, b) = (k, a) ∨ (j, b) ∈ t.entries :=
  mem_put h

/-- Storing what is not there or is there already only adds to a table. -/
theorem entries_prefix_insert {t : Table κ α} {k : κ} {a : α}
    (h : ∀ held, t.find? k = some held → held = a) : t.entries <+: (t.insert k a).entries := by
  cases hk : t.find? k with
  | none => exact entries_insert_of_find?_eq_none hk a ▸ List.prefix_append _ _
  | some held =>
    have heq := h held hk
    subst heq
    exact congrArg Table.entries (insert_of_find?_eq_some hk) ▸ List.prefix_rfl

/-- Entries that can be stored in turn without replacing any value. -/
def Accepts (t : Table κ α) : List (κ × α) → Prop
  | [] => True
  | (k, a) :: rest => (∀ held, t.find? k = some held → held = a) ∧ (t.insert k a).Accepts rest

def insertAll (t : Table κ α) (entries : List (κ × α)) : Table κ α :=
  entries.foldl (fun t entry => t.insert entry.1 entry.2) t

@[simp] theorem insertAll_nil (t : Table κ α) : t.insertAll [] = t := rfl

theorem insertAll_append (t : Table κ α) (entries more : List (κ × α)) :
    t.insertAll (entries ++ more) = (t.insertAll entries).insertAll more :=
  List.foldl_append

theorem accepts_append {t : Table κ α} {entries more : List (κ × α)} :
    t.Accepts (entries ++ more) ↔ t.Accepts entries ∧ (t.insertAll entries).Accepts more := by
  induction entries generalizing t with
  | nil => simp [Accepts]
  | cons entry rest ih =>
    obtain ⟨k, a⟩ := entry
    rw [List.cons_append, Accepts, Accepts, ih, and_assoc]
    rfl

theorem lookup_append_of_some {k : κ} {a : α} {entries : List (κ × α)}
    (h : lookup k entries = some a) (more : List (κ × α)) :
    lookup k (entries ++ more) = some a := by
  induction entries with
  | nil => nomatch h
  | cons entry rest ih =>
    obtain ⟨j, b⟩ := entry
    rw [List.cons_append]
    unfold lookup at h ⊢
    split at h
    · rename_i hj
      rw [if_pos hj, h]
    · rename_i hj
      rw [if_neg hj]
      exact ih h

theorem find?_of_prefix {t u : Table κ α} (h : t.entries <+: u.entries) {k : κ} {a : α}
    (hk : t.find? k = some a) : u.find? k = some a := by
  obtain ⟨more, hmore⟩ := h
  unfold find?
  rw [← hmore]
  exact lookup_append_of_some hk more

end Table

end PacketSchema
