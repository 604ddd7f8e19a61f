import Mathlib
import PacketSchema.Schema.Walk

/-! Walking by recursion. A visit of a node yields the node and then visits the nodes below it one
after the other, passing on what has been visited so far. The walker comes to the same with its
stack: it leaves out at once what has been visited when it puts nodes on the stack, and what is
visited between that moment and their turn when it takes them off. -/

namespace PacketSchema

open Walker (isNew sumNew)

namespace Schema

variable (s : Schema)

/-- Children with the paths that lead to them over a node. -/
def below (path : List String) (n : Node) : List (List String × Node) :=
  (s.children n).map fun child => (path ++ [child.1], child.2)

/-- How much can still be visited. -/
def unvisited (visited : List Node) : Nat :=
  sumNew (fun n => 2 * (s.children n).length) visited s.nodes

/-- What a visit yields, and what has been visited in the end. -/
structure Visit (visited : List Node) where
  found : List (List String × TypeRef)
  seen : List Node
  grown : visited ⊆ seen

theorem isNew_iff {visited : List Node} {n : Node} : isNew visited n = true ↔ n ∉ visited := by
  simp [isNew]

theorem unvisited_antitone {visited seen : List Node} (h : visited ⊆ seen) :
    s.unvisited seen ≤ s.unvisited visited := by
  unfold unvisited
  induction s.nodes with
  | nil => exact Nat.le_refl _
  | cons n ns ih =>
    have hnew : isNew seen n = true → isNew visited n = true := by
      rw [isNew_iff, isNew_iff]
      exact fun hn hm => hn (h hm)
    simp only [sumNew]
    by_cases hn : isNew seen n = true
    · simp only [hn, hnew hn, if_true]
      omega
    · simp only [hn]
      simp only [Bool.false_eq_true, if_false]
      omega

theorem unvisited_visit {visited : List Node} {n : Node} (hn : isNew visited n = true) :
    s.unvisited (n :: visited) + 2 * (s.children n).length ≤ s.unvisited visited := by
  have hsum := Walker.sumNew_visit (fun n => 2 * (s.children n).length) hn s.nodes
  unfold unvisited
  split at hsum
  · exact hsum
  · rename_i hmem
    rw [Walker.children_eq_nil_of_not_mem_nodes hmem, List.length_nil]
    omega

mutual

/-- Visits a node that is reached on a path, unless it has been visited before. Namespaces are
visited but not yielded. -/
def visit (visited : List Node) (path : List String) (n : Node) : Visit visited :=
  if _h : isNew visited n = true then
    let under := visitAll (n :: visited) (s.below path n)
    ⟨(n.type?.map fun t => (path, t)).toList ++ under.found, under.seen,
      List.Subset.trans (List.subset_cons_self n visited) under.grown⟩
  else ⟨[], visited, List.Subset.refl visited⟩
termination_by s.unvisited visited + 1
decreasing_by
  have := s.unvisited_visit _h
  simp only [below, List.length_map]
  omega

/-- Visits nodes one after the other. -/
def visitAll (visited : List Node) (entries : List (List String × Node)) : Visit visited :=
  match entries with
  | [] => ⟨[], visited, List.Subset.refl visited⟩
  | (path, n) :: rest =>
    let first := visit visited path n
    let others := visitAll first.seen rest
    ⟨first.found ++ others.found, others.seen, List.Subset.trans first.grown others.grown⟩
termination_by s.unvisited visited + 2 * entries.length
decreasing_by
  · simp only [List.length_cons]
    omega
  · refine Nat.lt_of_le_of_lt (Nat.add_le_add_right (s.unvisited_antitone (Visit.grown _)) _) ?_
    simp only [List.length_cons]
    omega

end

/-- The types below a node, by recursion. -/
def preorder (start : Node) : List (List String × TypeRef) := (s.visit [] [] start).found

/-! ## The walker -/

section

variable {s} {visited seen : List Node} {n : Node} (path : List String)

theorem visit_new (h : isNew visited n = true) :
    (s.visit visited path n).found = (n.type?.map fun t => (path, t)).toList ++
      (s.visitAll (n :: visited) (s.below path n)).found ∧
    (s.visit visited path n).seen = (s.visitAll (n :: visited) (s.below path n)).seen := by
  rw [visit, dif_pos h]
  exact ⟨rfl, rfl⟩

theorem visit_old (h : ¬ isNew visited n = true) :
    (s.visit visited path n).found = [] ∧ (s.visit visited path n).seen = visited := by
  rw [visit, dif_neg h]
  exact ⟨rfl, rfl⟩

theorem visitAll_nil :
    (s.visitAll visited []).found = [] ∧ (s.visitAll visited []).seen = visited := by
  rw [visitAll]
  exact ⟨rfl, rfl⟩

theorem visitAll_cons (rest : List (List String × Node)) :
    (s.visitAll visited ((path, n) :: rest)).found = (s.visit visited path n).found ++
      (s.visitAll (s.visit visited path n).seen rest).found ∧
    (s.visitAll visited ((path, n) :: rest)).seen =
      (s.visitAll (s.visit visited path n).seen rest).seen := by
  rw [visitAll]
  exact ⟨rfl, rfl⟩

theorem visitAll_append (entries rest : List (List String × Node)) :
    (s.visitAll visited (entries ++ rest)).found = (s.visitAll visited entries).found ++
      (s.visitAll (s.visitAll visited entries).seen rest).found ∧
    (s.visitAll visited (entries ++ rest)).seen =
      (s.visitAll (s.visitAll visited entries).seen rest).seen := by
  induction entries generalizing visited with
  | nil =>
    rw [visitAll_nil.1, visitAll_nil.2]
    exact ⟨rfl, rfl⟩
  | cons entry entries ih =>
    obtain ⟨path, n⟩ := entry
    rw [List.cons_append, (visitAll_cons path (entries ++ rest)).1,
      (visitAll_cons path (entries ++ rest)).2, ih.1, ih.2, (visitAll_cons path entries).1,
      (visitAll_cons path entries).2, List.append_assoc]
    exact ⟨rfl, rfl⟩

/-- What has been visited may as well be left out before. -/
theorem visitAll_filter (h : visited ⊆ seen) (entries : List (List String × Node)) :
    (s.visitAll seen (entries.filter fun entry => isNew visited entry.2)).found =
      (s.visitAll seen entries).found ∧
    (s.visitAll seen (entries.filter fun entry => isNew visited entry.2)).seen =
      (s.visitAll seen entries).seen := by
  induction entries generalizing seen with
  | nil => exact ⟨rfl, rfl⟩
  | cons entry entries ih =>
    obtain ⟨path, n⟩ := entry
    by_cases hn : isNew visited n = true
    · rw [List.filter_cons_of_pos (by exact hn)]
      obtain ⟨hfound, hseen⟩ := ih (List.Subset.trans h (s.visit seen path n).grown)
      rw [(visitAll_cons path _).1, (visitAll_cons path _).2, hfound, hseen,
        (visitAll_cons path entries).1, (visitAll_cons path entries).2]
      exact ⟨rfl, rfl⟩
    · rw [List.filter_cons_of_neg (by exact hn)]
      have hold : ¬ isNew seen n = true := by
        rw [isNew_iff] at hn ⊢
        exact fun hm => hn fun hv => hm (h hv)
      obtain ⟨hnone, hsame⟩ := visit_old (s := s) path hold
      obtain ⟨hfound, hseen⟩ := ih h
      rw [(visitAll_cons path entries).1, (visitAll_cons path entries).2, hnone, hsame]
      exact ⟨hfound, hseen⟩

end

/-- The walker yields what visiting its stack yields. -/
theorem run_eq_visitAll (w : Walker) : w.run s = (s.visitAll w.visited w.stack).found := by
  fun_induction Walker.run s w with
  | case1 w hstack => rw [hstack, visitAll_nil.1]
  | case2 w path n rest hstack hn ih =>
    have hfilter := visitAll_filter (s := s) (List.Subset.refl (n :: w.visited)) (s.below path n)
    have hfresh : (w.expand s path n rest).stack =
        (s.below path n).filter (fun entry => isNew (n :: w.visited) entry.2) ++ rest := by
      simp only [Walker.expand, below, List.filter_map]
      rfl
    rw [ih, hfresh, hstack, (visitAll_cons path rest).1, (visit_new path hn).1,
      (visit_new path hn).2, List.append_assoc]
    congr 1
    rw [show (w.expand s path n rest).visited = n :: w.visited from rfl, (visitAll_append _ _).1,
      hfilter.1, hfilter.2]
  | case3 w path n rest hstack hn ih =>
    rw [ih, hstack, (visitAll_cons path rest).1, (visit_old path hn).1, (visit_old path hn).2]
    rfl

end Schema

end PacketSchema
