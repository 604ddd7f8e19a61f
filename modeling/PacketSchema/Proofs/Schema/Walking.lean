import PacketSchema.Proofs.Schema.Preorder

/-! What a walk yields: every type that can be reached over links, once, with a path of names that
leads to it. -/

namespace PacketSchema.Schema

open Walker (isNew)

/-- The names on the links from one node to another. -/
inductive Leads (s : Schema) (start : Node) : List String → Node → Prop
  | here : s.Leads start [] start
  | next {path : List String} {n child : Node} {link : Link} {name : String}
      (h : s.Leads start path n) (hlink : link ∈ s.links n)
      (hchild : (name, child) ∈ s.follow n link) : s.Leads start (path ++ [name]) child

variable {s : Schema} {start : Node}

theorem Leads.child {path : List String} {n child : Node} {name : String}
    (h : s.Leads start path n) (hchild : (name, child) ∈ s.children n) :
    s.Leads start (path ++ [name]) child := by
  obtain ⟨link, hlink, hmem⟩ := List.mem_flatMap.1 hchild
  exact .next h hlink hmem

/-- The way to a node ends at the node itself or comes in over another one. -/
theorem Leads.cases_last {path : List String} {n : Node} (h : s.Leads start path n) :
    path = [] ∧ n = start ∨ ∃ front m name, path = front ++ [name] ∧ s.Leads start front m ∧
      (name, n) ∈ s.children m := by
  cases h with
  | here => exact .inl ⟨rfl, rfl⟩
  | next h hlink hchild => exact .inr ⟨_, _, _, rfl, h, List.mem_flatMap.2 ⟨_, hlink, hchild⟩⟩

theorem mem_expand_stack {w : Walker} {path : List String} {n : Node}
    {rest : List (List String × Node)} {entry : List String × Node} :
    entry ∈ (w.expand s path n rest).stack ↔
      (∃ name, entry.1 = path ++ [name] ∧ (name, entry.2) ∈ s.children n ∧
        entry.2 ∉ n :: w.visited) ∨ entry ∈ rest := by
  unfold Walker.expand
  rw [List.mem_append, List.mem_map]
  apply or_congr_left
  constructor
  · rintro ⟨⟨name, child⟩, hmem, rfl⟩
    obtain ⟨hchild, hnew⟩ := List.mem_filter.1 hmem
    exact ⟨name, rfl, hchild, isNew_iff.1 hnew⟩
  · rintro ⟨name, hpath, hchild, hnew⟩
    exact ⟨(name, entry.2), List.mem_filter.2 ⟨hchild, isNew_iff.2 hnew⟩,
      Prod.ext hpath.symm rfl⟩

theorem mem_run_new {path : List String} {n : Node} {ts : List (List String × TypeRef)}
    {entry : List String × TypeRef} :
    entry ∈ (n.type?.map fun t => (path, t)).toList ++ ts ↔
      entry.1 = path ∧ n = .type entry.2 ∨ entry ∈ ts := by
  rw [List.mem_append]
  apply or_congr_left
  obtain ⟨path', t'⟩ := entry
  cases n with
  | space id => simp [Node.type?]
  | type t => simp [Node.type?, eq_comm]

/-- The path of every type leads to it, as long as those on the stack do. -/
theorem leads_of_mem_run {w : Walker} (h : ∀ entry ∈ w.stack, s.Leads start entry.1 entry.2) :
    ∀ entry ∈ w.run s, s.Leads start entry.1 (.type entry.2) := by
  fun_induction Walker.run s w with
  | case1 w hstack => simp
  | case2 w path n rest hstack hn ih =>
    rw [hstack] at h
    have htop : s.Leads start path n := h (path, n) List.mem_cons_self
    intro entry hentry
    obtain ⟨hpath, hnode⟩ | hentry := mem_run_new.1 hentry
    · rw [hpath, ← hnode]
      exact htop
    · refine ih (fun below hbelow => ?_) entry hentry
      obtain ⟨name, hpath, hchild, -⟩ | hrest := mem_expand_stack.1 hbelow
      · rw [hpath]
        exact htop.child hchild
      · exact h below (.tail _ hrest)
  | case3 w path n rest hstack hn ih =>
    rw [hstack] at h
    exact ih fun entry hentry => h entry (.tail _ hentry)

/-- Nothing is yielded twice, and nothing that has been visited. -/
theorem run_nodup (w : Walker) : ((w.run s).map Prod.snd).Nodup ∧
    ∀ entry ∈ w.run s, Node.type entry.2 ∉ w.visited := by
  fun_induction Walker.run s w with
  | case1 w hstack => simp
  | case2 w path n rest hstack hn ih =>
    obtain ⟨hnodup, hfresh⟩ := ih
    have hold : ∀ entry ∈ (w.expand s path n rest).run s, Node.type entry.2 ≠ n ∧
        Node.type entry.2 ∉ w.visited := by
      intro entry hentry
      have hnot := hfresh entry hentry
      exact ⟨fun heq => hnot (heq ▸ List.mem_cons_self), fun hmem => hnot (.tail _ hmem)⟩
    constructor
    · cases n with
      | space id => exact hnodup
      | type t =>
        refine List.nodup_cons.2 ⟨fun hmem => ?_, hnodup⟩
        obtain ⟨entry, hentry, rfl⟩ := List.mem_map.1 hmem
        exact (hold entry hentry).1 rfl
    · intro entry hentry
      obtain ⟨-, hnode⟩ | hentry := mem_run_new.1 hentry
      · exact hnode ▸ isNew_iff.1 hn
      · exact (hold entry hentry).2
  | case3 w path n rest hstack hn ih => exact ih

/-- Every child of what has been visited has been visited or waits for it. -/
def Pending (s : Schema) (w : Walker) : Prop :=
  ∀ n ∈ w.visited, ∀ child ∈ s.children n, child.2 ∈ w.visited ∨ child.2 ∈ w.stack.map Prod.snd

/-- The children of a node that is visited now wait for it, unless they have been visited. -/
theorem Pending.expand {w : Walker} {path : List String} {n : Node}
    {rest : List (List String × Node)} (h : s.Pending w) (hstack : w.stack = (path, n) :: rest) :
    s.Pending (w.expand s path n rest) := by
  intro m hm child hchild
  by_cases hvisited : child.2 ∈ n :: w.visited
  · exact .inl hvisited
  · refine .inr ?_
    obtain rfl | hm := List.mem_cons.1 hm
    · exact List.mem_map.2
        ⟨(path ++ [child.1], child.2),
          mem_expand_stack.2 (.inl ⟨child.1, rfl, hchild, hvisited⟩), rfl⟩
    · obtain hold | hwaits := h m hm child hchild
      · exact absurd (.tail _ hold) hvisited
      · rw [hstack, List.map_cons, List.mem_cons] at hwaits
        obtain rfl | hwaits := hwaits
        · exact absurd List.mem_cons_self hvisited
        · obtain ⟨entry, hentry, heq⟩ := List.mem_map.1 hwaits
          exact List.mem_map.2 ⟨entry, mem_expand_stack.2 (.inr hentry), heq⟩

/-- A node that has been visited need not wait. -/
theorem Pending.skip {w : Walker} {path : List String} {n : Node}
    {rest : List (List String × Node)} (h : s.Pending w) (hstack : w.stack = (path, n) :: rest)
    (hold : n ∈ w.visited) : s.Pending { w with stack := rest } := by
  intro m hm child hchild
  obtain hmem | hwaits := h m hm child hchild
  · exact .inl hmem
  · rw [hstack, List.map_cons, List.mem_cons] at hwaits
    obtain heq | hwaits := hwaits
    · exact .inl (heq ▸ hold)
    · exact .inr hwaits

/-- In the end all children of what has been visited have been visited. -/
theorem exists_closed {w : Walker} (h : s.Pending w) :
    ∃ final : List Node, (∀ n ∈ w.visited, n ∈ final) ∧ (∀ entry ∈ w.stack, entry.2 ∈ final) ∧
      (∀ n ∈ final, ∀ child ∈ s.children n, child.2 ∈ final) ∧
      ∀ t, Node.type t ∈ final → Node.type t ∈ w.visited ∨ t ∈ (w.run s).map Prod.snd := by
  fun_induction Walker.run s w with
  | case1 w hstack =>
    refine ⟨w.visited, fun _ hn => hn, by simp [hstack], fun n hn child hchild => ?_,
      fun _ ht => .inl ht⟩
    simpa [hstack] using h n hn child hchild
  | case2 w path n rest hstack hn ih =>
    obtain ⟨final, hvisited, hwaiting, hclosed, hfound⟩ := ih (h.expand hstack)
    refine ⟨final, fun m hm => hvisited m (.tail _ hm), fun entry hentry => ?_, hclosed,
      fun t ht => ?_⟩
    · rw [hstack] at hentry
      obtain rfl | hentry := List.mem_cons.1 hentry
      · exact hvisited n List.mem_cons_self
      · exact hwaiting entry (mem_expand_stack.2 (.inr hentry))
    · rw [List.map_append, List.mem_append]
      obtain hmem | hmem := hfound t ht
      · obtain rfl | hmem := List.mem_cons.1 hmem
        · exact .inr (.inl (by simp [Node.type?]))
        · exact .inl hmem
      · exact .inr (.inr hmem)
  | case3 w path n rest hstack hn ih =>
    have hold : n ∈ w.visited := by
      rw [isNew_iff] at hn
      exact not_not.1 hn
    obtain ⟨final, hvisited, hwaiting, hclosed, hfound⟩ := ih (h.skip hstack hold)
    refine ⟨final, hvisited, fun entry hentry => ?_, hclosed, hfound⟩
    rw [hstack] at hentry
    obtain rfl | hentry := List.mem_cons.1 hentry
    · exact hvisited n hold
    · exact hwaiting entry hentry

theorem leads_of_mem_walkFrom {entry : List String × TypeRef} (h : entry ∈ s.walkFrom start) :
    s.Leads start entry.1 (.type entry.2) := by
  refine leads_of_mem_run (fun top htop => ?_) entry h
  rw [List.mem_singleton.1 htop]
  exact .here

theorem mem_walkFrom_of_leads {path : List String} {t : TypeRef}
    (h : s.Leads start path (.type t)) : t ∈ (s.walkFrom start).map Prod.snd := by
  have hpending : s.Pending (.start start) := fun n hn => nomatch hn
  obtain ⟨final, -, hwaiting, hclosed, hfound⟩ := exists_closed hpending
  have hreached : ∀ {path n}, s.Leads start path n → n ∈ final := by
    intro path n hn
    induction hn with
    | here => exact hwaiting _ List.mem_cons_self
    | next _ hlink hchild ih =>
      exact hclosed _ ih (_, _) (List.mem_flatMap.2 ⟨_, hlink, hchild⟩)
  obtain hmem | hmem := hfound t (hreached h)
  · cases hmem
  · exact hmem

theorem walkFrom_eq_preorder (s : Schema) (start : Node) : s.walkFrom start = s.preorder start := by
  unfold walkFrom preorder
  rw [run_eq_visitAll, show (Walker.start start).visited = [] from rfl,
    show (Walker.start start).stack = [([], start)] from rfl, (visitAll_cons [] []).1,
    visitAll_nil.1, List.append_nil]

/-- A walk goes in the order of the recursion. It ends, and has yielded every type that can be
reached then, just once and on a path that leads to it. -/
theorem walkFrom_visits_once (s : Schema) (start : Node) :
    s.walkFrom start = s.preorder start ∧
      (∀ path t, (path, t) ∈ s.walkFrom start → s.Leads start path (.type t)) ∧
      ∀ path t, s.Leads start path (.type t) →
        ((s.walkFrom start).map Prod.snd).count t = 1 := by
  refine ⟨walkFrom_eq_preorder s start, fun path t h => leads_of_mem_walkFrom h, fun path t h => ?_⟩
  exact List.count_eq_one_of_mem (run_nodup (Walker.start start)).1 (mem_walkFrom_of_leads h)

end PacketSchema.Schema
