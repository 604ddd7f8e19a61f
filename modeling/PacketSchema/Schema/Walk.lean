import PacketSchema.Schema.Lookup

/-! Walking over everything that a schema holds, depth first from the root. Types and structs are
yielded once each, with the path of names on which they are first met; namespaces are passed
through. -/

namespace PacketSchema

inductive Node where
  | space (id : ScopeId)
  | type (type : TypeRef)
deriving DecidableEq, Repr

def Item.node : Item → Node
  | space id => .space id
  | type t => .type t

namespace Node

def scope? : Node → Option ScopeId
  | space id | type (.struct id) => some id
  | type _ => none

def type? : Node → Option TypeRef
  | space _ => none
  | type t => some t

end Node

/-- A way from a node to nodes below it. -/
inductive Link where
  | fields
  | names
  | branches
  | child (name : String)
deriving DecidableEq, Repr

namespace Schema

def links (s : Schema) : Node → List Link
  | .space _ => [.names]
  | .type (.struct id) =>
    match s.layout? id with
    | none => [.names]
    | some _ => [.fields, .names, .branches]
  | .type (.param _) => [.child "length", .child "elem"]
  | .type (.builtin _) => []

def child? (t : ParamType) (name : String) : Option TypeRef :=
  if name = "length" then
    match t.length? with
    | some (.prefixed b) => some (.builtin b)
    | _ => none
  else if name = "elem" then t.elem?
  else none

def followScope (scope : Scope) : Link → List (String × Node)
  | .names => scope.names.entries.map fun (name, item) => (name, item.node)
  | .fields =>
    ((scope.layout?.map Layout.fields).getD {}).entries.map fun (name, field) =>
      (name, .type field.type)
  | .branches =>
    ((scope.layout?.map Layout.branches).getD {}).entries.map fun (path, id) =>
      (path.text, .type (.struct id))
  | .child _ => []

def followParam (t : ParamType) : Link → List (String × Node)
  | .child name => ((child? t name).map fun t => (name, Node.type t)).toList
  | .names | .fields | .branches => []

/-- The nodes that a link leads to, with the names by which it leads to them. -/
def follow (s : Schema) : Node → Link → List (String × Node)
  | .space id, link | .type (.struct id), link =>
    ((s.scope? id).map (followScope · link)).getD []
  | .type (.param id), link => ((s.param? id).map (followParam · link)).getD []
  | .type (.builtin _), _ => []

def children (s : Schema) (n : Node) : List (String × Node) := (s.links n).flatMap (s.follow n)

/-- Every node that has nodes below it is among these. -/
def nodes (s : Schema) : List Node :=
  (List.range s.scopes.length).flatMap (fun i => [.space ⟨i⟩, .type (.struct ⟨i⟩)]) ++
    (List.range s.types.size).map fun i => .type (.param ⟨i⟩)

end Schema

/-- The nodes still to be visited, the next one first, and those that have been. -/
structure Walker where
  stack : List (List String × Node)
  visited : List Node
deriving DecidableEq, Repr

namespace Walker

def start (n : Node) : Walker := ⟨[([], n)], []⟩

def isNew (visited : List Node) (n : Node) : Bool := !visited.contains n

/-- Adds up a number over the nodes that are new. -/
def sumNew (f : Node → Nat) (visited : List Node) : List Node → Nat
  | [] => 0
  | n :: ns => (if isNew visited n then f n else 0) + sumNew f visited ns

/-- How many nodes can still come to the stack or are on it. -/
def work (s : Schema) (w : Walker) : Nat :=
  w.stack.length + sumNew (fun n => (s.children n).length) w.visited s.nodes

/-- Visits the node on top: its own nodes below it that are still new come to the stack in front of
the rest. -/
def expand (s : Schema) (w : Walker) (path : List String) (n : Node)
    (rest : List (List String × Node)) : Walker :=
  let fresh := (s.children n).filter fun child => isNew (n :: w.visited) child.2
  ⟨fresh.map (fun child => (path ++ [child.1], child.2)) ++ rest, n :: w.visited⟩

theorem children_eq_nil_of_not_mem_nodes {s : Schema} {n : Node} (h : n ∉ s.nodes) :
    s.children n = [] := by
  have outside : ∀ id : ScopeId, s.nodes.contains (.space id) = false ∨
      s.nodes.contains (.type (.struct id)) = false → s.scope? id = none := by
    intro id hid
    apply List.getElem?_eq_none
    apply Nat.le_of_not_lt
    intro hlt
    have hspace : Node.space id ∈ s.nodes :=
      List.mem_append_left _ (List.mem_flatMap.2 ⟨id.index, List.mem_range.2 hlt, by simp⟩)
    have hstruct : Node.type (.struct id) ∈ s.nodes :=
      List.mem_append_left _ (List.mem_flatMap.2 ⟨id.index, List.mem_range.2 hlt, by simp⟩)
    simp_all
  cases n with
  | space id => simp [Schema.children, Schema.links, Schema.follow, outside id (by simp [h])]
  | type t =>
    cases t with
    | builtin b => rfl
    | struct id =>
      have hs := outside id (by simp [h])
      simp [Schema.children, Schema.links, Schema.follow, Schema.layout?, hs]
    | param id =>
      have hs : s.param? id = none := by
        apply List.getElem?_eq_none
        apply Nat.le_of_not_lt
        intro hlt
        exact h (List.mem_append_right _ (List.mem_map.2 ⟨id.index, List.mem_range.2 hlt, rfl⟩))
      simp [Schema.children, Schema.links, Schema.follow, hs]

theorem sumNew_visit (f : Node → Nat) {visited : List Node} {n : Node} (hn : isNew visited n)
    (ns : List Node) :
    sumNew f (n :: visited) ns + (if n ∈ ns then f n else 0) ≤ sumNew f visited ns := by
  induction ns with
  | nil => simp [sumNew]
  | cons m ns ih =>
    by_cases hm : m = n
    · subst hm
      have hold : isNew (m :: visited) m = false := by simp [isNew]
      have hle : sumNew f (m :: visited) ns ≤ sumNew f visited ns := by omega
      simp [sumNew, hn, hold]
      omega
    · have hsame : isNew (n :: visited) m = isNew visited m := by simp [isNew, hm]
      simp only [sumNew, hsame, List.mem_cons, Ne.symm hm, false_or]
      omega

theorem work_pop (s : Schema) (w : Walker) {top : List String × Node}
    {rest : List (List String × Node)} (h : w.stack = top :: rest) :
    work s { w with stack := rest } < work s w := by
  simp [work, h]

theorem work_expand (s : Schema) (w : Walker) {path : List String} {n : Node}
    {rest : List (List String × Node)} (h : w.stack = (path, n) :: rest)
    (hn : isNew w.visited n) : work s (w.expand s path n rest) < work s w := by
  have hsum := sumNew_visit (fun n => (s.children n).length) hn s.nodes
  have hlen := List.length_filter_le (fun child => isNew (n :: w.visited) child.2) (s.children n)
  have hnil : n ∉ s.nodes → (s.children n).length = 0 := fun hm =>
    congrArg List.length (children_eq_nil_of_not_mem_nodes hm)
  simp only [work, expand, h, List.length_append, List.length_map, List.length_cons]
  split at hsum
  · omega
  · have := hnil ‹_›
    omega

/-- What is yielded from here to the end. -/
def run (s : Schema) (w : Walker) : List (List String × TypeRef) :=
  match _h : w.stack with
  | [] => []
  | (path, n) :: rest =>
    if _hn : isNew w.visited n then
      (n.type?.map fun t => (path, t)).toList ++ run s (w.expand s path n rest)
    else run s { w with stack := rest }
termination_by work s w
decreasing_by
  · exact work_expand s w _h _hn
  · exact work_pop s w _h

end Walker

namespace Schema

def walkFrom (s : Schema) (n : Node) : List (List String × TypeRef) := (Walker.start n).run s

def walk (s : Schema) : List (List String × TypeRef) := s.walkFrom (.space root)

end Schema

end PacketSchema
