import Std.Data.HashMap
import DebugBridge.Content.Basic

/-!
# Content/Visited — the measure of a walk over a graph

A walk that enters every node once keeps a map under the numbers of the nodes it has entered. The
number of nodes that are still unvisited goes down whenever a node of the graph is entered, which is
why such a walk ends. Numbers that no node has may be entered too; they never make it go up.
-/

namespace DebugBridge

/-- How many of the first `size` numbers have no entry. -/
def unvisited {α : Type} (visited : Std.HashMap NodeId α) (size : Nat) : Nat :=
  (List.range size).countP fun id => !visited.contains id

/-- What holds more often, of one item at least, is counted more often. -/
theorem countP_lt_countP {α : Type} {p q : α → Bool} {l : List α}
    (h : ∀ x ∈ l, p x → q x) {x : α} (hx : x ∈ l) (hp : p x = false) (hq : q x = true) :
    l.countP p < l.countP q := by
  induction l with
  | nil => cases hx
  | cons y l ih =>
    have hle : l.countP p ≤ l.countP q :=
      List.countP_mono_left fun z hz => h z (List.mem_cons_of_mem _ hz)
    rcases List.mem_cons.1 hx with rfl | hx
    · simp [hp, hq]
      omega
    · have := ih (fun z hz => h z (List.mem_cons_of_mem _ hz)) hx
      have hy := h y List.mem_cons_self
      by_cases hpy : p y = true
      · simp [hpy, hy hpy]
        omega
      · have := List.countP_cons_of_neg (l := l) (a := y) (p := p) (by simpa using hpy)
        have := List.countP_cons (l := l) (a := y) (p := q)
        split at this <;> omega

/-- To enter a node leaves no more of them unvisited. -/
theorem unvisited_insert_le {α : Type} (visited : Std.HashMap NodeId α) (id : NodeId) (partner : α)
    (size : Nat) : unvisited (visited.insert id partner) size ≤ unvisited visited size := by
  refine List.countP_mono_left fun id _ h => ?_
  simp only [Std.HashMap.contains_insert] at h
  simp_all

/-- To enter a node of the graph for the first time leaves fewer of them unvisited. -/
theorem unvisited_insert_lt {α : Type} {visited : Std.HashMap NodeId α} {id : NodeId} {size : Nat}
    (hsize : id < size) (h : ¬ visited.contains id) (partner : α) :
    unvisited (visited.insert id partner) size < unvisited visited size := by
  refine countP_lt_countP (fun id _ h => ?_) (List.mem_range.2 hsize) ?_ ?_
  · simp only [Std.HashMap.contains_insert] at h
    simp_all
  · simp
  · simpa using h

/-- A step that enters `id` and shortens what is left makes the measure of the walk smaller, also
when no node has the number `id`. -/
theorem unvisited_insert_lex {α : Type} (visited : Std.HashMap NodeId α) (id : NodeId) (partner : α)
    (size : Nat) {m n : Nat} (h : m < n) :
    Prod.Lex (· < ·) (· < ·) (unvisited (visited.insert id partner) size, m)
      (unvisited visited size, n) := by
  rcases Nat.lt_or_eq_of_le (unvisited_insert_le visited id partner size) with hlt | heq
  · exact Prod.Lex.left _ _ hlt
  · exact heq ▸ Prod.Lex.right _ h

end DebugBridge
