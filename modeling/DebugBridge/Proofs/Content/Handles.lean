import DebugBridge.Proofs.Content.Operations
import DebugBridge.Proofs.Wire.Rewriting

/-!
# Proofs/Content/Handles — the numbers that a graph issues

Whoever builds a graph gets the numbers of its nodes from the graph: operations hand them out, and
they can be read in the root and in the slots of nodes whose numbers are known. A `Holding` is a
graph with the numbers that it has issued so far, and a history is legal if its operations are given
no others.

```
  graph  --handed out, read-->  issued  --given-->  operation  --makes-->  graph
```

As long as every issued number has a node and no link dangles, an operation that is allowed keeps it
so (`Sound.step`). A graph that was made from a tree or was read starts like this (`sound_start`).
So after any legal history no link dangles, and a number means the node for which it was issued,
with the edits since then that were meant for it (`handles_stay`).
-/

namespace DebugBridge

open Content (Operation)

/-- The edits that the operations of a history mean for a node. -/
def Content.edits (c : Content) (id : NodeId) : List Operation → List Edit
  | [] => []
  | op :: rest => editsAt (c.aim? op) id ++ edits (c.perform op).1 id rest

/-- **A graph with the numbers that it has issued.** -/
structure Holding where
  content : Content
  issued : Set NodeId

namespace Holding

/-! ## Histories -/

/-- What is to be had from a graph by one who has some numbers: these, the number in the root, and
the numbers in the slots of nodes whose numbers are to be had. -/
inductive Readable (c : Content) (had : Set NodeId) : NodeId → Prop
  | had {id : NodeId} (h : id ∈ had) : Readable c had id
  | root {id : NodeId} (h : c.root = .node id) : Readable c had id
  | slot {i j : NodeId} (before : Readable c had i) (link : c.Links i j) : Readable c had j

/-- A graph before any operation. -/
def start (c : Content) : Holding where
  content := c
  issued := {id | Readable c ∅ id}

/-- **What an operation comes to.** What it hands out is issued, and what can be read afterwards. -/
def step (s : Holding) (op : Operation) : Holding where
  content := (s.content.perform op).1
  issued := {id | Readable (s.content.perform op).1
    (s.issued ∪ {id | (s.content.perform op).2 = .node id}) id}

def run (s : Holding) (history : List Operation) : Holding :=
  history.foldl step s

/-- **Whether an operation is given issued numbers only.** -/
def Allows (s : Holding) (op : Operation) : Prop :=
  ∀ id, .node id ∈ op.given → id ∈ s.issued

/-- Operations that are allowed one after the other. -/
def Legal (s : Holding) : List Operation → Prop
  | [] => True
  | op :: rest => s.Allows op ∧ Legal (s.step op) rest

variable {s : Holding} {c : Content} {op : Operation} {history : List Operation} {id : NodeId}
  {n : Node}

theorem run_append (s : Holding) (first second : List Operation) :
    s.run (first ++ second) = (s.run first).run second :=
  List.foldl_append

theorem legal_append {first second : List Operation} :
    s.Legal (first ++ second) ↔ s.Legal first ∧ (s.run first).Legal second := by
  induction first generalizing s with
  | nil => simp [Legal, run]
  | cons op first ih => simp [Legal, ih, run, and_assoc]

theorem issued_subset_step (s : Holding) (op : Operation) : s.issued ⊆ (s.step op).issued :=
  fun _ h => .had (.inl h)

/-- **What was issued stays issued.** -/
theorem issued_subset_run (s : Holding) (history : List Operation) :
    s.issued ⊆ (s.run history).issued := by
  induction history generalizing s with
  | nil => exact fun _ h => h
  | cons op rest ih => exact fun _ h => ih (s.step op) (s.issued_subset_step op h)

/-! ## Every number has a node -/

/-- **No link dangles, and every number that was issued has a node.** -/
structure Sound (s : Holding) : Prop where
  intact : s.content.Intact
  issued : ∀ id ∈ s.issued, (s.content.node? id).isSome

theorem Readable.isSome {had : Set NodeId} (h : Readable c had id) (intact : c.Intact)
    (hhad : ∀ id ∈ had, (c.node? id).isSome) : (c.node? id).isSome := by
  cases h with
  | had h => exact hhad id h
  | root h => exact intact.root id h
  | slot _ link => exact intact.links _ id link

theorem Sound.step (h : s.Sound) (hop : s.Allows op) : (s.step op).Sound := by
  have hintact : (s.step op).content.Intact :=
    h.intact.perform fun id hid => h.issued id (hop id hid)
  refine ⟨hintact, fun id hid => hid.isSome hintact ?_⟩
  rintro id (hold | hnew)
  · exact (Content.updates_perform h.intact op).isSome (h.issued id hold)
  · exact (Content.gains_perform hnew).2

theorem Sound.run (h : s.Sound) (legal : s.Legal history) : (s.run history).Sound := by
  induction history generalizing s with
  | nil => exact h
  | cons op rest ih => exact ih (h.step legal.1) legal.2

theorem sound_start (origin : (∃ v, c = .ofJson v) ∨ ∃ v, Content.decode v = .ok c) :
    (start c).Sound := by
  have hintact : c.Intact := by
    rcases origin with ⟨v, rfl⟩ | ⟨v, hv⟩
    · exact Content.intact_ofJson v
    · exact Content.intact_of_decode hv
  exact ⟨hintact, fun id hid => hid.isSome hintact nofun⟩

/-! ## The same node -/

/-- **A node is what the edits that are meant for it make of it.** -/
theorem node?_run (h : s.Sound) (legal : s.Legal history) (hn : s.content.node? id = some n) :
    (s.run history).content.node? id =
      some ((s.content.edits id history).foldl Node.edit n) := by
  induction history generalizing s n with
  | nil => exact hn
  | cons op rest ih =>
    have hstep := (Content.updates_perform h.intact op).node id n hn
    rw [Content.edits, List.foldl_append]
    exact ih (h.step legal.1) legal.2 hstep

/-- A node at which an operation is not aimed stays what it is. -/
theorem node?_step_of_ne (h : s.Sound) (hn : s.content.node? id = some n)
    (hne : s.content.targetOf? op ≠ some id) : (s.step op).content.node? id = some n := by
  have hstep := (Content.updates_perform h.intact op).node id n hn
  rwa [Content.editsAt_eq_nil hne] at hstep

/-- **Graphs stay closed, and numbers keep their nodes.** A graph that was made from a tree, or was
read, goes through any operations that are given only numbers that it has issued. Then every link
that is stored anywhere leads to a node. A number that was issued at some time had a node then and
has one of the same kind from then on: the same node, with the edits that were meant for it since.
And each operation leaves all nodes but its target as they are, and hands out no number that was
issued before. -/
theorem handles_stay (origin : (∃ v, c = .ofJson v) ∨ ∃ v, Content.decode v = .ok c)
    (legal : (start c).Legal history) :
    ((start c).run history).content.Intact ∧
    (∀ before later, history = before ++ later → ∀ id ∈ ((start c).run before).issued,
      ∃ n n', ((start c).run before).content.node? id = some n ∧
        ((start c).run history).content.node? id = some n' ∧ n'.kind = n.kind ∧
        n' = (((start c).run before).content.edits id later).foldl Node.edit n) ∧
    ∀ before op later, history = before ++ op :: later →
      let s := (start c).run before
      (∀ id n, s.content.node? id = some n → s.content.targetOf? op ≠ some id →
        (s.step op).content.node? id = some n) ∧
      ∀ id, (s.content.perform op).2 = .node id → id ∉ s.issued := by
  have hstart := sound_start origin
  refine ⟨(hstart.run legal).intact, ?same, ?others⟩
  case same =>
    rintro before later rfl id hid
    obtain ⟨hbefore, hlater⟩ := legal_append.1 legal
    have hsound := hstart.run hbefore
    obtain ⟨n, hn⟩ := Option.isSome_iff_exists.1 (hsound.issued id hid)
    refine ⟨n, _, hn, ?_, Node.kind_foldl_edit n _, rfl⟩
    rw [run_append]
    exact node?_run hsound hlater hn
  case others =>
    rintro before op later rfl s
    have hsound : s.Sound := hstart.run (legal_append.1 legal).1
    refine ⟨fun id n hn hne => node?_step_of_ne hsound hn hne, fun id hnew hold => ?_⟩
    have hsome := hsound.issued id hold
    rw [(Content.gains_perform hnew).1] at hsome
    cases hsome

/-- An array with a reference to itself, and an array inside an object inside it. -/
def looped : Json :=
  .array [Wire.marker "", .object [("a", .array [])]]

/-- The graph that `looped` is read as. -/
def loopedGraph : Content :=
  ⟨#[.array [.node 0, .node 1], .object (.ofList [("a", .node 2)]), .array []], .node 0⟩

/-- A new node is linked with those that are there. The root, which is an array, is replaced by an
object when a member of it is set; this is linked from the old root and replaced again. -/
def relinking : List Operation :=
  [.allocObject, .insert 3 "up" (.node 0), .push 2 (.node 3), .set "k" (.array [.bool true]),
    .push 0 (.node 5), .setRoot (.node 2)]

theorem legal_relinking : (start loopedGraph).Legal relinking := by
  have outer : 0 ∈ (start loopedGraph).issued := .root rfl
  have inner : 2 ∈ (start loopedGraph).issued := by
    have first : loopedGraph.Links 0 1 := ⟨_, rfl, by decide⟩
    have second : loopedGraph.Links 1 2 := ⟨_, rfl, by decide⟩
    exact .slot (.slot (.root rfl) first) second
  have handed : 3 ∈ ((start loopedGraph).run (relinking.take 1)).issued := .had (.inr rfl)
  have made : 5 ∈ ((start loopedGraph).run (relinking.take 4)).issued := .root rfl
  refine ⟨nofun, fun id hid => ?_, fun id hid => ?_, nofun, fun id hid => ?_, fun id hid => ?_,
    trivial⟩
  · obtain rfl | rfl : id = 3 ∨ id = 0 := by simpa [Operation.given] using hid
    · exact handed
    · exact issued_subset_run _ (relinking.take 1) outer
  · obtain rfl | rfl : id = 2 ∨ id = 3 := by simpa [Operation.given] using hid
    · exact issued_subset_run _ (relinking.take 2) inner
    · exact issued_subset_step _ _ handed
  · obtain rfl | rfl : id = 0 ∨ id = 5 := by simpa [Operation.given] using hid
    · exact issued_subset_run _ (relinking.take 4) outer
    · exact made
  · obtain rfl : id = 2 := by simpa [Operation.given] using hid
    exact issued_subset_run _ (relinking.take 5) inner

theorem handles_stay_relinking : Content.decode looped = .ok loopedGraph ∧
    (start loopedGraph).Legal relinking ∧
    ((start loopedGraph).run relinking).content.Intact ∧
    0 ∈ (start loopedGraph).issued ∧
    ((start loopedGraph).run relinking).content.node? 0 =
      some (.array [.node 0, .node 1, .node 5]) ∧
    ((start loopedGraph).run (relinking.take 4)).content.node? 0 =
      some (.array [.node 0, .node 1]) := by
  have hdecode : Content.decode looped = .ok loopedGraph := rfl
  have outer : 0 ∈ (start loopedGraph).issued := .root rfl
  obtain ⟨hintact, hsame, hothers⟩ := handles_stay (.inr ⟨looped, hdecode⟩) legal_relinking
  obtain ⟨n, n', hn, hn', -, hedits⟩ := hsame [] relinking rfl 0 outer
  obtain rfl := Option.some.inj hn
  -- setting a member is not aimed at the old root, because that is an array
  obtain ⟨hset, -⟩ := hothers (relinking.take 3) (.set "k" (.array [.bool true]))
    (relinking.drop 4) rfl
  exact ⟨hdecode, legal_relinking, hintact, outer, by rw [hn', hedits]; rfl,
    hset 0 _ rfl (by decide)⟩

end Holding

end DebugBridge
