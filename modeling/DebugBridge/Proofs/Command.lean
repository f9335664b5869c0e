import DebugBridge.Command
import DebugBridge.Proofs.Content.Paths

/-!
# Proofs/Command — the scope that a request gives a breakpoint

A request for a breakpoint may have a member `runtime` at its root, which restricts the breakpoint
to one flavour of code or says that it is not restricted (`ScopeMember`). The command of the request
takes its scope from there, and nothing else: requests that differ in this member alone are out of
shape for the same reason, or ask for the same breakpoint but for its scope (`ofContent_withScope`).
-/

namespace DebugBridge

/-! ## Unfolding beside a path -/

/-- **What is under a path does not depend on the nodes of the path.** -/
theorem Content.treeAt?_congr {c d : Content} {above : List NodeId}
    (h : ∀ id, id ∉ above → c.node? id = d.node? id) (room : Nat) (x : Item) :
    c.treeAt? room above x = d.treeAt? room above x := by
  induction room using Nat.strong_induction_on generalizing above x with
  | h room ih =>
    by_cases hx : x.IsScalar
    · rw [treeAt?_scalar hx, treeAt?_scalar hx]
    obtain ⟨id, rfl⟩ : ∃ id, x = .node id := by simpa [Item.IsScalar] using hx
    by_cases hid : id ∈ above
    · rw [treeAt?_above hid, treeAt?_above hid]
    rcases hn : c.node? id with _ | n
    · rw [treeAt?_missing hid hn, treeAt?_missing hid ((h id hid).symm.trans hn)]
    have hn' : d.node? id = some n := (h id hid).symm.trans hn
    rcases room with _ | room
    · rw [treeAt?_full hn, treeAt?_full hn']
    · have hinside : c.treeAt? room (id :: above) = d.treeAt? room (id :: above) := by
        refine funext fun y => ih room (Nat.lt_succ_self room) (fun k hk => h k fun hmem => ?_) y
        exact hk (List.mem_cons_of_mem id hmem)
      rw [treeAt?_container hid hn, treeAt?_container hid hn', hinside]

/-- What is found under a key among the results for the values of some entries. -/
theorem lookup_mapM {α β : Type} {f : α → Option β} {l : List (String × α)} {l' : List (String × β)}
    (h : (l.mapM fun e => (f e.2).map fun y => (e.1, y)) = some l') (key : String) :
    l'.lookup key = (l.lookup key).bind f := by
  rw [mapM_eq_some_iff] at h
  induction h with
  | nil => rfl
  | @cons e e' l l' head _ ih =>
    obtain ⟨k, x⟩ := e
    obtain ⟨y, hy, rfl⟩ := Option.map_eq_some_iff.1 head
    rw [KeyMap.lookup_cons_ite, KeyMap.lookup_cons_ite, ih]
    split
    · exact hy.symm
    · rfl

/-! ## The scope of a breakpoint in a request -/

/-- The member `runtime` of a request for a breakpoint. -/
inductive ScopeMember where
  | absent
  | null
  | flag (runtime : Bool)
  deriving DecidableEq, Repr

namespace ScopeMember

def key : String := "runtime"

def item? : ScopeMember → Option Item
  | .absent => none
  | .null => some .null
  | .flag runtime => some (.bool runtime)

/-- The flavour of code that is asked for, as a flag. -/
def runtime? : ScopeMember → Option Bool
  | .flag runtime => some runtime
  | _ => none

/-- Some members with this one in place of their own. -/
def put (scope : ScopeMember) (members : KeyMap Item) : KeyMap Item :=
  match scope.item? with
  | some item => members.insert key item
  | none => members.erase key

theorem get?_put (scope : ScopeMember) (members : KeyMap Item) (k : String) :
    (scope.put members).get? k = if k = key then scope.item? else members.get? k := by
  rcases scope with _ | _ | runtime
  · exact KeyMap.get?_erase members key k
  · exact KeyMap.get?_insert members key .null k
  · exact KeyMap.get?_insert members key (.bool runtime) k

theorem isScalar_of_item? {scope : ScopeMember} {x : Item} (h : scope.item? = some x) :
    x.IsScalar := by
  rcases scope with _ | _ | runtime
  · cases h
  · obtain rfl := Option.some.inj h
    exact nofun
  · obtain rfl := Option.some.inj h
    exact nofun

/-- The member in a tree. -/
def json? (scope : ScopeMember) : Option Json :=
  scope.item?.map Wire.scalarValue

end ScopeMember

namespace Content

variable {c : Content} {id : NodeId} {members : KeyMap Item}

/-- A content whose root has this member `runtime` in place of its own. -/
def withScope (c : Content) (scope : ScopeMember) : Content :=
  match c.root with
  | .node id =>
    match c.nodes[id]? with
    | some (.object members) =>
      { c with nodes := c.nodes.setIfInBounds id (.object (scope.put members)) }
    | _ => c
  | _ => c

theorem exists_of_field? {key : String} {item : Item} (h : c.field? key = some item) :
    ∃ id members, c.root = .node id ∧ c.node? id = some (.object members) ∧
      members.get? key = some item := by
  rw [field?, member?] at h
  split at h
  · next members hnode =>
    rcases hroot : c.root with _ | _ | _ | _ | id
    case node =>
      rw [hroot] at hnode
      exact ⟨id, members, rfl, hnode, h⟩
    all_goals
      rw [hroot] at hnode
      cases hnode
  · cases h

section

variable (hroot : c.root = .node id) (hnode : c.node? id = some (.object members))
  (scope : ScopeMember)

include hroot hnode

theorem withScope_eq : c.withScope scope =
    { c with nodes := c.nodes.setIfInBounds id (.object (scope.put members)) } := by
  rw [withScope, hroot]
  dsimp only
  rw [show c.nodes[id]? = some (.object members) from hnode]

theorem node?_withScope : (c.withScope scope).node? id = some (.object (scope.put members)) := by
  obtain ⟨hlt, -⟩ := Array.getElem?_eq_some_iff.1 hnode
  rw [withScope_eq hroot hnode]
  simp [node?, hlt]

theorem node?_withScope_of_ne {k : NodeId} (h : k ≠ id) :
    (c.withScope scope).node? k = c.node? k := by
  rw [withScope_eq hroot hnode]
  exact Array.getElem?_setIfInBounds_ne h.symm

theorem field?_withScope (key : String) : (c.withScope scope).field? key =
    if key = ScopeMember.key then scope.item? else members.get? key := by
  have hroot' : (c.withScope scope).root = .node id := by
    rw [withScope_eq hroot hnode]
    exact hroot
  have hnode' : (Item.node? (.node id) >>= (c.withScope scope).node?) =
      some (.object (scope.put members)) := node?_withScope hroot hnode scope
  rw [field?, member?, hroot', hnode']
  exact scope.get?_put members key

/-- **The members of the root are unfolded one by one**, and none of them through the root. -/
theorem toJson?_withScope : (c.withScope scope).toJson? =
    ((scope.put members).entries.mapM fun entry =>
      (c.treeAt? (c.nodes.size - 1) [id] entry.2).map fun value => (entry.1, value)).map .object := by
  obtain ⟨hlt, -⟩ := Array.getElem?_eq_some_iff.1 hnode
  have hsize : (c.withScope scope).nodes.size = c.nodes.size - 1 + 1 := by
    rw [withScope_eq hroot hnode, Array.size_setIfInBounds]
    omega
  have hroot' : (c.withScope scope).root = .node id := by
    rw [withScope_eq hroot hnode]
    exact hroot
  have hinside : (c.withScope scope).treeAt? (c.nodes.size - 1) [id] =
      c.treeAt? (c.nodes.size - 1) [id] :=
    funext fun x => treeAt?_congr (fun k hk => node?_withScope_of_ne hroot hnode scope
      fun heq => hk (heq ▸ List.mem_cons_self)) _ x
  rw [toJson?, hsize, hroot', treeAt?_object List.not_mem_nil (node?_withScope hroot hnode scope),
    hinside]

/-- **Contents that differ in the member `runtime`** unfold into trees that differ there and in
nothing else, or none of them unfolds. -/
theorem toJson?_withScope_cases :
    (∀ scope, (c.withScope scope).toJson? = none) ∨
      ∃ trees : ScopeMember → List (String × Json), ∃ look : String → Option Json, ∀ scope,
        (c.withScope scope).toJson? = some (.object (trees scope)) ∧
          ∀ key, (trees scope).lookup key =
            if key = ScopeMember.key then scope.json? else look key := by
  let unfold := c.treeAt? (c.nodes.size - 1) [id]
  have hscalar {scope : ScopeMember} {x : Item} (h : scope.item? = some x) :
      unfold x = some (Wire.scalarValue x) :=
    treeAt?_scalar (ScopeMember.isScalar_of_item? h) c _ _
  by_cases hnone : ∃ key x, key ≠ ScopeMember.key ∧ members.get? key = some x ∧ unfold x = none
  · obtain ⟨key, x, hkey, hget, hx⟩ := hnone
    refine .inl fun scope => ?_
    have hentry : (key, x) ∈ (scope.put members).entries := by
      rw [← KeyMap.get?_eq_some_iff, scope.get?_put, if_neg hkey]
      exact hget
    have hfails : (unfold x).map (fun value => (key, value)) = none := by rw [hx, Option.map_none]
    rw [toJson?_withScope hroot hnode, mapM_eq_none_iff.2 ⟨(key, x), hentry, hfails⟩,
      Option.map_none]
  · have hall (scope : ScopeMember) : ∃ trees, ((scope.put members).entries.mapM fun entry =>
        (unfold entry.2).map fun value => (entry.1, value)) = some trees := by
      rw [← Option.ne_none_iff_exists', Ne, mapM_eq_none_iff]
      rintro ⟨⟨key, x⟩, hentry, hfails⟩
      rw [← KeyMap.get?_eq_some_iff, scope.get?_put] at hentry
      have hx : unfold x = none := Option.map_eq_none_iff.1 hfails
      split at hentry
      · rw [hscalar hentry] at hx
        cases hx
      · next hkey => exact hnone ⟨key, x, hkey, hentry, hx⟩
    choose trees htrees using hall
    refine .inr ⟨trees, fun key => (members.get? key).bind unfold, fun scope => ⟨?_, fun key => ?_⟩⟩
    · rw [toJson?_withScope hroot hnode, htrees scope, Option.map_some]
    · rw [lookup_mapM (htrees scope)]
      show ((scope.put members).get? key).bind unfold = _
      rw [scope.get?_put]
      split
      · rcases hitem : scope.item? with _ | x
        · rw [ScopeMember.json?, hitem]
          rfl
        · rw [ScopeMember.json?, hitem, Option.bind_some, hscalar hitem]
          rfl
      · rfl

end

end Content

namespace Command

/-- **Whether commands differ in the scope of a breakpoint alone**, if they are commands. -/
def VaryInScope {ε : Type} (command : ScopeMember → Except ε Command) : Prop :=
  (∃ fault, ∀ scope, command scope = .error fault) ∨
    ∃ id address pc enabled, ∀ scope,
      command scope = .ok (.sendBreakpoint id address pc enabled scope.runtime?)

/-- The member has its shape. -/
theorem member?_scope {scope : ScopeMember} {members : List (String × Json)}
    (h : members.lookup ScopeMember.key = scope.json?) :
    ∃ runtime, member? members "runtime" (Json.asOption Json.asFlag) = .ok runtime ∧
      runtime.getD none = scope.runtime? := by
  rw [member?, show members.lookup "runtime" = scope.json? from h]
  rcases scope with _ | _ | runtime
  · exact ⟨none, rfl, rfl⟩
  · exact ⟨some none, rfl, rfl⟩
  · exact ⟨some (some runtime), rfl, rfl⟩

/-- **The scope is taken from its member, and nothing else is.** -/
theorem varyInScope_ofMembers {trees : ScopeMember → List (String × Json)}
    {look : String → Option Json}
    (h : ∀ scope key, (trees scope).lookup key =
      if key = ScopeMember.key then scope.json? else look key) :
    VaryInScope fun scope => ofMembers "sendBreakpoint" (trees scope) := by
  have hmember {α : Type} (key : String) (hkey : key ≠ ScopeMember.key)
      (shape : Json → Except ShapeFault α) :
      ∃ found, ∀ scope, member? (trees scope) key shape = found :=
    ⟨_, fun scope => by rw [member?, h, if_neg hkey]⟩
  obtain ⟨address, haddress⟩ := hmember "address" (by decide) asAddress
  obtain ⟨enabled, henabled⟩ := hmember "enabled" (by decide) Json.asFlag
  obtain ⟨id, hid⟩ := hmember "id" (by decide) BreakpointId.ofJson
  obtain ⟨pc, hpc⟩ := hmember "pc" (by decide) (Json.asOption Json.asWord)
  have hread (scope : ScopeMember) : ofMembers "sendBreakpoint" (trees scope) = (do
      let address ← address
      let enabled ← enabled
      let id ← id
      let pc ← pc
      let id ← required "id" id
      let address ← required "address" address
      return .sendBreakpoint id address (pc.getD none) (enabled.getD false) scope.runtime?) := by
    obtain ⟨runtime, hruntime, hvalue⟩ := member?_scope ((h scope _).trans (if_pos rfl))
    rw [← haddress scope, ← henabled scope, ← hid scope, ← hpc scope, ← hvalue]
    simp only [ofMembers, hruntime]
    rfl
  simp only [VaryInScope, hread]
  rcases address with fault | address
  · exact .inl ⟨fault, fun _ => rfl⟩
  rcases enabled with fault | enabled
  · exact .inl ⟨fault, fun _ => rfl⟩
  rcases id with fault | id
  · exact .inl ⟨fault, fun _ => rfl⟩
  rcases pc with fault | pc
  · exact .inl ⟨fault, fun _ => rfl⟩
  rcases id with _ | id
  · exact .inl ⟨_, fun _ => rfl⟩
  rcases address with _ | address
  · exact .inl ⟨_, fun _ => rfl⟩
  exact .inr ⟨id, address, _, _, fun _ => rfl⟩

/-- **Requests that differ in the member `runtime`** are refused for the same reason, or ask for the
same breakpoint but for its scope. -/
theorem ofContent_withScope {c : Content} (h : c.field? "type" = some (.string "sendBreakpoint")) :
    VaryInScope fun scope => ofContent (c.withScope scope) := by
  obtain ⟨id, members, hroot, hnode, htype⟩ := Content.exists_of_field? h
  have hcommand (scope : ScopeMember) :
      (c.withScope scope).field? "type" >>= Item.text? = some "sendBreakpoint" := by
    rw [Content.field?_withScope hroot hnode, if_neg (by decide), htype]
    rfl
  rcases Content.toJson?_withScope_cases hroot hnode with hnone | ⟨trees, look, htrees⟩
  · refine .inl ⟨.cycle, fun scope => ?_⟩
    show ofContent (c.withScope scope) = .error .cycle
    rw [ofContent, hcommand, hnone]
  · have hof (scope : ScopeMember) : ofContent (c.withScope scope) =
        (ofMembers "sendBreakpoint" (trees scope)).mapError fun fault => .text (.shape fault) := by
      rw [ofContent, hcommand, (htrees scope).1]
    have hvary := varyInScope_ofMembers fun scope => (htrees scope).2
    simp only [VaryInScope, hof] at hvary ⊢
    rcases hvary with ⟨fault, hfault⟩ | ⟨id, address, pc, enabled, hok⟩
    · exact .inl ⟨.text (.shape fault), fun scope => by rw [hfault]; rfl⟩
    · exact .inr ⟨id, address, pc, enabled, fun scope => by rw [hok]; rfl⟩

end Command

end DebugBridge
