import DebugBridge.EngineEvent
import DebugBridge.EngineRequest
import DebugBridge.Proofs.Address
import DebugBridge.Proofs.Command
import DebugBridge.Proofs.Content.Setting
import DebugBridge.Proofs.DebuggerState

/-!
# Proofs/Command/Echo — an address that the debugger gives back

The debugger learns of an address by the text of its key (`Told`), and names the address by this
text in its commands. The text is normalized when the command is read (`address_of_ofContent`), as
every address is.

```
  raw  --normalize-->  key  --Told-->  told  ~~>  echoed  --ofContent-->  command
                        ‖ ?                                                 |
                       key  <-------------------- address? -----------------+
```

The command is about the key that was told, unless the spelling that the key was made from had
hidden something behind its mark (`echoed_iff`).
-/

namespace DebugBridge

/-- A step of a computation that came to a result. -/
theorem exists_of_bind_eq_ok {ε α β : Type} {x : Except ε α} {f : α → Except ε β} {b : β}
    (h : x >>= f = .ok b) : ∃ a, x = .ok a ∧ f a = .ok b := by
  rcases x with e | a
  · cases h
  · exact ⟨a, rfl, h⟩

/-! ## What the debugger is told -/

/-- **Whether a content tells the debugger of a key**: that of a step, of a new contract, or of
where a contract lives. -/
inductive Told : AddressKey → Content → Prop
  | step (step : Step) (tags : List StepTag) : Told step.address (step.content tags)
  | newContract (key : AddressKey) (code : List UInt8) :
    Told key (EngineEvent.newContract key code).content
  | contractAddress (name : String) (key : AddressKey) :
    Told key (EngineRequest.contractAddress name key).content

/-- **What is told is the text of the key**, whatever else is in the content. -/
theorem Told.field? {key : AddressKey} {told : Content} (h : Told key told) :
    told.field? "address" = some (.string key.text) := by
  cases h with
  | step step tags =>
    rw [Step.content, Content.field?_set_of_ne (Content.isRooted_set _ _ _) (by decide),
      Content.field?_set_of_ne (Content.isRooted_set _ _ _) (by decide), Content.field?_set_string]
  | newContract key code =>
    rw [EngineEvent.content, Content.field?_set_of_ne (Content.isRooted_set _ _ _) (by decide),
      Content.field?_set_string]
  | contractAddress name key => rw [EngineRequest.content, Content.field?_set_string]

/-! ## What is read -/

/-- A scalar member of the root is a member of the tree. -/
theorem Content.lookup_of_toJson? {c : Content} {members : List (String × Json)} {key : String}
    {x : Item} (h : c.toJson? = some (.object members)) (hx : c.field? key = some x)
    (hscalar : x.IsScalar) : members.lookup key = some (Wire.scalarValue x) := by
  have hmember : c.child? c.root (.member key) = some x := hx
  have hrel := rel_child?_of_treeAt? h (.member key)
  rw [hmember] at hrel
  obtain ⟨w, hw, less, above, htree⟩ : ∃ w, members.lookup key = some w ∧
      ∃ less above, c.treeAt? less above x = some w := by
    generalize hlookup : (Json.object members).child? (.member key) = found at hrel
    cases hrel with
    | some inside => exact ⟨_, hlookup, inside⟩
  rw [treeAt?_scalar hscalar] at htree
  rw [hw, htree]

namespace Command

variable {command : Command} {members : List (String × Json)} {type text : String}

/-- The address that a command names. -/
def address? : Command → Option AddressKey
  | .getStorage address _ | .sendBreakpoint _ address _ _ _ | .sendDeclarations address _
  | .sendJumpDestinations address _ => some address
  | _ => none

/-- What a command sets up is set up at its address. -/
theorem address?_of_mem_changes {mode : ScopeMode} {change : DebuggerState.Change}
    {place : AddressKey} (h : change ∈ command.changes mode) (hplace : place ∈ change.address?) :
    place ∈ command.address? := by
  rcases command with _ | _ | ⟨id, address, pc, enabled, runtime⟩ | _ | _ | _ | _ | _
  case sendBreakpoint =>
    rcases enabled with _ | _
    · obtain rfl := List.mem_singleton.1 h
      cases hplace
    · rcases pc with _ | pc
      · cases h
      · obtain rfl := List.mem_singleton.1 h
        exact hplace
  case sendDeclarations | sendJumpDestinations =>
    obtain rfl := List.mem_singleton.1 h
    exact hplace
  all_goals cases h

/-- **The address of a command is the key of the member `address`.** -/
theorem address_of_ofMembers (haddress : members.lookup "address" = some (.string text))
    (h : ofMembers type members = .ok command) : ∀ key ∈ command.address?, key = .normalize text := by
  have hread {found : Option AddressKey} {key : AddressKey}
      (hfound : member? members "address" asAddress = .ok found)
      (hkey : required "address" found = .ok key) : key = .normalize text := by
    rw [member?, haddress] at hfound
    rw [← Except.ok.inj hfound] at hkey
    exact (Except.ok.inj hkey).symm
  intro key hkey
  unfold ofMembers at h
  split at h
  -- the address and one more member
  case h_2 | h_4 | h_5 =>
    obtain ⟨found, hfound, h⟩ := exists_of_bind_eq_ok h
    obtain ⟨other, -, h⟩ := exists_of_bind_eq_ok h
    obtain ⟨address, haddress, h⟩ := exists_of_bind_eq_ok h
    obtain ⟨value, -, h⟩ := exists_of_bind_eq_ok h
    cases h
    obtain rfl := Option.some.inj hkey
    exact hread hfound haddress
  -- the address and the other members of a breakpoint
  case h_3 =>
    obtain ⟨found, hfound, h⟩ := exists_of_bind_eq_ok h
    obtain ⟨enabled, -, h⟩ := exists_of_bind_eq_ok h
    obtain ⟨id, -, h⟩ := exists_of_bind_eq_ok h
    obtain ⟨pc, -, h⟩ := exists_of_bind_eq_ok h
    obtain ⟨runtime, -, h⟩ := exists_of_bind_eq_ok h
    obtain ⟨name, -, h⟩ := exists_of_bind_eq_ok h
    obtain ⟨address, haddress, h⟩ := exists_of_bind_eq_ok h
    cases h
    obtain rfl := Option.some.inj hkey
    exact hread hfound haddress
  -- no address
  case h_1 =>
    obtain ⟨stepId, -, h⟩ := exists_of_bind_eq_ok h
    cases h
    cases hkey
  case h_6 =>
    obtain ⟨found, -, h⟩ := exists_of_bind_eq_ok h
    obtain ⟨stepId, -, h⟩ := exists_of_bind_eq_ok h
    obtain ⟨step, -, h⟩ := exists_of_bind_eq_ok h
    obtain ⟨pc, -, h⟩ := exists_of_bind_eq_ok h
    cases h
    cases hkey
  case h_7 | h_8 =>
    cases h
    cases hkey

/-- **The address of a command is normalized once more when it is read.** -/
theorem address_of_ofContent {c : Content} (haddress : c.field? "address" = some (.string text))
    (h : ofContent c = .ok command) : ∀ key ∈ command.address?, key = .normalize text := by
  have hunknown (h : (.ok .unknown : Except WireError Command) = .ok command) :
      ∀ key ∈ command.address?, key = .normalize text := by
    obtain rfl := Except.ok.inj h
    exact nofun
  unfold ofContent at h
  split at h
  · exact hunknown h
  · next type _ =>
    split at h
    · cases h
    · next members hmembers =>
      rcases hcommand : ofMembers type members with fault | read
      · rw [hcommand] at h
        cases h
      · rw [hcommand] at h
        obtain rfl := Except.ok.inj h
        exact address_of_ofMembers (Content.lookup_of_toJson? hmembers haddress nofun) hcommand
    · exact hunknown h

end Command

/-! ## What comes back -/

namespace AddressKey

/-- **A key that comes back is the key that was told**, unless its spelling hides something behind
its mark. Whatever told the debugger of the key and whatever command gives it back, the command
names the key of its text, and sets up there what it sets up. -/
theorem echoed_iff (raw : String) :
    (normalize (normalize raw).text = normalize raw ↔ ¬ Layered raw) ∧
      ∀ told echoed command, Told (normalize raw) told →
        echoed.field? "address" = told.field? "address" →
        Command.ofContent echoed = .ok command →
        (∀ key ∈ command.address?, key = normalize raw ↔ ¬ Layered raw) ∧
          ∀ mode, ∀ change ∈ command.changes mode, ∀ place ∈ change.address?,
            place = normalize raw ↔ ¬ Layered raw := by
  refine ⟨normalize_text_eq_iff, fun told echoed command htold hechoed hcommand => ?_⟩
  have hkey : ∀ key ∈ command.address?, key = normalize raw ↔ ¬ Layered raw := by
    intro key hkey
    rw [Command.address_of_ofContent (hechoed.trans htold.field?) hcommand key hkey]
    exact normalize_text_eq_iff
  exact ⟨hkey, fun mode change hchange place hplace =>
    hkey place (Command.address?_of_mem_changes hchange hplace)⟩

/-- A request for a breakpoint at an address. -/
def breakpointRequest (address : String) : Content :=
  .ofJson (.object [("type", .string "sendBreakpoint"), ("id", .string "b"),
    ("address", .string address), ("pc", .ofWord 7), ("enabled", .bool true)])

/-- The command of the request. -/
def breakpointCommand (address : String) : Command :=
  .sendBreakpoint (.text "b") (.normalize address) (some 7) true none

theorem ofContent_breakpointRequest (address : String) :
    Command.ofContent (breakpointRequest address) = .ok (breakpointCommand address) := rfl

theorem field?_breakpointRequest (address : String) :
    (breakpointRequest address).field? "address" = some (.string address) := rfl

theorem echoed_iff_markedSpelling :
    let key := normalize markedSpelling
    Told key (EngineEvent.newContract key []).content ∧
      Command.ofContent (breakpointRequest key.text) = .ok (breakpointCommand key.text) ∧
      ∀ place ∈ (breakpointCommand key.text).address?, place = key := by
  intro key
  have htold : Told key (EngineEvent.newContract key []).content := .newContract key []
  have hplain : ¬ Layered markedSpelling := normalize_text_eq_iff.1 (by decide +kernel)
  refine ⟨htold, ofContent_breakpointRequest key.text, fun place hplace => ?_⟩
  have hechoed := ((echoed_iff markedSpelling).2 _ (breakpointRequest key.text) _ htold
    ((field?_breakpointRequest key.text).trans htold.field?.symm)
    (ofContent_breakpointRequest key.text)).1
  exact (hechoed place hplace).2 hplain

/-- A spelling with two marks has a key that comes back as another one. -/
theorem normalize_twoMarks :
    let raw := "0x0x5FbDB2315678afecb367f032d93F642f64180aa3"
    let key := normalize raw
    normalize key.text ≠ key ∧ key.address? = (normalize key.text).address? ∧ key.address?.isSome ∧
      Told key (EngineEvent.newContract key []).content ∧
      ∃ place ∈ (breakpointCommand key.text).address?,
        Command.ofContent (breakpointRequest key.text) = .ok (breakpointCommand key.text) ∧
          place ≠ key := by
  intro raw key
  have hne : normalize key.text ≠ key := by decide +kernel
  exact ⟨hne, by decide +kernel, by decide +kernel, .newContract key [],
    normalize key.text, rfl, ofContent_breakpointRequest key.text, hne⟩

end AddressKey

end DebugBridge
