import DebugBridge.Proofs.Json.Columns
import Mathlib.Data.List.Pairwise
import Mathlib.Logic.Relation

/-!
# Proofs/Json/Rearranging — members in another order

The members of an object may be written in any order. `Written.Reorders` puts those of one object
into another order, wherever the object stands in a value, and `Written.Rearranged` does so any
number of times. Where no object has a key twice, one step changes nothing of what the value stands
for (`Written.Reorders.read?_eq_some`); where one does, it may well, because of members with one key
the last one counts.

A value that is skipped stands for nothing in particular, and for that it does not matter what its
keys are (`Written.Reorders.isSome_read?`).
-/

namespace DebugBridge

namespace Json

/-- Two keys that do not stand for the same text. -/
def Quoted.Differ (a b : Quoted) : Prop :=
  ∀ key, a.read? .keep = some key → b.read? .keep ≠ some key

theorem Quoted.Differ.symm {a b : Quoted} (h : a.Differ b) : b.Differ a :=
  fun key hb ha => h key ha hb

/-- Keys are compared by what they stand for. -/
instance (a b : Quoted) : Decidable (a.Differ b) :=
  decidable_of_iff (a.read? .keep = none ∨ a.read? .keep ≠ b.read? .keep) <| by
    unfold Quoted.Differ
    cases a.read? .keep <;> simp [eq_comm]

namespace Written

/-- **The members of one object in another order**, somewhere in a value. -/
inductive Reorders : Written → Written → Prop
  | here {members others : List (Quoted × Written)} (order : members.Perm others) :
      Reorders (.object members) (.object others)
  | item {before after : List Written} {u v : Written} (inside : Reorders u v) :
      Reorders (.array (before ++ u :: after)) (.array (before ++ v :: after))
  | member {before after : List (Quoted × Written)} {key : Quoted} {u v : Written}
      (inside : Reorders u v) :
      Reorders (.object (before ++ (key, u) :: after)) (.object (before ++ (key, v) :: after))

/-- **A value with the members of any of its objects in another order**, at any depth. -/
def Rearranged : Written → Written → Prop :=
  Relation.ReflTransGen Reorders

/-- **No object has a key twice**, by the texts that the keys stand for. -/
inductive NoKeyTwice : Written → Prop
  | intro {w : Written}
      (here : ∀ members, w = .object members → (members.map (·.1)).Pairwise Quoted.Differ)
      (inside : ∀ u ∈ w.children, NoKeyTwice u) : NoKeyTwice w

variable {s t w : Written} {mode : Mode}

theorem NoKeyTwice.here {members : List (Quoted × Written)} :
    (object members).NoKeyTwice → (members.map (·.1)).Pairwise Quoted.Differ
  | .intro here _ => here members rfl

theorem NoKeyTwice.inside : w.NoKeyTwice → ∀ u ∈ w.children, u.NoKeyTwice
  | .intro _ inside => inside

/-- Members whose keys differ are read as entries whose keys differ. -/
theorem nodup_keys_of_differ {members : List (Quoted × Written)} {meaning : Written → Option Json}
    {entries : List (String × Json)} (hdiffer : (members.map (·.1)).Pairwise Quoted.Differ)
    (h : members.mapM (readMember? .keep meaning) = some entries) :
    (entries.map (·.1)).Nodup := by
  have hkey {member : Quoted × Written} {e : String × Json}
      (he : readMember? .keep meaning member = some e) : member.1.read? .keep = some e.1 := by
    obtain ⟨name, hname, hmap⟩ := Option.bind_eq_some_iff.1 he
    obtain ⟨value, -, rfl⟩ := Option.map_eq_some_iff.1 hmap
    exact hname
  rw [mapM_eq_some_iff] at h
  induction h with
  | nil => exact .nil
  | @cons member e members entries head tail ih =>
    obtain ⟨hfirst, hmore⟩ := List.pairwise_cons.1 hdiffer
    refine List.nodup_cons.2 ⟨fun hmem => ?_, ih hmore⟩
    obtain ⟨e', he', (heq : e'.1 = e.1)⟩ := List.mem_map.1 hmem
    obtain ⟨member', hmember', hread⟩ := exists_of_mem_mapM (mapM_eq_some_iff.2 tail) he'
    exact hfirst member'.1 (List.mem_map_of_mem hmember') e.1 (hkey head) (heq ▸ hkey hread)

theorem isSome_readMember? {meaning : Written → Option Json} {member : Quoted × Written} :
    (readMember? mode meaning member).isSome ↔
      (member.1.read? mode).isSome ∧ (meaning member.2).isSome := by
  unfold readMember?
  cases member.1.read? mode <;> simp

theorem noKeyTwice_string (text : Quoted) : (string text).NoKeyTwice :=
  .intro nofun (List.forall_mem_nil _)

theorem noKeyTwice_object {members : List (Quoted × Written)}
    (here : (members.map (·.1)).Pairwise Quoted.Differ)
    (inside : ∀ member ∈ members, member.2.NoKeyTwice) : (object members).NoKeyTwice := by
  refine .intro (fun others heq => ?_) (List.forall_mem_map.2 inside)
  cases heq
  exact here

namespace Reorders

/-- What is inside afterwards was inside before, or comes from there in one step. -/
theorem inside (h : s.Reorders t) {u : Written} (hu : u ∈ t.children) :
    u ∈ s.children ∨ ∃ v ∈ s.children, v.Reorders u := by
  cases h with
  | here order => exact .inl ((order.map (·.2)).mem_iff.2 hu)
  | @item before after v _ step =>
    simp only [children, List.mem_append, List.mem_cons] at hu ⊢
    rcases hu with hbefore | rfl | hafter
    · exact .inl (.inl hbefore)
    · exact .inr ⟨v, .inr (.inl rfl), step⟩
    · exact .inl (.inr (.inr hafter))
  | @member before after key v _ step =>
    simp only [children, List.map_append, List.map_cons, List.mem_append, List.mem_cons] at hu ⊢
    rcases hu with hbefore | rfl | hafter
    · exact .inl (.inl hbefore)
    · exact .inr ⟨v, .inr (.inl rfl), step⟩
    · exact .inl (.inr (.inr hafter))

/-- Nothing nests deeper after a step. -/
theorem nesting_le (h : s.Reorders t) : t.nesting ≤ s.nesting := by
  induction s using inductionOn generalizing t with
  | h s ih =>
    have hpos : 0 < s.nesting := by cases h <;> exact Nat.succ_pos _
    have hle : t.nesting ≤ s.nesting - 1 + 1 := by
      refine nesting_le_succ_iff.2 fun u hu => ?_
      rcases h.inside hu with hu | ⟨v, hv, step⟩
      · exact Nat.le_sub_one_of_lt (nesting_lt_of_mem_children hu)
      · exact Nat.le_trans (ih v hv step) (Nat.le_sub_one_of_lt (nesting_lt_of_mem_children hv))
    omega

/-- After a step no object has a key twice that had not. -/
theorem noKeyTwice (h : s.Reorders t) (hkeys : s.NoKeyTwice) : t.NoKeyTwice := by
  induction s using inductionOn generalizing t with
  | h s ih =>
    refine .intro (fun others heq => ?_) fun u hu => ?_
    · cases h with
      | here order =>
        cases heq
        exact ((order.map (·.1)).pairwise_iff Quoted.Differ.symm).1 hkeys.here
      | item => cases heq
      | member =>
        cases heq
        have hsame := hkeys.here
        rw [List.map_append, List.map_cons] at hsame ⊢
        exact hsame
    · rcases h.inside hu with hu | ⟨v, hv, step⟩
      · exact hkeys.inside u hu
      · exact ih v hv step (hkeys.inside v hv)

/-- **A step changes nothing of what a value stands for**, if no object has a key twice. -/
theorem read?_eq_some (h : s.Reorders t) (hkeys : s.NoKeyTwice) {v : Json}
    (hv : s.read? .keep = some v) : t.read? .keep = some v := by
  induction h generalizing v with
  | @here members others order =>
    rw [read?_object] at hv ⊢
    obtain ⟨entries, hentries, rfl⟩ := Option.map_eq_some_iff.1 hv
    obtain ⟨entries', hentries', hperm⟩ := mapM_perm order hentries
    have hnodup := nodup_keys_of_differ hkeys.here hentries
    have hsame : KeyMap.ofList entries' = KeyMap.ofList entries :=
      KeyMap.ofList_eq (hperm.symm.trans (KeyMap.entries_ofList_perm hnodup).symm)
    rw [hentries', Option.map_some, hsame]
  | @item before after u u' _ ih =>
    rw [read?_array] at hv ⊢
    obtain ⟨values, hvalues, rfl⟩ := Option.map_eq_some_iff.1 hv
    have hu : u.NoKeyTwice := hkeys.inside u (List.mem_append_right before List.mem_cons_self)
    rw [mapM_replace (fun y hy => ih hu hy) hvalues, Option.map_some]
  | @member before after key u u' _ ih =>
    rw [read?_object] at hv ⊢
    obtain ⟨entries, hentries, rfl⟩ := Option.map_eq_some_iff.1 hv
    have hu : u.NoKeyTwice := hkeys.inside u (by simp [children])
    have hmember (e : String × Json) (he : readMember? .keep (read? .keep) (key, u) = some e) :
        readMember? .keep (read? .keep) (key, u') = some e := by
      obtain ⟨name, hname, hmap⟩ := Option.bind_eq_some_iff.1 he
      obtain ⟨value, hvalue, rfl⟩ := Option.map_eq_some_iff.1 hmap
      rw [readMember?, hname, Option.bind_some, ih hu hvalue, Option.map_some]
    rw [mapM_replace hmember hentries, Option.map_some]

/-- **A step leaves a value that may be skipped one.** -/
theorem isSome_read? (h : s.Reorders t) (hs : (s.read? mode).isSome) : (t.read? mode).isSome := by
  induction h with
  | here order =>
    rw [read?_object, Option.isSome_map, isSome_mapM_iff] at hs ⊢
    exact fun member hmember => hs member (order.mem_iff.2 hmember)
  | item _ ih =>
    rw [read?_array, Option.isSome_map, isSome_mapM_iff] at hs ⊢
    simp only [List.forall_mem_append, List.forall_mem_cons] at hs ⊢
    exact ⟨hs.1, ih hs.2.1, hs.2.2⟩
  | member _ ih =>
    rw [read?_object, Option.isSome_map, isSome_mapM_iff] at hs ⊢
    simp only [List.forall_mem_append, List.forall_mem_cons] at hs ⊢
    rw [isSome_readMember?] at hs
    exact ⟨hs.1, isSome_readMember?.2 ⟨hs.2.1.1, ih hs.2.1.2⟩, hs.2.2⟩

end Reorders

end Written

/-! ## Records -/

namespace Column

variable {σ α : Type} {columns : List (Column σ)} {s t : Written}

/-- A column takes for the same what is the same but for the order of members. -/
def Stable (column : Column σ) : Prop :=
  ∀ u v, u.Reorders v → u.NoKeyTwice → ∀ state final, column.put? state u = some final →
    column.put? state v = some final

/-- Two columns that may be given in either order. -/
def Independent (c d : Column σ) : Prop :=
  ∀ state v w, (c.add? state v).bind (fun state => d.add? state w) =
    (d.add? state w).bind fun state => c.add? state v

theorem Independent.symm {c d : Column σ} (h : c.Independent d) : d.Independent c :=
  fun state v w => (h state w v).symm

theorem stable_optional {name : String} {trailing : Bool} {get : σ → Option α} {set : α → σ → σ}
    {meaning : Written → Option α} (h : ∀ u v, u.Reorders v → u.NoKeyTwice →
      ∀ value, meaning u = some value → meaning v = some value) :
    (optional name trailing get set meaning).Stable := by
  intro u v step hkeys state final hput
  obtain ⟨value, hvalue, rfl⟩ := Option.map_eq_some_iff.1 hput
  exact Option.map_eq_some_iff.2 ⟨value, h u v step hkeys value hvalue, rfl⟩

theorem independent_optional {β : Type} {name name' : String} {trailing trailing' : Bool}
    {get : σ → Option α} {set : α → σ → σ} {meaning : Written → Option α} {get' : σ → Option β}
    {set' : β → σ → σ} {meaning' : Written → Option β}
    (hget : ∀ b state, get (set' b state) = get state)
    (hget' : ∀ a state, get' (set a state) = get' state)
    (hset : ∀ a b state, set a (set' b state) = set' b (set a state)) :
    (optional name trailing get set meaning).Independent
      (optional name' trailing' get' set' meaning') := by
  intro state v w
  simp only [add?, optional]
  rcases Bool.eq_false_or_eq_true (get state).isSome with hgiven | hgiven <;>
    rcases Bool.eq_false_or_eq_true (get' state).isSome with hgiven' | hgiven' <;>
    cases meaning v <;> cases meaning' w <;> simp [hget, hget', hset, hgiven, hgiven']

/-- Values under different names may change places. -/
theorem putNamed?_comm
    (hindependent : ∀ c ∈ columns, ∀ d ∈ columns, c.name ≠ d.name → c.Independent d)
    {key key' : String} (hne : key ≠ key') (v w : Written) (state : σ) :
    ((putNamed? columns state key v).bind fun state => putNamed? columns state key' w) =
      (putNamed? columns state key' w).bind fun state => putNamed? columns state key v := by
  unfold putNamed?
  cases hc : columns.find? (·.name == key) with
  | none =>
    cases hd : columns.find? (·.name == key') with
    | none => cases v.read? .skip <;> cases w.read? .skip <;> rfl
    | some d => cases v.read? .skip <;> simp
  | some c =>
    cases hd : columns.find? (·.name == key') with
    | none => cases w.read? .skip <;> simp
    | some d =>
      have hkey : c.name = key := by simpa using List.find?_some hc
      have hkey' : d.name = key' := by simpa using List.find?_some hd
      exact hindependent c (List.mem_of_find?_eq_some hc) d (List.mem_of_find?_eq_some hd)
        (by rwa [hkey, hkey']) state v w

/-- Members with different keys may change places. -/
theorem putMember?_comm
    (hindependent : ∀ c ∈ columns, ∀ d ∈ columns, c.name ≠ d.name → c.Independent d)
    {a b : Quoted × Written} (hdiffer : a.1.Differ b.1) (state : σ) :
    ((putMember? columns state a).bind fun state => putMember? columns state b) =
      (putMember? columns state b).bind fun state => putMember? columns state a := by
  unfold putMember?
  cases ha : a.1.read? .keep with
  | none => simp
  | some key =>
    cases hb : b.1.read? .keep with
    | none => simp
    | some key' =>
      have hne : key ≠ key' := fun heq => hdiffer key ha (heq ▸ hb)
      exact putNamed?_comm hindependent hne a.2 b.2 state

theorem putNamed?_reorders (hstable : ∀ c ∈ columns, c.Stable) {name : String} {u v : Written}
    (step : u.Reorders v) (hkeys : u.NoKeyTwice) {state final : σ}
    (h : putNamed? columns state name u = some final) :
    putNamed? columns state name v = some final := by
  unfold putNamed? at h ⊢
  split at h
  · next column hfind =>
    unfold add? at h ⊢
    split at h
    · cases h
    · next hgiven =>
      rw [if_neg hgiven]
      exact hstable column (List.mem_of_find?_eq_some hfind) u v step hkeys state final h
  · obtain ⟨value, hvalue, rfl⟩ := Option.map_eq_some_iff.1 h
    obtain ⟨value', hvalue'⟩ :=
      Option.isSome_iff_exists.1 (step.isSome_read? (Option.isSome_of_eq_some hvalue))
    rw [hvalue', Option.map_some]

theorem putMember?_reorders (hstable : ∀ c ∈ columns, c.Stable) {key : Quoted} {u v : Written}
    (step : u.Reorders v) (hkeys : u.NoKeyTwice) {state final : σ}
    (h : putMember? columns state (key, u) = some final) :
    putMember? columns state (key, v) = some final := by
  obtain ⟨name, hname, hput⟩ := Option.bind_eq_some_iff.1 h
  exact Option.bind_eq_some_iff.2 ⟨name, hname, putNamed?_reorders hstable step hkeys hput⟩

theorem putItems?_reorders (hstable : ∀ c ∈ columns, c.Stable) {before after : List Written}
    {u v : Written} (step : u.Reorders v) (hkeys : u.NoKeyTwice) {state final : σ}
    (h : putItems? columns state (before ++ u :: after) = some final) :
    putItems? columns state (before ++ v :: after) = some final := by
  induction columns generalizing before state with
  | nil => cases before <;> cases h
  | cons column columns ih =>
    cases before with
    | nil =>
      obtain ⟨next, hnext, hafter⟩ := Option.bind_eq_some_iff.1 h
      have hput := hstable column List.mem_cons_self u v step hkeys state next hnext
      exact Option.bind_eq_some_iff.2 ⟨next, hput, hafter⟩
    | cons item before =>
      obtain ⟨next, hnext, hmore⟩ := Option.bind_eq_some_iff.1 h
      exact Option.bind_eq_some_iff.2
        ⟨next, hnext, ih (fun c hc => hstable c (List.mem_cons_of_mem _ hc)) hmore⟩

/-- **A record takes for the same what is the same but for the order of members**, its own ones
included. -/
theorem putValue?_reorders (hstable : ∀ c ∈ columns, c.Stable)
    (hindependent : ∀ c ∈ columns, ∀ d ∈ columns, c.name ≠ d.name → c.Independent d)
    (step : s.Reorders t) (hkeys : s.NoKeyTwice) {start final : σ}
    (h : putValue? columns start s = some final) : putValue? columns start t = some final := by
  cases step with
  | @here members others order =>
    have hsymm : Std.Symm fun a b : Quoted × Written => a.1.Differ b.1 :=
      ⟨fun _ _ => Quoted.Differ.symm⟩
    have hdiffer := (List.pairwise_map.1 hkeys.here).forall
    have hcomm (a : Quoted × Written) (ha : a ∈ members) (b : Quoted × Written) (hb : b ∈ members)
        (state : σ) : ((putMember? columns state a).bind fun state => putMember? columns state b) =
          (putMember? columns state b).bind fun state => putMember? columns state a := by
      by_cases heq : a = b
      · rw [heq]
      · exact putMember?_comm hindependent (hdiffer ha hb heq) state
    exact (foldlM_perm order hcomm start).symm.trans h
  | @item before after u v step =>
    exact putItems?_reorders hstable step (hkeys.inside u (by simp [Written.children])) h
  | @member before after key u v step =>
    have hu : u.NoKeyTwice := hkeys.inside u (by simp [Written.children])
    exact foldlM_replace (fun state final h => putMember?_reorders hstable step hu h) h

end Column

end Json

end DebugBridge
