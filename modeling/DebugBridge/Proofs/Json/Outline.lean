import DebugBridge.Proofs.Json.Place
import DebugBridge.Proofs.KeyMap

/-!
# Proofs/Json/Outline — trees by what is seen along their paths

Following a path through a tree leads to one value or to none. Of that value its `Outline` is what a
reader sees without following the path any further: a scalar, the length of an array, or the keys of
an object. The outlines at all paths determine the tree (`eq_of_outline`).
-/

namespace DebugBridge

/-- What is seen of a value without a look at what is inside. -/
inductive Outline where
  | null
  | bool (value : Bool)
  | number (value : Number)
  | string (text : String)
  | array (length : Nat)
  | object (keys : List String)
  deriving DecidableEq, Repr

namespace Json

variable {v w x : Json} {s : PathStep} {path : Path}

def outline : Json → Outline
  | .null => .null
  | .bool value => .bool value
  | .number value => .number value
  | .string text => .string text
  | .array items => .array items.length
  | .object members => .object (members.map (·.1))

/-- The value one step inside a value. -/
def child? : Json → PathStep → Option Json
  | .array items, .item index => items[index]?
  | .object members, .member key => members.lookup key
  | _, _ => none

/-- **The value that a path leads to.** -/
def follow? (v : Json) (path : Path) : Option Json :=
  path.foldlM child? v

@[simp] theorem follow?_nil (v : Json) : v.follow? [] = some v := rfl

@[simp] theorem follow?_cons (v : Json) (s : PathStep) (path : Path) :
    v.follow? (s :: path) = (v.child? s).bind fun w => w.follow? path := rfl

theorem mem_children_of_child? (h : v.child? s = some w) : w ∈ v.children := by
  cases v with
  | array items =>
    cases s with
    | item index => exact List.mem_of_getElem? h
    | member key => cases h
  | object members =>
    cases s with
    | item index => cases h
    | member key =>
      obtain ⟨before, after, rfl, -⟩ := List.lookup_eq_some_iff.1 h
      exact List.mem_map.2 ⟨(key, w), by simp, rfl⟩
  | null | bool _ | number _ | string _ => cases s <;> cases h

/-- Members with different keys are determined by their keys and what is found under them. -/
theorem members_eq_of_lookup {members others : List (String × Json)}
    (keys : members.map (·.1) = others.map (·.1)) (nodup : (members.map (·.1)).Nodup)
    (h : ∀ key value, members.lookup key = some value → others.lookup key = some value) :
    members = others := by
  have hlength : members.length = others.length := by
    simpa using congrArg List.length keys
  refine List.ext_getElem hlength fun i hi hi' => ?_
  have hkey : members[i].1 = others[i].1 := by
    have hget : (members.map (·.1))[i]? = (others.map (·.1))[i]? := by rw [keys]
    simpa [hi, hi'] using hget
  have hfound : others.lookup members[i].1 = some members[i].2 :=
    h _ _ ((KeyMap.lookup_eq_some_iff nodup).2 (List.getElem_mem hi))
  have hown : others.lookup others[i].1 = some others[i].2 :=
    (KeyMap.lookup_eq_some_iff (keys ▸ nodup)).2 (List.getElem_mem hi')
  rw [hkey, hown] at hfound
  exact Prod.ext hkey (Option.some.inj hfound).symm

/-- Two values with one outline and the same values inside are the same. -/
theorem eq_of_child? (hv : v.DistinctKeys) (hroot : v.outline = w.outline)
    (h : ∀ s x, v.child? s = some x → w.child? s = some x) : v = w := by
  cases v with
  | array items =>
    cases w with
    | array others =>
      have hlength : items.length = others.length := Outline.array.inj hroot
      have hitems : items = others := List.ext_getElem hlength fun i hi hi' => by
        have hfound := h (.item i) _ (List.getElem?_eq_getElem hi)
        exact (List.getElem_eq_iff hi').2 hfound |>.symm
      rw [hitems]
    | null | bool _ | number _ | string _ | object _ => cases hroot
  | object members =>
    cases w with
    | object others =>
      have hkeys : members.map (·.1) = others.map (·.1) := Outline.object.inj hroot
      have hmembers : members = others :=
        members_eq_of_lookup hkeys (hv [] _ (.here _)) fun key => h (.member key)
      rw [hmembers]
    | null | bool _ | number _ | string _ | array _ => cases hroot
  | null | bool _ | number _ | string _ =>
    cases w <;> cases hroot
    rfl

/-- **The outlines at all paths determine a tree** in which no object has a key twice. -/
theorem eq_of_outline (hv : v.DistinctKeys) (hw : w.DistinctKeys)
    (h : ∀ path, (v.follow? path).map outline = (w.follow? path).map outline) : v = w := by
  induction v using Json.inductionOn generalizing w with
  | h v ih =>
    have hroot : v.outline = w.outline := by simpa using h []
    refine eq_of_child? hv hroot fun s x hx => ?_
    have hpaths (path : Path) :
        (x.follow? path).map outline = ((w.child? s).bind (·.follow? path)).map outline := by
      simpa [hx] using h (s :: path)
    obtain ⟨y, hy⟩ : ∃ y, w.child? s = some y := by
      have hsome := hpaths []
      cases hy : w.child? s with
      | none => simp [hy] at hsome
      | some y => exact ⟨y, rfl⟩
    have hchild := mem_children_of_child? hx
    have heq : x = y := ih x hchild (hv.children hchild)
      (hw.children (mem_children_of_child? hy)) fun path => by simpa [hy] using hpaths path
    exact heq ▸ hy

end Json

end DebugBridge
