import Mathlib.Algebra.Ring.Nat
import Esme.Json.Dump
import Esme.Memory.Sorted
import Esme.Stream.Cursor

/-! What readers of `json.hpp` share: their exceptions, and facts about every part of a value. -/

namespace Esme

/-- What is thrown while a value is read. -/
inductive ReadError where
  /-- `parse_error` with its id and `chars_read` -/
  | parseError (id position : Nat)
  /-- `out_of_range` with its id -/
  | outOfRange (id : Nat)
  /-- the bound on the depth of the recursion was met -/
  | unfinished
  deriving DecidableEq

/-- Readers of bytes. -/
abbrev ByteReading := Reading UInt8 ReadError

/-- The exception as far as the bridge tells exceptions apart. -/
def ReadError.toException : ReadError → JsonException
  | .parseError id _ => .parseError id
  | .outOfRange id => .parseError id
  | .unfinished => .parseError 0

/-- How much the containers of `json` hold at most, both less than `static_cast<size_t>(-1)`. -/
structure Containers where
  /-- `max_size` of an array -/
  arrayMax : Nat
  /-- `max_size` of an object -/
  objectMax : Nat
  arrayMax_lt : arrayMax < 2 ^ 64 - 1
  objectMax_lt : objectMax < 2 ^ 64 - 1

/-- The containers of a 64-bit platform, with 16 bytes an element and 80 bytes a member. -/
def Containers.lp64 : Containers where
  arrayMax := (2 ^ 63 - 1) / 16
  objectMax := (2 ^ 63 - 1) / 80
  arrayMax_lt := by decide
  objectMax_lt := by decide

namespace Json

mutual

/-- A test holds of a value and of every value in it. -/
def all (test : Json → Bool) : Json → Bool
  | .object members => test (.object members) && allMembers test members
  | .array elements => test (.array elements) && allElements test elements
  | value => test value

/-- A test holds of the elements and of every value in them. -/
def allElements (test : Json → Bool) : List Json → Bool
  | [] => true
  | element :: rest => element.all test && allElements test rest

/-- A test holds of the values of the members and of every value in them. -/
def allMembers (test : Json → Bool) : List (List UInt8 × Json) → Bool
  | [] => true
  | (_, value) :: rest => value.all test && allMembers test rest

end

/-- The elements are tested one by one. -/
theorem allElements_iff {test : Json → Bool} {elements : List Json} :
    allElements test elements = true ↔ ∀ element ∈ elements, element.all test = true := by
  induction elements with
  | nil => simp [allElements]
  | cons element rest ih => rw [allElements, Bool.and_eq_true, ih, List.forall_mem_cons]

/-- The members are tested one by one. -/
theorem allMembers_iff {test : Json → Bool} {members : List (List UInt8 × Json)} :
    allMembers test members = true ↔ ∀ member ∈ members, member.2.all test = true := by
  induction members with
  | nil => simp [allMembers]
  | cons member rest ih => rw [allMembers, Bool.and_eq_true, ih, List.forall_mem_cons]

/-- A test of an array is a test of its elements. -/
theorem all_array {test : Json → Bool} {elements : List Json} :
    (Json.array elements).all test = true ↔
      test (.array elements) = true ∧ ∀ element ∈ elements, element.all test = true := by
  rw [all, Bool.and_eq_true, allElements_iff]

/-- A test of an object is a test of the values of its members. -/
theorem all_object {test : Json → Bool} {members : List (List UInt8 × Json)} :
    (Json.object members).all test = true ↔
      test (.object members) = true ∧ ∀ member ∈ members, member.2.all test = true := by
  rw [all, Bool.and_eq_true, allMembers_iff]

/-- What holds of every part holds of the value. -/
theorem all_self {test : Json → Bool} {value : Json} (holds : value.all test = true) :
    test value = true := by
  cases value with
  | object members => exact (all_object.mp holds).1
  | array elements => exact (all_array.mp holds).1
  | _ => exact holds

/--
Induction on a value.

What is to be shown of an array or an object may use that it holds of everything in it.
-/
theorem nested {motive : Json → Prop} (object : ∀ members : List (List UInt8 × Json),
      (∀ member ∈ members, motive member.2) → motive (.object members))
    (array : ∀ elements, (∀ element ∈ elements, motive element) → motive (.array elements))
    (leaf : ∀ value, (∀ members, value ≠ .object members) → (∀ elements, value ≠ .array elements) →
      motive value) (value : Json) : motive value :=
  -- The recursor for the lists inside of a value says what holds of all their entries.
  @Json.rec motive (fun elements => ∀ element ∈ elements, motive element)
    (fun members => ∀ member ∈ members, motive member.2) (fun member => motive member.2)
    (leaf _ nofun nofun) (fun _ => leaf _ nofun nofun) (fun _ => leaf _ nofun nofun)
    (fun _ => leaf _ nofun nofun) (fun _ => leaf _ nofun nofun) (fun _ => leaf _ nofun nofun)
    array object (fun _ _ => leaf _ nofun nofun) (leaf _ nofun nofun)
    nofun (fun _ _ first others => List.forall_mem_cons.mpr ⟨first, others⟩)
    nofun (fun _ _ first others => List.forall_mem_cons.mpr ⟨first, others⟩)
    (fun _ _ value => value) value

/-- A test that is weaker on every value is weaker on all parts. -/
theorem all_imp {test weaker : Json → Bool} (implies : ∀ value, test value = true →
      weaker value = true) {value : Json} (holds : value.all test = true) :
    value.all weaker = true := by
  induction value using nested with
  | object members ih =>
    rw [all_object] at holds ⊢
    exact ⟨implies _ holds.1, fun member inside => ih member inside (holds.2 member inside)⟩
  | array elements ih =>
    rw [all_array] at holds ⊢
    exact ⟨implies _ holds.1, fun element inside => ih element inside (holds.2 element inside)⟩
  | leaf value notObject notArray =>
    cases value with
    | object members => exact absurd rfl (notObject members)
    | array elements => exact absurd rfl (notArray elements)
    | _ => exact implies _ holds

mutual

/-- A value with everything replaced in it that is neither an array nor an object. -/
def rebuild (leaf : Json → Json) : Json → Json
  | .object members => .object (rebuildMembers leaf members)
  | .array elements => .array (rebuildElements leaf elements)
  | value => leaf value

/-- The elements of an array with everything replaced in them. -/
def rebuildElements (leaf : Json → Json) : List Json → List Json
  | [] => []
  | element :: rest => element.rebuild leaf :: rebuildElements leaf rest

/-- The members of an object with everything replaced in their values. -/
def rebuildMembers (leaf : Json → Json) : List (List UInt8 × Json) → List (List UInt8 × Json)
  | [] => []
  | (key, value) :: rest => (key, value.rebuild leaf) :: rebuildMembers leaf rest

end

/-- Elements are replaced one by one. -/
theorem rebuild_array (leaf : Json → Json) (elements : List Json) :
    (Json.array elements).rebuild leaf = .array (elements.map (rebuild leaf)) := by
  have each : rebuildElements leaf elements = elements.map (rebuild leaf) := by
    induction elements with
    | nil => rfl
    | cons element rest ih => rw [rebuildElements, ih, List.map_cons]
  rw [rebuild, each]

/-- Members are replaced one by one, under their keys. -/
theorem rebuild_object (leaf : Json → Json) (members : List (List UInt8 × Json)) :
    (Json.object members).rebuild leaf =
      .object (members.map fun member => (member.1, member.2.rebuild leaf)) := by
  have each : rebuildMembers leaf members =
      members.map fun member => (member.1, member.2.rebuild leaf) := by
    induction members with
    | nil => rfl
    | cons member rest ih => rw [rebuildMembers, ih, List.map_cons]
  rw [rebuild, each]

/-- A value that is neither an array nor an object is replaced itself. -/
theorem rebuild_leaf (leaf : Json → Json) {value : Json}
    (notObject : ∀ members, value ≠ .object members)
    (notArray : ∀ elements, value ≠ .array elements) : value.rebuild leaf = leaf value := by
  cases value with
  | object members => exact absurd rfl (notObject members)
  | array elements => exact absurd rfl (notArray elements)
  | _ => rfl

/-- Replacing twice is replacing once by what both replacements make of each part. -/
theorem rebuild_rebuild {first second both : Json → Json}
    (leaf : ∀ value, (∀ members, value ≠ .object members) → (∀ elements, value ≠ .array elements) →
      (first value).rebuild second = both value) (value : Json) :
    (value.rebuild first).rebuild second = value.rebuild both := by
  induction value using nested with
  | object members ih =>
    simp only [rebuild_object, List.map_map, Function.comp_def]
    exact congrArg _ (List.map_congr_left fun member inside => by rw [ih member inside])
  | array elements ih =>
    simp only [rebuild_array, List.map_map, Function.comp_def]
    exact congrArg _ (List.map_congr_left ih)
  | leaf value notObject notArray =>
    rw [rebuild_leaf first notObject notArray, rebuild_leaf both notObject notArray,
      leaf value notObject notArray]

/-- Two replacements that agree on parts that pass a test agree on a value of such parts. -/
theorem rebuild_congr {test : Json → Bool} {leaf other : Json → Json}
    (agree : ∀ value, (∀ members, value ≠ .object members) →
      (∀ elements, value ≠ .array elements) → test value = true → leaf value = other value)
    {value : Json} (holds : value.all test = true) : value.rebuild leaf = value.rebuild other := by
  induction value using nested with
  | object members ih =>
    rw [rebuild_object, rebuild_object]
    exact congrArg _ (List.map_congr_left fun member inside => by
      rw [ih member inside ((all_object.mp holds).2 member inside)])
  | array elements ih =>
    rw [rebuild_array, rebuild_array]
    exact congrArg _ (List.map_congr_left fun element inside =>
      ih element inside ((all_array.mp holds).2 element inside))
  | leaf value notObject notArray =>
    rw [rebuild_leaf leaf notObject notArray, rebuild_leaf other notObject notArray]
    exact agree value notObject notArray (all_self holds)

/-- Nothing is replaced where every part is replaced by itself. -/
theorem rebuild_id (value : Json) : value.rebuild id = value := by
  induction value using nested with
  | object members ih =>
    have each : ∀ member ∈ members, (member.1, member.2.rebuild id) = id member :=
      fun member inside => Prod.ext rfl (ih member inside)
    rw [rebuild_object, List.map_congr_left each, List.map_id]
  | array elements ih =>
    rw [rebuild_array, List.map_congr_left (g := id) ih, List.map_id]
  | leaf value notObject notArray => exact rebuild_leaf id notObject notArray

/-- The keys of an object ascend, and nothing in a value is longer than the given bounds. -/
def sized (arrays objects texts : Nat) : Json → Bool
  | .object members =>
    decide (Sorted.Ascending members) && decide (members.length ≤ objects) &&
      members.all fun member => decide (member.1.length ≤ texts)
  | .array elements => decide (elements.length ≤ arrays)
  | .string text => decide (text.length ≤ texts)
  | .binary bytes _ => decide (bytes.length ≤ texts)
  | _ => true

/-- What a value in memory satisfies by itself. -/
def stored (containers : Containers) : Json → Bool :=
  sized containers.arrayMax containers.objectMax (2 ^ 64 - 1)

/-- Larger bounds are kept as well. -/
theorem sized_mono {arrays objects texts moreArrays moreObjects moreTexts : Nat}
    (array_le : arrays ≤ moreArrays) (object_le : objects ≤ moreObjects)
    (text_le : texts ≤ moreTexts) {value : Json} (fits : value.sized arrays objects texts = true) :
    value.sized moreArrays moreObjects moreTexts = true := by
  cases value with
  | object members =>
    simp only [sized, Bool.and_eq_true, decide_eq_true_eq, List.all_eq_true] at fits ⊢
    exact ⟨⟨fits.1.1, Nat.le_trans fits.1.2 object_le⟩,
      fun member inside => Nat.le_trans (fits.2 member inside) text_le⟩
  | array elements => exact decide_eq_true (Nat.le_trans (of_decide_eq_true fits) array_le)
  | string text => exact decide_eq_true (Nat.le_trans (of_decide_eq_true fits) text_le)
  | binary bytes subtype => exact decide_eq_true (Nat.le_trans (of_decide_eq_true fits) text_le)
  | _ => rfl

/-- Neither discarded nor a binary value with a subtype, which would be written as a tag. -/
def untagged : Json → Bool
  | .binary _ subtype => subtype.isNone
  | .discarded => false
  | _ => true

end Json

end Esme
