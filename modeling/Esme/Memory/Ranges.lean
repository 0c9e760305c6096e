import Mathlib.Algebra.BigOperators.Group.List.Basic
import Mathlib.Algebra.Ring.Nat

/-! Ranges of places that follow one another without a gap. -/

namespace Ranges

/-- Ranges of some sizes, each with its first place, from one place on. -/
def consecutive (start : Nat) : List Nat → List (Nat × Nat)
  | [] => []
  | size :: rest => (start, size) :: consecutive (start + size) rest

/-- A place lies in a range. -/
def Inside (place : Nat) (range : Nat × Nat) : Prop :=
  range.1 ≤ place ∧ place < range.1 + range.2

/-- Ranges that cover exactly the places below a bound, each of them once. -/
structure Tiles (ranges : List (Nat × Nat)) (bound : Nat) : Prop where
  /-- No range begins before an earlier one ends. -/
  disjoint : ranges.Pairwise fun range later => range.1 + range.2 ≤ later.1
  covers : ∀ place, (∃ range ∈ ranges, Inside place range) ↔ place < bound

@[simp] theorem length_consecutive (start : Nat) (sizes : List Nat) :
    (consecutive start sizes).length = sizes.length := by
  induction sizes generalizing start with
  | nil => rfl
  | cons size rest ih => simp [consecutive, ih]

/-- More ranges go on where the others end. -/
theorem consecutive_append (start : Nat) (sizes more : List Nat) :
    consecutive start (sizes ++ more) =
      consecutive start sizes ++ consecutive (start + sizes.sum) more := by
  induction sizes generalizing start with
  | nil => rfl
  | cons size rest ih =>
    rw [List.cons_append, consecutive, consecutive, ih, List.sum_cons, Nat.add_assoc,
      List.cons_append]

/-- The places in consecutive ranges are those between the first and the last. -/
theorem consecutive_covers (start : Nat) (sizes : List Nat) (place : Nat) :
    (∃ range ∈ consecutive start sizes, Inside place range) ↔
      start ≤ place ∧ place < start + sizes.sum := by
  induction sizes generalizing start with
  | nil => simp [consecutive]
  | cons size rest ih =>
    -- A place is in the first range or behind it.
    simp only [consecutive, List.mem_cons, exists_eq_or_imp]
    rw [ih, List.sum_cons]
    unfold Inside
    omega

/-- No range begins before the first place. -/
theorem consecutive_behind (start : Nat) (sizes : List Nat) :
    ∀ range ∈ consecutive start sizes, start ≤ range.1 := by
  induction sizes generalizing start with
  | nil => simp [consecutive]
  | cons size rest ih =>
    rw [consecutive, List.forall_mem_cons]
    refine ⟨Nat.le_refl _, fun range member => ?_⟩
    -- The other ranges begin behind the first one.
    have later := ih (start + size) range member
    omega

/-- Consecutive ranges do not overlap. -/
theorem consecutive_disjoint (start : Nat) (sizes : List Nat) :
    (consecutive start sizes).Pairwise fun range later => range.1 + range.2 ≤ later.1 := by
  induction sizes generalizing start with
  | nil => exact .nil
  | cons size rest ih => exact .cons (consecutive_behind _ rest) (ih _)

/-- Consecutive ranges from the start on tile what they add up to. -/
theorem consecutive_tiles (sizes : List Nat) : Tiles (consecutive 0 sizes) sizes.sum where
  disjoint := consecutive_disjoint 0 sizes
  covers place := by simpa using consecutive_covers 0 sizes place

end Ranges
