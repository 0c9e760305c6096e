import Mathlib.Tactic.TypeStar

/-! Arrays of a fixed size and the copies made into them. -/

/-- An array of exactly `n` elements. -/
structure Buffer (α : Type*) (n : Nat) where
  toList : List α
  length_eq : toList.length = n
  deriving DecidableEq

namespace Buffer

variable {α : Type*} {n : Nat}

/-- An array holding one value everywhere. -/
def replicate (n : Nat) (value : α) : Buffer α n :=
  ⟨List.replicate n value, List.length_replicate⟩

/-- Copy a source into the array from an offset on; what would fall outside is not written. -/
def blit (buffer : Buffer α n) (offset : Nat) (source : List α) : Buffer α n where
  toList :=
    (buffer.toList.take offset ++ source ++ buffer.toList.drop (offset + source.length)).take n
  length_eq := by
    have size := buffer.length_eq
    simp only [List.length_take, List.length_append, List.length_drop]
    omega

/-- A copy that stays inside the array replaces exactly the elements it covers. -/
theorem blit_toList (buffer : Buffer α n) {offset : Nat} {source : List α}
    (inside : offset + source.length ≤ n) :
    (buffer.blit offset source).toList =
      buffer.toList.take offset ++ source ++ buffer.toList.drop (offset + source.length) := by
  -- The three parts together are as long as the array, so nothing is cut off.
  have size := buffer.length_eq
  apply List.take_of_length_le
  simp only [List.length_append, List.length_take, List.length_drop]
  omega

/-- Copying right behind a prefix extends that prefix by the source. -/
theorem take_blit (buffer : Buffer α n) {offset : Nat} {source : List α}
    (inside : offset + source.length ≤ n) :
    (buffer.blit offset source).toList.take (offset + source.length) =
      buffer.toList.take offset ++ source := by
  -- The prefix and the source behind it end where the copy ends.
  have size := buffer.length_eq
  rw [blit_toList buffer inside, List.take_left']
  simp only [List.length_append, List.length_take]
  omega

/-- What an array holds at one place behind a copy. -/
theorem getElem?_blit (buffer : Buffer α n) (offset : Nat) (source : List α) (place : Nat) :
    (buffer.blit offset source).toList[place]? =
      if place < n then
        if offset ≤ place ∧ place < offset + source.length then source[place - offset]?
        else buffer.toList[place]?
      else none := by
  -- A place is in front of the copy, inside of it, behind it, or outside of the array.
  have size := buffer.length_eq
  unfold blit
  dsimp only
  rw [List.getElem?_take]
  split
  · -- A place inside the array lies before the copy, in it or behind it.
    rename_i inside
    rw [List.getElem?_append, List.getElem?_append, List.length_append, List.length_take, size]
    by_cases before : place < offset
    · rw [if_pos (by omega), if_pos (by omega), List.getElem?_take_of_lt before,
        if_neg (by omega)]
    by_cases covered : place < offset + source.length
    · rw [if_pos (by omega), if_neg (by omega), if_pos ⟨by omega, covered⟩,
        Nat.min_eq_left (by omega)]
    · rw [if_neg (by omega), if_neg (by omega), List.getElem?_drop, Nat.min_eq_left (by omega)]
      congr 1
      omega
  · rfl

/-- Two arrays of one size are equal when they hold the same list. -/
theorem ext {one other : Buffer α n} (same : one.toList = other.toList) : one = other := by
  cases one
  cases other
  simpa using same

/-- Copying nothing changes nothing. -/
@[simp] theorem blit_nil (buffer : Buffer α n) (offset : Nat) : buffer.blit offset [] = buffer := by
  refine ext (List.ext_getElem? fun place => ?_)
  rw [getElem?_blit, List.length_nil, Nat.add_zero]
  split
  · rw [if_neg (by omega)]
  · rename_i outside
    rw [List.getElem?_eq_none (by rw [buffer.length_eq]; omega)]

/-- A copy made in two pieces is the copy made at once. -/
theorem blit_append (buffer : Buffer α n) (offset : Nat) (front back : List α) :
    (buffer.blit offset front).blit (offset + front.length) back =
      buffer.blit offset (front ++ back) := by
  refine ext (List.ext_getElem? fun place => ?_)
  rw [getElem?_blit, getElem?_blit, getElem?_blit, List.length_append, List.getElem?_append]
  split
  · -- The place is in the second piece, in the first one, or in neither.
    by_cases second : offset + front.length ≤ place ∧ place < offset + front.length + back.length
    · rw [if_pos second, if_pos (by omega), if_neg (by omega)]
      congr 1
      omega
    rw [if_neg second]
    by_cases first : offset ≤ place ∧ place < offset + front.length
    · rw [if_pos first, if_pos (by omega), if_pos (by omega)]
    · rw [if_neg first, if_neg (by omega)]
  · rfl

/-- Copying a whole array over another one leaves the copy. -/
theorem blit_all (buffer source : Buffer α n) : buffer.blit 0 source.toList = source := by
  refine ext (List.ext_getElem? fun place => ?_)
  rw [getElem?_blit, source.length_eq]
  split
  · rw [if_pos (by omega), Nat.sub_zero]
  · rename_i outside
    rw [List.getElem?_eq_none (by rw [source.length_eq]; omega)]

end Buffer
