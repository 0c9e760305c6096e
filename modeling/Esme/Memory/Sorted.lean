import Mathlib.Logic.Basic
import Mathlib.Tactic.ByContra

/-! Maps as lists of entries with ascending keys. -/

namespace Sorted

variable {κ β γ : Type*} [LT κ] [DecidableLT κ] [DecidableEq κ]

/-- Put a value at a key, in place of the one that is there. -/
def insert (key : κ) (value : β) : List (κ × β) → List (κ × β)
  | [] => [(key, value)]
  | (other, old) :: rest =>
    if key < other then (key, value) :: (other, old) :: rest
    else if key = other then (key, value) :: rest
    else (other, old) :: insert key value rest

/-- The keys of the entries ascend, so no key occurs twice. -/
def Ascending (entries : List (κ × β)) : Prop :=
  entries.Pairwise fun entry other => entry.1 < other.1

instance (entries : List (κ × β)) : Decidable (Ascending entries) :=
  inferInstanceAs (Decidable (entries.Pairwise _))

/-- What a map holds after a value was put in: the new entry and others from before. -/
theorem mem_insert {key : κ} {value : β} {entries : List (κ × β)} {entry : κ × β}
    (member : entry ∈ insert key value entries) : entry = (key, value) ∨ entry ∈ entries := by
  induction entries with
  | nil => exact .inl (List.mem_singleton.mp member)
  | cons first rest ih =>
    rw [insert] at member
    split at member
    · exact List.mem_cons.mp member
    split at member
    · exact (List.mem_cons.mp member).imp_right (List.mem_cons_of_mem _)
    · rcases List.mem_cons.mp member with same | later
      · exact .inr (same ▸ List.mem_cons_self)
      · exact (ih later).imp_right (List.mem_cons_of_mem _)

/-- Putting a value in adds one entry at most. -/
theorem length_insert_le (key : κ) (value : β) (entries : List (κ × β)) :
    (insert key value entries).length ≤ entries.length + 1 := by
  induction entries with
  | nil => exact Nat.le_refl _
  | cons entry rest ih =>
    rw [insert]
    split
    · exact Nat.le_refl _
    split
    · exact Nat.le_succ _
    · exact Nat.succ_le_succ ih

/-- A key behind all the others is put at the end. -/
theorem insert_last [Std.Asymm (α := κ) (· < ·)] {key : κ} {value : β} {entries : List (κ × β)}
    (last : ∀ entry ∈ entries, entry.1 < key) :
    insert key value entries = entries ++ [(key, value)] := by
  induction entries with
  | nil => rfl
  | cons first rest ih =>
    obtain ⟨before, others⟩ := List.forall_mem_cons.mp last
    have after : ¬key < first.1 := fun less => Std.Asymm.asymm _ _ before less
    have differs : key ≠ first.1 := fun same => after (by rw [same] at before ⊢; exact before)
    rw [insert, if_neg after, if_neg differs, ih others, List.cons_append]

/-- Entries with ascending keys that are put in one after the other stand in their order. -/
theorem foldl_insert [Std.Asymm (α := κ) (· < ·)] {entries : List (κ × β)}
    (ascending : Ascending entries) (front : List (κ × β))
    (before : ∀ entry ∈ front, ∀ other ∈ entries, entry.1 < other.1) :
    entries.foldl (fun map entry => insert entry.1 entry.2 map) front = front ++ entries := by
  -- What is in the map grows at its end, so it stays quantified over.
  induction entries generalizing front with
  | nil => rw [List.foldl_nil, List.append_nil]
  | cons first rest ih =>
    obtain ⟨least, others⟩ := List.pairwise_cons.mp ascending
    have put : insert first.1 first.2 front = front ++ [first] :=
      insert_last fun entry member => before entry member first List.mem_cons_self
    rw [List.foldl_cons, put, ih others, List.append_assoc, List.singleton_append]
    intro entry member other later
    rcases List.mem_append.mp member with old | new
    · exact before entry old other (List.mem_cons_of_mem _ later)
    · rw [List.mem_singleton.mp new]
      exact least other later

/-- Putting a value in keeps the keys ascending. -/
theorem ascending_insert [Trans (α := κ) (· < ·) (· < ·) (· < ·)]
    [Std.Trichotomous (α := κ) (· < ·)] {key : κ} {value : β} {entries : List (κ × β)}
    (ascending : Ascending entries) : Ascending (insert key value entries) := by
  -- The induction is on the entries, with the three ways in which two keys compare.
  induction entries with
  | nil => exact List.pairwise_singleton _ _
  | cons first rest ih =>
    obtain ⟨least, others⟩ := List.pairwise_cons.mp ascending
    rw [insert]
    split
    · rename_i less
      refine List.pairwise_cons.mpr ⟨fun entry member => ?_, ascending⟩
      rcases List.mem_cons.mp member with rfl | later
      · exact less
      · exact Trans.trans less (least entry later)
    split
    · rename_i same
      exact List.pairwise_cons.mpr ⟨fun entry member => same ▸ least entry member, others⟩
    · rename_i notLess differs
      refine List.pairwise_cons.mpr ⟨fun entry member => ?_, ih others⟩
      rcases mem_insert member with rfl | old
      · by_contra greater
        exact differs (Std.Trichotomous.trichotomous _ _ notLess greater)
      · exact least entry old

end Sorted
