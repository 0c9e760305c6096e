import Mathlib.Logic.Basic

/-!
A place for the last of many items, with a flag that is raised some time after an item is put.

One reader takes what is there at some time after it has seen the flag. Others may lower the flag.
-/

/-- What the reader has taken of the place, and what it may still take. -/
structure Mailbox where
  /-- how many items have been put; each is known by its number, from 1 on -/
  put : Nat
  /-- the flag is still to be raised for the last item -/
  announcing : Bool
  /-- the flag -/
  raised : Bool
  /-- the reader has seen the flag and has not taken since -/
  seen : Bool
  /-- the numbers of the items that the reader has taken -/
  taken : List Nat

namespace Mailbox

variable {m next : Mailbox}

/-- What can happen to the place and its reader. -/
inductive Step (m : Mailbox) : Mailbox → Prop where
  | put (quiet : m.announcing = false) :
      Step m { m with put := m.put + 1, announcing := true }
  | announce (late : m.announcing = true) :
      Step m { m with announcing := false, raised := true }
  | see (up : m.raised = true) : Step m { m with seen := true }
  /-- the reader takes the last item and lowers the flag -/
  | take (seen : m.seen = true) :
      Step m { m with raised := false, seen := false, taken := m.taken ++ [m.put] }
  /-- someone else takes the last item and lowers the flag -/
  | lower : Step m { m with raised := false }
  /-- the reader does not take after all -/
  | giveUp : Step m { m with seen := false }

/-- How often the reader may take the last item before another one is put or announced. -/
def chances (m : Mailbox) : Nat := if m.raised = true ∨ m.seen = true then 1 else 0

/-- A chance is there when the flag is up, or when the reader has seen it. -/
theorem chances_le (m : Mailbox) : m.chances ≤ 1 := by
  unfold chances
  split <;> omega

/-- Lowering the flag gives the reader no chance. -/
theorem chances_lowered (m : Mailbox) :
    ({ m with raised := false } : Mailbox).chances ≤ m.chances := by
  unfold chances
  by_cases seen : m.seen = true <;> simp [seen]

/-- Giving up leaves the reader no more chances than it had. -/
theorem chances_givenUp (m : Mailbox) :
    ({ m with seen := false } : Mailbox).chances ≤ m.chances := by
  unfold chances
  by_cases up : m.raised = true <;> simp [up]

/-- Seeing the flag is the chance that the flag is. -/
theorem chances_seen (up : m.raised = true) :
    ({ m with seen := true } : Mailbox).chances = m.chances := by
  simp [chances, up]

/-- Taking uses up the chance. -/
theorem chances_taken (seen : m.seen = true) (taken : List Nat) :
    ({ m with raised := false, seen := false, taken := taken } : Mailbox).chances + 1 =
      m.chances := by
  simp [chances, seen]

/-- The reader takes the items in the order in which they are put, and none more than twice. -/
structure InOrder (m : Mailbox) : Prop where
  within : ∀ number ∈ m.taken, number ≤ m.put
  ordered : m.taken.Pairwise (· ≤ ·)
  twice : ∀ number, m.taken.count number ≤ 2
  /-- A second time needs the flag to be raised between the two. -/
  last : m.taken.count m.put + m.chances ≤ if m.announcing then 1 else 2

/-- An item that is still to be put has not been taken. -/
theorem InOrder.count_ahead (inOrder : InOrder m) {number : Nat} (ahead : m.put < number) :
    m.taken.count number = 0 := by
  rw [List.count_eq_zero]
  intro member
  have bound := inOrder.within number member
  omega

/-- Taking the last item behind items that are no later keeps the order. -/
theorem pairwise_taken {related : Nat → Nat → Prop} (ordered : m.taken.Pairwise related)
    (before : ∀ number ∈ m.taken, related number m.put) :
    (m.taken ++ [m.put]).Pairwise related := by
  rw [List.pairwise_append]
  refine ⟨ordered, List.pairwise_singleton _ _, fun number member last same => ?_⟩
  rw [List.mem_singleton] at same
  exact same ▸ before number member

/-- The last item has been put, like those that the reader has taken before. -/
theorem within_taken (within : ∀ number ∈ m.taken, number ≤ m.put) :
    ∀ number ∈ m.taken ++ [m.put], number ≤ m.put := by
  intro number member
  rcases List.mem_append.mp member with earlier | last
  · exact within number earlier
  · exact Nat.le_of_eq (List.mem_singleton.mp last)

/-- Every step keeps the order. -/
theorem inOrder_step (inOrder : InOrder m) (step : Step m next) : InOrder next := by
  -- One case for each step; the chances that are left bound how often the last item is taken.
  obtain ⟨within, ordered, twice, last⟩ := inOrder
  cases step with
  | put quiet =>
    -- The new item has not been taken, and the reader can have seen the flag at most once.
    refine ⟨fun number member => Nat.le_succ_of_le (within number member), ordered, twice, ?_⟩
    have fresh : m.taken.count (m.put + 1) = 0 :=
      InOrder.count_ahead ⟨within, ordered, twice, last⟩ (Nat.lt_succ_self m.put)
    have once := m.chances_le
    show m.taken.count (m.put + 1) + m.chances ≤ 1
    omega
  | announce late =>
    -- While the flag was still to be raised, the item could be taken once at most.
    refine ⟨within, ordered, twice, ?_⟩
    rw [late] at last
    have fewer : m.taken.count m.put ≤ 1 := by
      simp only [if_true] at last
      omega
    have once := chances_le { m with announcing := false, raised := true }
    show m.taken.count m.put + _ ≤ 2
    omega
  | see up =>
    refine ⟨within, ordered, twice, ?_⟩
    rw [chances_seen up]
    exact last
  | take seen =>
    have used := chances_taken seen (m.taken ++ [m.put])
    have room : m.taken.count m.put + m.chances ≤ 2 := by
      refine Nat.le_trans last ?_
      split <;> omega
    refine ⟨within_taken within, pairwise_taken ordered within, fun number => ?_, ?_⟩
    · -- Only the last item is taken once more than before.
      show (m.taken ++ [m.put]).count number ≤ 2
      rw [List.count_append]
      by_cases same : number = m.put
      · subst same
        rw [List.count_singleton_self]
        omega
      · rw [List.count_singleton, if_neg (by simpa using fun h => same h.symm)]
        exact twice number
    · -- The one more time that the item is taken is the chance that is used up.
      show (m.taken ++ [m.put]).count m.put + _ ≤ if m.announcing then 1 else 2
      rw [List.count_append, List.count_singleton_self]
      omega
  | lower =>
    refine ⟨within, ordered, twice, Nat.le_trans ?_ last⟩
    exact Nat.add_le_add_left (chances_lowered m) _
  | giveUp =>
    refine ⟨within, ordered, twice, Nat.le_trans ?_ last⟩
    exact Nat.add_le_add_left (chances_givenUp m) _

/-- The reader takes each item once at most, and the last one not while it has a chance to. -/
structure Once (m : Mailbox) : Prop where
  within : ∀ number ∈ m.taken, number ≤ m.put
  ascending : m.taken.Pairwise (· < ·)
  /-- The last item is not taken before the flag is raised for it. -/
  prompt : m.announcing = true → m.put ∉ m.taken
  last : m.chances = 1 → m.put ∉ m.taken

/-- A step keeps this if the reader does not take an item before the flag is raised for it. -/
theorem once_step (once : Once m) (step : Step m next)
    (late : m.announcing = true → next.taken = m.taken) : Once next := by
  -- One case for each step; a chance that is left means that the last item is not taken yet.
  obtain ⟨within, ascending, prompt, last⟩ := once
  cases step with
  | put quiet =>
    have fresh : m.put + 1 ∉ m.taken := fun member => by
      have bound := within _ member
      omega
    exact ⟨fun number member => Nat.le_succ_of_le (within number member), ascending,
      fun _ => fresh, fun _ => fresh⟩
  | announce unannounced =>
    exact ⟨within, ascending, by simp, fun _ => prompt unannounced⟩
  | see up =>
    refine ⟨within, ascending, prompt, ?_⟩
    rw [chances_seen up]
    exact last
  | take seen =>
    -- The flag is raised already, and the chance has not been used.
    have used := chances_taken seen (m.taken ++ [m.put])
    have once := m.chances_le
    have fresh : m.put ∉ m.taken := last (by omega)
    refine ⟨within_taken within, pairwise_taken ascending fun number member => ?_,
      fun announcing => ?_, ?_⟩
    · have bound := within number member
      have other : number ≠ m.put := fun same => fresh (same ▸ member)
      omega
    · -- Before the flag is raised for it the reader takes nothing.
      have unchanged := congrArg List.length (late announcing)
      simp at unchanged
    · omega
  | lower =>
    refine ⟨within, ascending, prompt, fun chance => last ?_⟩
    have fewer := chances_lowered m
    have one := m.chances_le
    omega
  | giveUp =>
    refine ⟨within, ascending, prompt, fun chance => last ?_⟩
    have fewer := chances_givenUp m
    have one := m.chances_le
    omega

end Mailbox
