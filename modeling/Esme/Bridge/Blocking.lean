import Mathlib.Algebra.Order.BigOperators.Group.Finset
import Esme.Bridge.Write

/-! What `write_all_nonblocking` says about what it has written. -/

namespace Esme

/-- Some calls in a row take less than a whole length, and the next one would block. -/
def Blocks (results : Nat → WriteResult) (length : Nat) : Prop :=
  ∃ calls, (∀ call < calls, 0 < (results call).count) ∧ progress results calls < length ∧
    results calls = .failed eagain

/-- A row of calls takes at least what a shorter one does. -/
theorem progress_mono (results : Nat → WriteResult) {calls more : Nat} (longer : calls ≤ more) :
    progress results calls ≤ progress results more :=
  Finset.sum_le_sum_of_subset (Finset.range_mono longer)

/-- Calls that come to a stop in the middle do not take everything. -/
theorem Blocks.not_takesAll {results : Nat → WriteResult} {length : Nat}
    (blocks : Blocks results length) : ¬TakesAll results length := by
  intro all
  obtain ⟨calls, -, short, full⟩ := blocks
  obtain ⟨enough, taking, whole⟩ := all
  rcases Nat.lt_or_ge calls enough with behind | before
  · -- The call that would block takes nothing.
    have some := taking calls behind
    rw [full] at some
    exact absurd some (Nat.lt_irrefl 0)
  · have fewer := progress_mono results before
    omega

/-- Calls come to a stop exactly when the first one would block, or takes some of what is wanted
and the others come to a stop. -/
theorem blocks_iff {results : Nat → WriteResult} {length : Nat} (more : 0 < length) :
    Blocks results length ↔ results 0 = .failed eagain ∨
      (0 < (results 0).count ∧
        Blocks (fun call => results (call + 1)) (length - (results 0).count)) := by
  -- The row of calls that take something is empty, or it begins with the first call.
  constructor
  · rintro ⟨calls, taking, short, full⟩
    cases calls with
    | zero => exact .inl full
    | succ calls =>
      rw [progress_succ] at short
      exact .inr ⟨taking 0 (by omega), calls, fun call before => taking (call + 1) (by omega),
        by omega, full⟩
  · rintro (full | ⟨first, calls, taking, short, full⟩)
    · exact ⟨0, by simp, by simpa [progress] using more, full⟩
    · refine ⟨calls + 1, fun call before => ?_, ?_, full⟩
      · cases call with
        | zero => exact first
        | succ call => exact taking call (by omega)
      · rw [progress_succ]
        omega

/-- The loop returns true exactly when it takes everything or would block before that. -/
theorem writeLoop_returns_iff (results : Nat → WriteResult) (data : List UInt8)
    (call written : Nat) :
    (writeLoop results data call written).2 = true ↔
      TakesAll (fun later => results (later + call)) (data.length - written) ∨
        Blocks (fun later => results (later + call)) (data.length - written) := by
  -- Every call that takes something leaves less, which the induction is on.
  generalize remaining : data.length - written = left
  induction left using Nat.strong_induction_on generalizing call written with
  | _ left ih =>
    by_cases more : written < data.length
    · rw [takesAll_iff (by omega), blocks_iff (by omega), Nat.zero_add, writeLoop, if_pos more]
      cases result : results call with
      | accepted count =>
        rcases Nat.eq_zero_or_pos count with none | some
        · -- A call that takes nothing without an error ends the loop with false.
          simp [none, WriteResult.count]
        · dsimp only [WriteResult.count]
          generalize size : min count (data.length - written) = n
          have rest := ih (data.length - (written + n)) (by omega) (call + 1) (written + n) rfl
          have fewer : left - count = data.length - (written + n) := by omega
          rw [if_pos (by omega)]
          simp only [Nat.add_right_comm _ 1 call, Nat.add_assoc _ call 1, some, true_and, fewer,
            reduceCtorEq, false_or, rest]
      | failed errno =>
        simp [WriteResult.count]
    · rw [writeLoop, if_neg more]
      exact iff_of_true rfl (.inl ⟨0, by simp, by omega⟩)

/-- What is said about a message: what was taken is a front of it, and true means all of it. -/
def Truthful (results : Nat → WriteResult) (data : List UInt8) : Prop :=
  (writeAllNonblocking results data).1 <+: data ∧
    ((writeAllNonblocking results data).2 = true ↔ (writeAllNonblocking results data).1 = data)

/--
The function tells the truth if and only if it never has to stop in the middle of the message.

It takes a front of the message in any case, and it always returns.
-/
theorem truthful_iff (results : Nat → WriteResult) (data : List UInt8) :
    Truthful results data ↔ ¬Blocks results data.length := by
  -- The two exits with true are a whole message and a call that would block.
  have returns := writeLoop_returns_iff results data 0 0
  have whole := writeLoop_whole_iff results data 0 0
  simp only [List.drop_zero, Nat.add_zero, Nat.sub_zero] at returns whole
  rw [Truthful, writeAllNonblocking, returns, whole]
  constructor
  · rintro ⟨-, truth⟩ blocks
    exact blocks.not_takesAll (truth.mp (.inr blocks))
  · intro free
    have front := writeAllNonblocking_prefix results data
    exact ⟨front, by simp [free]⟩

/-- Half of the message is taken, the next call would block, and true is returned. -/
theorem true_behind_half :
    let results : Nat → WriteResult := fun call =>
      if call = 0 then .accepted 1 else .failed eagain
    writeAllNonblocking results [0x61, 0x62] = ([0x61], true) ∧
      ¬Truthful results [0x61, 0x62] := by
  intro results
  have half : writeAllNonblocking results [0x61, 0x62] = ([0x61], true) := by
    simp [writeAllNonblocking, writeLoop, results]
  refine ⟨half, fun truthful => ?_⟩
  have whole := truthful.2.mp (by rw [half])
  rw [half] at whole
  cases whole

end Esme
