import Mathlib.Algebra.BigOperators.Group.Finset.Basic

/-! `write_all_nonblocking` and what a descriptor that takes some of the bytes leaves behind. -/

namespace Esme

/-- `EAGAIN`, which is `EWOULDBLOCK` too -/
def eagain : Int := 11

/--
The outcome of one `write` that returns: how much it takes of what it is offered, or -1 and `errno`.
-/
inductive WriteResult where
  | accepted (count : Nat)
  | failed (errno : Int)
  deriving DecidableEq

/-- How many bytes one call takes at most. -/
def WriteResult.count : WriteResult → Nat
  | .accepted count => count
  | .failed _ => 0

/--
The loop of `write_all_nonblocking` from its variable `written` on.

The calls are numbered, and the result is what the descriptor takes together with the value
returned.
-/
def writeLoop (results : Nat → WriteResult) (data : List UInt8) (call written : Nat) :
    List UInt8 × Bool :=
  if written < data.length then
    match results call with
    | .accepted count =>
      -- No call takes more than it is offered.
      let n := min count (data.length - written)
      if 0 < n then
        let rest := writeLoop results data (call + 1) (written + n)
        ((data.drop written).take n ++ rest.1, rest.2)
      else ([], false)
    | .failed errno => ([], errno = eagain)
  else ([], true)
termination_by data.length - written

/-- `write_all_nonblocking` -/
def writeAllNonblocking (results : Nat → WriteResult) (data : List UInt8) : List UInt8 × Bool :=
  writeLoop results data 0 0

/-- How many bytes a row of calls takes at most. -/
def progress (results : Nat → WriteResult) (calls : Nat) : Nat :=
  ∑ call ∈ Finset.range calls, (results call).count

/-- Calls that each take something follow one another until a whole length is taken. -/
def TakesAll (results : Nat → WriteResult) (length : Nat) : Prop :=
  ∃ calls, (∀ call < calls, 0 < (results call).count) ∧ length ≤ progress results calls

/-- A message of this length is taken whole, or the very first call takes nothing of it. -/
def WholeOrNothing (results : Nat → WriteResult) (length : Nat) : Prop :=
  (results 0).count = 0 ∨ TakesAll results length

/-- A row of calls takes what its first call takes and what the others do. -/
theorem progress_succ (results : Nat → WriteResult) (calls : Nat) :
    progress results (calls + 1) =
      progress (fun call => results (call + 1)) calls + (results 0).count :=
  -- The sum over the calls is split at the first of them.
  Finset.sum_range_succ' _ _

/-- Something is taken whole exactly when the first call takes some and the others the rest. -/
theorem takesAll_iff {results : Nat → WriteResult} {length : Nat} (more : 0 < length) :
    TakesAll results length ↔ 0 < (results 0).count ∧
      TakesAll (fun call => results (call + 1)) (length - (results 0).count) := by
  -- A row that takes something has a first call, and the others are a row of their own.
  constructor
  · intro row
    obtain ⟨calls, taking, enough⟩ := row
    cases calls with
    | zero => simp [progress] at enough; omega
    | succ calls =>
      rw [progress_succ] at enough
      exact ⟨taking 0 (by omega), calls, fun call before => taking (call + 1) (by omega),
        by omega⟩
  · intro row
    obtain ⟨first, calls, taking, enough⟩ := row
    refine ⟨calls + 1, fun call before => ?_, ?_⟩
    · cases call with
      | zero => exact first
      | succ call => exact taking call (by omega)
    · rw [progress_succ]
      omega

/-- With nothing left to write, nothing more is taken. -/
theorem writeLoop_finished {results : Nat → WriteResult} {data : List UInt8} {call written : Nat}
    (finished : data.length ≤ written) : (writeLoop results data call written).1 = [] := by
  -- The loop is left by its condition.
  rw [writeLoop, if_neg (by omega)]

/-- A call that takes nothing ends the loop with nothing more taken. -/
theorem writeLoop_refused {results : Nat → WriteResult} {data : List UInt8} {call written : Nat}
    (refused : (results call).count = 0) : (writeLoop results data call written).1 = [] := by
  -- A count of zero and a failure both leave the loop at once.
  unfold writeLoop
  split
  · cases result : results call with
    | accepted count =>
      rw [result, WriteResult.count] at refused
      simp [refused]
    | failed errno => rfl
  · rfl

/-- A call that takes something is followed by the loop on what is left. -/
theorem writeLoop_taken {results : Nat → WriteResult} {data : List UInt8} {call written : Nat}
    (left : written < data.length) (taken : 0 < (results call).count) :
    (writeLoop results data call written).1 =
      (data.drop written).take (min (results call).count (data.length - written)) ++
        (writeLoop results data (call + 1)
          (written + min (results call).count (data.length - written))).1 := by
  -- A call that takes something has not failed, so the loop goes on behind what it took.
  rw [writeLoop, if_pos left]
  cases result : results call with
  | accepted count =>
    rw [result, WriteResult.count] at taken
    have some : 0 < min count (data.length - written) := by omega
    dsimp only [WriteResult.count]
    rw [if_pos some]
  | failed errno =>
    rw [result] at taken
    exact absurd taken (Nat.lt_irrefl 0)

/-- What is taken is the front of what was left, in order. -/
theorem writeLoop_prefix (results : Nat → WriteResult) (data : List UInt8) (call written : Nat) :
    (writeLoop results data call written).1 <+: data.drop written := by
  -- Every call that takes something leaves less, which the induction is on.
  generalize remaining : data.length - written = left
  induction left using Nat.strong_induction_on generalizing call written with
  | _ left ih =>
    by_cases more : written < data.length
    · by_cases taken : 0 < (results call).count
      · rw [writeLoop_taken more taken]
        generalize size : min (results call).count (data.length - written) = n
        have rest := ih (data.length - (written + n)) (by omega) (call + 1) (written + n) rfl
        rw [← List.drop_drop] at rest
        conv_rhs => rw [← List.take_append_drop n (data.drop written)]
        exact (List.prefix_append_right_inj _).mpr rest
      · rw [writeLoop_refused (by omega)]
        exact List.nil_prefix
    · rw [writeLoop_finished (by omega)]
      exact List.nil_prefix

/-- Everything left is taken exactly when calls in a row take something until it all is. -/
theorem writeLoop_whole_iff (results : Nat → WriteResult) (data : List UInt8)
    (call written : Nat) :
    (writeLoop results data call written).1 = data.drop written ↔
      TakesAll (fun later => results (later + call)) (data.length - written) := by
  -- The calls that are left are numbered from zero again.
  generalize remaining : data.length - written = left
  induction left using Nat.strong_induction_on generalizing call written with
  | _ left ih =>
    by_cases more : written < data.length
    · rw [takesAll_iff (by omega), Nat.zero_add]
      by_cases taken : 0 < (results call).count
      · -- What the first call takes is a front of both sides.
        rw [writeLoop_taken more taken]
        generalize size : min (results call).count (data.length - written) = n
        have rest := ih (data.length - (written + n)) (by omega) (call + 1) (written + n) rfl
        have split : data.drop written =
            (data.drop written).take n ++ data.drop (written + n) := by
          rw [← List.drop_drop, List.take_append_drop]
        have fewer : left - (results call).count = data.length - (written + n) := by omega
        simp only [Nat.add_right_comm _ 1 call, Nat.add_assoc _ call 1, taken, true_and, fewer,
          ← rest]
        exact ⟨fun whole => List.append_cancel_left (whole.trans split),
          fun whole => by rw [whole, ← split]⟩
      · rw [writeLoop_refused (by omega)]
        have unfinished : data.drop written ≠ [] := by
          rw [Ne, List.drop_eq_nil_iff]
          omega
        simp [taken, unfinished.symm]
    · rw [writeLoop_finished (by omega), List.drop_eq_nil_of_le (by omega)]
      exact iff_of_true rfl ⟨0, by simp, by omega⟩

/-- A descriptor takes a front of what it is given. -/
theorem writeAllNonblocking_prefix (results : Nat → WriteResult) (data : List UInt8) :
    (writeAllNonblocking results data).1 <+: data :=
  writeLoop_prefix results data 0 0

/-- A nonempty message is taken whole or not at all exactly when the calls do so. -/
theorem writeAllNonblocking_whole_iff {results : Nat → WriteResult} {data : List UInt8}
    (message : data ≠ []) :
    (writeAllNonblocking results data).1 = [] ∨ (writeAllNonblocking results data).1 = data ↔
      WholeOrNothing results data.length := by
  -- The first call decides the one side, and the row of calls the other.
  have size := List.length_pos_iff.mpr message
  have whole := writeLoop_whole_iff results data 0 0
  simp only [List.drop_zero, Nat.add_zero, Nat.sub_zero] at whole
  refine or_congr ⟨fun nothing => ?_, writeLoop_refused⟩ whole
  -- A first call that takes something leaves a nonempty front behind.
  by_contra some
  rw [writeAllNonblocking, writeLoop_taken size (by omega)] at nothing
  have front := (List.append_eq_nil_iff.mp nothing).1
  simp only [List.drop_zero, List.take_eq_nil_iff] at front
  rcases front with none | empty
  · omega
  · exact message empty

end Esme
