import Esme.Reader.Record
import Mathlib.Logic.Basic

/-! What the recorder's timeout measures. -/

namespace Esme

open Transducer

/-- A turn gets to the test of the timeout: the loop goes on, and the read does not fail. -/
def Tests (durationS : Int) (v : RecordVars) (turn : RecordTurn) : Prop :=
  turn.running = true ∧ turn.top - v.start < durationS * second ∧
    ∀ errno, turn.read ≠ .failed errno

/-- As the timeout is tested: when the turn that last read a whole frame began. -/
def lastBegan (v : RecordVars) (turn : RecordTurn) : Int :=
  match turn.read with
  | .complete _ => turn.top
  | _ => v.lastTop

/-- As the timeout is tested: when `read` last returned a whole frame. -/
def lastRead (v : RecordVars) (turn : RecordTurn) : Int :=
  match turn.read with
  | .complete _ => turn.returned
  | _ => v.lastReturned

/--
A turn that gets to the test aborts exactly when the last whole frame is too long ago.

It is too long ago when more than 2000 whole milliseconds have passed since `read` returned it.
-/
def Punctual (durationS : Int) : Except RecordEnd RecordVars → RecordTurn → Prop
  | .ok v, turn => Tests durationS v turn →
    ((recordTurn durationS v turn).1 = .error .timedOut ↔
      readTimeoutMs < milliseconds (turn.check - lastRead v turn))
  | .error _, _ => True

/-- The first time at which more than 2000 whole milliseconds have passed. -/
def tooLate (since : Int) : Int := since + 2001000000

/--
A test does not fall between two times: it is too late for the turn that last read a whole frame
as seen from its beginning, but not yet as seen from the return of that read.
-/
def OutsideReads (durationS : Int) : Except RecordEnd RecordVars → RecordTurn → Prop
  | .ok v, turn => Tests durationS v turn →
    ¬(tooLate (lastBegan v turn) ≤ turn.check ∧ turn.check < tooLate (lastRead v turn))
  | .error _, _ => True

/-- More than 2000 whole milliseconds are 2001 at least. -/
theorem readTimeout_iff (check since : Int) :
    readTimeoutMs < milliseconds (check - since) ↔ tooLate since ≤ check := by
  unfold readTimeoutMs milliseconds tooLate
  -- A negative duration is cut off towards zero.
  rcases Int.le_total 0 (check - since) with forward | backward
  · rw [Int.tdiv_eq_ediv_of_nonneg forward]
    omega
  · have none : 0 ≤ (-(check - since)).tdiv 1000000 := Int.tdiv_nonneg (by omega) (by decide)
    rw [Int.neg_tdiv] at none
    omega

/-- What is known of the times between two turns. -/
structure Timed (v : RecordVars) : Prop where
  /-- The time that is stored is the one from before the read. -/
  stored : v.nextTimeout = v.lastTop
  behind : v.lastTop ≤ v.lastReturned

/-- The same, until the loop is left. -/
def StaysTimed : Except RecordEnd RecordVars → Prop
  | .ok v => Timed v
  | .error _ => True

/-- A read that does not fail leaves the times of the last whole frame. -/
theorem takeRead_timed {v : RecordVars} (timed : Timed v) {turn : RecordTurn}
    (reads : ∀ errno, turn.read ≠ .failed errno) :
    ∃ taken, (takeRead v turn).1 = .ok taken ∧ Timed taken ∧
      taken.lastTop = lastBegan v turn ∧ taken.lastReturned = lastRead v turn := by
  unfold takeRead lastBegan lastRead
  cases read : turn.read with
  | complete frame => exact ⟨_, rfl, ⟨rfl, turn.readTakesTime⟩, rfl, rfl⟩
  | short count fewer => exact ⟨_, rfl, timed, rfl, rfl⟩
  | failed errno => exact absurd read (reads errno)

/-- A turn that gets to the test aborts exactly when it is too late as seen from the beginning. -/
theorem timedOut_iff {durationS : Int} {v : RecordVars} (timed : Timed v) {turn : RecordTurn}
    (tests : Tests durationS v turn) :
    (recordTurn durationS v turn).1 = .error .timedOut ↔
      tooLate (lastBegan v turn) ≤ turn.check := by
  -- The time that is stored behind the read is the one the turn is judged by.
  obtain ⟨running, going, reads⟩ := tests
  obtain ⟨taken, result, times, began, -⟩ := takeRead_timed timed reads
  rw [recordTurn, if_neg (by simp [running]), if_neg (by omega), ← began, ← times.stored,
    ← readTimeout_iff]
  simp only [result, Except.bind, checkTimeout]
  split
  · rename_i late
    exact iff_of_true rfl late
  · rename_i early
    exact iff_of_false (by simp) early

/-- A turn leaves the times in order. -/
theorem recordTurn_timed {durationS : Int} {v : RecordVars} (timed : Timed v)
    (turn : RecordTurn) : StaysTimed (recordTurn durationS v turn).1 := by
  -- The branches are those of a turn, each of which moves the times forward only.
  unfold recordTurn
  dsimp only
  split
  · trivial
  split
  · trivial
  by_cases reads : ∀ errno, turn.read ≠ .failed errno
  · obtain ⟨taken, result, times, -⟩ := takeRead_timed timed reads
    simp only [result, Except.bind, checkTimeout]
    split
    · trivial
    · exact times
  · -- A read that fails leaves the loop.
    simp only [not_forall, not_not] at reads
    obtain ⟨errno, failed⟩ := reads
    simp only [takeRead, failed]
    trivial

/--
The recorder times its frames if and only if no test falls between those two times.

A read that takes long shifts the time it is measured from, since the clock is read before it.
-/
theorem punctual_iff (durationS start : Int) (turns : List RecordTurn) :
    (recordLoop durationS).Along (Punctual durationS) (.ok (.initial start)) turns ↔
      (recordLoop durationS).Along (OutsideReads durationS) (.ok (.initial start)) turns := by
  have initially : StaysTimed (.ok (RecordVars.initial start)) := ⟨rfl, Int.le_refl _⟩
  refine along_congr (fun state turn timed => ?_) (fun state turn timed => ?_) initially
  · cases state with
    | ok v => exact recordTurn_timed timed turn
    | error error => trivial
  · cases state with
    | error error => rfl
    | ok v =>
      apply forall_congr'
      intro tests
      rw [timedOut_iff timed tests, readTimeout_iff]
      -- What is too late as seen from the return is so as seen from the beginning.
      obtain ⟨taken, -, times, began, returned⟩ := takeRead_timed timed tests.2.2
      have earlier := times.behind
      rw [began, returned] at earlier
      unfold tooLate
      omega

/-- A turn whose read takes two and a half seconds and returns a whole frame. -/
def slowRead : RecordTurn where
  running := true
  top := 0
  read := .complete (Buffer.replicate _ 0)
  returned := 2500000000
  check := 2500000000
  readTakesTime := by decide
  writeTakesTime := by decide

/-- A frame that has just been read does not keep the recorder from aborting. -/
theorem aborted_behind_frame :
    (recordTurn videoDurationS (.initial 0) slowRead).1 = .error .timedOut ∧
      ¬(recordLoop videoDurationS).Along (Punctual videoDurationS) (.ok (.initial 0))
        [slowRead] := by
  have tests : Tests videoDurationS (.initial 0) slowRead :=
    ⟨rfl, by decide, fun errno failed => by cases failed⟩
  have aborted : (recordTurn videoDurationS (.initial 0) slowRead).1 = .error .timedOut :=
    (timedOut_iff ⟨rfl, Int.le_refl _⟩ tests).mpr (by decide)
  refine ⟨aborted, fun punctual => ?_⟩
  -- No time has passed since the read returned.
  have late := (punctual [] slowRead [] rfl tests).mp aborted
  revert late
  decide

end Esme
