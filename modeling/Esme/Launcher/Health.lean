import Mathlib.Data.List.DropRight
import Esme.Launcher.Crashes

/-! Which restores the launcher owes to quick crashes since the last long run. -/

namespace Esme

/-- What `$1` is worth to an integer variable when the service starts the script without it. -/
def noArgument : Int := 0

/-- The main loop as `edgesoft.service` starts it. -/
def serviceLauncher : Transducer LauncherVars EdgesoftRun LauncherAction := launcher noArgument

/-- A run that lasted an hour or more. -/
def EdgesoftRun.Long (run : EdgesoftRun) : Prop := 3600 ≤ run.runTime

instance : DecidablePred EdgesoftRun.Long := fun _ => inferInstanceAs (Decidable (_ ≤ _))

/-- An exit code that the script acts on before it looks at the time. -/
def EdgesoftRun.Asks (run : EdgesoftRun) : Prop :=
  run.returnCode = 8 ∨ run.returnCode = 9 ∨ run.returnCode = 10

instance : DecidablePred EdgesoftRun.Asks := fun _ => inferInstanceAs (Decidable (_ ∨ _))

/-- How many quick crashes there were since the last long run, or since the start without one. -/
def quickCrashesSinceLong (history : List EdgesoftRun) : Nat :=
  -- Only the end of the history without a long run counts, whatever the exit codes in it.
  (history.rtakeWhile fun run => ¬run.Long).countP fun run => run.QuickCrash

/-- A quick crash is one more. -/
theorem quickCrashesSinceLong_quick (history : List EdgesoftRun) {run : EdgesoftRun}
    (quick : run.QuickCrash) :
    quickCrashesSinceLong (history ++ [run]) = quickCrashesSinceLong history + 1 := by
  -- A run of at most 120 seconds is not a long one, so it ends what is counted.
  obtain ⟨notEight, notNine, notTen, short⟩ := quick
  have notLong : ¬run.Long := by
    unfold EdgesoftRun.Long
    omega
  unfold quickCrashesSinceLong
  rw [List.rtakeWhile_concat_pos _ _ _ (by simpa using notLong), List.countP_append]
  simp [EdgesoftRun.QuickCrash, notEight, notNine, notTen, short]

/-- A run that is neither makes no difference. -/
theorem quickCrashesSinceLong_other (history : List EdgesoftRun) {run : EdgesoftRun}
    (slow : ¬run.QuickCrash) (short : ¬run.Long) :
    quickCrashesSinceLong (history ++ [run]) = quickCrashesSinceLong history := by
  unfold quickCrashesSinceLong
  rw [List.rtakeWhile_concat_pos _ _ _ (by simpa using short), List.countP_append]
  simp [slow]

/-- A long run that ends with 8, 9 or 10 comes while no restore is being counted up to. -/
def LongRunHeard (v : LauncherVars) (run : EdgesoftRun) : Prop :=
  -- With a count of 1 to 19 the crashes before this run would count for the next restore.
  run.Long → run.Asks → ¬(1 ≤ v.quickCrashCount.toInt ∧ v.quickCrashCount.toInt ≤ 19)

instance (v : LauncherVars) : DecidablePred (LongRunHeard v) :=
  fun _ => inferInstanceAs (Decidable (_ → _ → _))

/--
The count is owed to quick crashes since the last long run.

A count of 20 or more restores nothing before it has wrapped around, and a negative one first has
to come up to zero.
-/
structure CountOwed (v : LauncherVars) (history : List EdgesoftRun) : Prop where
  /-- The service gives no argument that would end the loop. -/
  running : v.shouldRun = 0
  owed : 0 ≤ v.quickCrashCount.toInt → v.quickCrashCount.toInt ≤ 19 →
    v.quickCrashCount.toInt ≤ quickCrashesSinceLong history

/-- One more in 64 bits is one more, or negative behind the highest value. -/
theorem count_succ_toInt (count : Int64) :
    (count + 1).toInt = count.toInt + 1 ∨ (count + 1).toInt < 0 := by
  have low := count.le_toInt
  have high := count.toInt_lt
  rw [Int64.toInt_add, Int64.toInt_one]
  -- The sum leaves the range in one place only.
  rcases Int.lt_or_le (count.toInt + 1) 9223372036854775808 with inside | beyond
  · left
    rw [Int.bmod_eq_of_le (by omega) (by omega)]
  · right
    have top : count.toInt = 9223372036854775807 := by omega
    rw [top]
    decide

/-- A run that is no quick crash clears the count if the script looks at how long it took. -/
theorem serviceLauncher_slow {v : LauncherVars} {run : EdgesoftRun} (running : v.shouldRun = 0)
    (slow : ¬run.QuickCrash) :
    (serviceLauncher.step v run).1 =
      if run.Long ∧ ¬run.Asks then { v with quickCrashCount := 0 } else v := by
  simp only [serviceLauncher, launcher, if_pos running, launcherTurn, afterUpdate, noArgument]
  -- The tests are made in the order of the script.
  split
  · rename_i eight
    -- Without an argument the loop goes on.
    rw [if_neg (by simp [EdgesoftRun.Asks, eight]), ← running]
  split
  · rename_i nine
    rw [if_neg (by simp [EdgesoftRun.Asks, nine])]
  split
  · rename_i ten
    rw [if_neg (by simp [EdgesoftRun.Asks, ten])]
  rename_i notEight notNine notTen
  split
  · rename_i short
    exact absurd ⟨notEight, notNine, notTen, short⟩ slow
  split
  · rename_i long
    rw [if_pos ⟨long, by simp [EdgesoftRun.Asks, notEight, notNine, notTen]⟩]
  · rename_i short
    rw [if_neg fun long => short long.1]

/-- A restore is written by the branch for quick crashes. -/
theorem afterUpdate_restores {argument : Int} {v : LauncherVars} {run : EdgesoftRun}
    {action : LauncherAction} (restores : action.Restores)
    (written : action ∈ (afterUpdate argument v run).2) :
    run.QuickCrash ∧ action ∈ (quickCrash v).2 := by
  unfold afterUpdate at written
  -- Each other branch writes nothing, or a command that is no restore.
  split at written
  · simp at written
  split at written
  · simp only [List.mem_singleton] at written
    simp [written, LauncherAction.Restores] at restores
  split at written
  · simp only [List.mem_singleton] at written
    simp [written, LauncherAction.Restores] at restores
  rename_i notEight notNine notTen
  split at written
  · rename_i short
    exact ⟨⟨notEight, notNine, notTen, short⟩, written⟩
  split at written <;> simp at written

/-- Only a quick crash restores anything, and what it restores is decided by the count. -/
theorem serviceLauncher_restores {v : LauncherVars} {run : EdgesoftRun}
    {action : LauncherAction} (running : v.shouldRun = 0) (restores : action.Restores)
    (written : action ∈ (serviceLauncher.step v run).2) :
    run.QuickCrash ∧ (action = .restoreBackup → v.quickCrashCount + 1 = 10) ∧
      (action = .restoreFactory → v.quickCrashCount + 1 = 20) := by
  simp only [serviceLauncher, launcher, if_pos running, launcherTurn, List.mem_cons] at written
  -- The update's two commands are no restores.
  rcases written with rfl | rfl | written
  · cases restores
  · cases restores
  obtain ⟨quick, counted⟩ := afterUpdate_restores restores written
  refine ⟨quick, ?_⟩
  unfold quickCrash at counted
  dsimp only at counted
  split at counted
  · rename_i ten
    exact ⟨fun _ => ten, fun factory => by simp [factory] at counted⟩
  split at counted
  · rename_i twenty
    exact ⟨fun backup => by simp [backup] at counted, fun _ => twenty⟩
  · simp at counted

/-- A run that is heard keeps the count owed to quick crashes since the last long run. -/
theorem serviceLauncher_owed {v : LauncherVars} {history : List EdgesoftRun} {run : EdgesoftRun}
    (owed : CountOwed v history) (heard : LongRunHeard v run) :
    CountOwed (serviceLauncher.step v run).1 (history ++ [run]) := by
  -- A run is a quick crash, a long run or another ending, and each does one thing to the count.
  by_cases quick : run.QuickCrash
  · -- The count and what it is owed to both grow by one, unless the count wraps around.
    rw [serviceLauncher, launcher_quick owed.running quick, quickCrash]
    refine ⟨owed.running, fun positive small => ?_⟩
    rw [quickCrashesSinceLong_quick history quick]
    dsimp only at positive small ⊢
    rcases count_succ_toInt v.quickCrashCount with more | wrapped
    · rw [more] at positive small ⊢
      rcases Int.lt_or_le v.quickCrashCount.toInt 0 with negative | counted
      · omega
      · have before := owed.owed counted (by omega)
        omega
    · omega
  rw [show (serviceLauncher.step v run).1 = _ from serviceLauncher_slow owed.running quick]
  by_cases long : run.Long
  · by_cases asks : run.Asks
    · -- The count is kept although nothing is owed any more.
      rw [if_neg fun cleared => cleared.2 asks]
      refine ⟨owed.running, fun positive small => ?_⟩
      have unheard := heard long asks
      omega
    · rw [if_pos ⟨long, asks⟩]
      exact ⟨owed.running, fun _ _ => by simp⟩
  · rw [if_neg fun cleared => long cleared.1]
    exact ⟨owed.running, by rw [quickCrashesSinceLong_other history quick long]; exact owed.owed⟩

/-- In a run of the service whose long runs are all heard the count is always owed. -/
theorem serviceLauncher_run {v : LauncherVars} {before runs : List EdgesoftRun}
    (owed : CountOwed v before) (heard : serviceLauncher.Along LongRunHeard v runs) :
    CountOwed (serviceLauncher.final v runs) (before ++ runs) := by
  -- What has been run before grows with every run.
  induction runs generalizing v before with
  | nil => simpa using owed
  | cons run rest ih =>
    obtain ⟨first, others⟩ := Transducer.along_cons.mp heard
    have later := ih (serviceLauncher_owed owed first) others
    simpa using later

/-- The quick crash that brings the count to a value up to 20 has as many before it as it should. -/
theorem CountOwed.reached {v : LauncherVars} {history : List EdgesoftRun} {run : EdgesoftRun}
    (owed : CountOwed v history) (quick : run.QuickCrash) {target : Int64}
    (counted : v.quickCrashCount + 1 = target) (positive : 0 ≤ (target - 1).toInt)
    (small : (target - 1).toInt ≤ 19) :
    (target - 1).toInt + 1 ≤ quickCrashesSinceLong (history ++ [run]) := by
  -- The count before it is one less, and that one is owed.
  have before : v.quickCrashCount = target - 1 := by rw [← counted, Int64.add_sub_cancel]
  rw [← before] at positive small ⊢
  have crashes := owed.owed positive small
  rw [quickCrashesSinceLong_quick history quick]
  omega

/--
A service whose long runs are all heard restores nothing but crashing versions.

Whatever has been run before, a backup is restored behind at least ten quick crashes since the
last long run, and the factory version behind at least twenty.
-/
theorem restores_deserved (history : List EdgesoftRun) (run : EdgesoftRun)
    (heard : serviceLauncher.Along LongRunHeard .initial history) :
    let v := serviceLauncher.final .initial history
    (.restoreBackup ∈ (serviceLauncher.step v run).2 →
        10 ≤ quickCrashesSinceLong (history ++ [run])) ∧
      (.restoreFactory ∈ (serviceLauncher.step v run).2 →
        20 ≤ quickCrashesSinceLong (history ++ [run])) := by
  -- The count is owed at each restore, and it is ten or twenty there.
  intro v
  have start : CountOwed .initial [] := ⟨rfl, fun _ _ => Int.zero_le_ofNat _⟩
  have owed : CountOwed v history := serviceLauncher_run start heard
  -- Each version is restored by the crash that brings the count to its number.
  constructor
  · intro restored
    obtain ⟨quick, ten, -⟩ := serviceLauncher_restores owed.running (by trivial) restored
    have crashes := owed.reached quick (ten rfl) (by decide) (by decide)
    rw [show ((10 : Int64) - 1).toInt = 9 from rfl] at crashes
    omega
  · intro restored
    obtain ⟨quick, -, twenty⟩ := serviceLauncher_restores owed.running (by trivial) restored
    have crashes := owed.reached quick (twenty rfl) (by decide) (by decide)
    rw [show ((20 : Int64) - 1).toInt = 19 from rfl] at crashes
    omega

/-- A long run that crashes in the end, then ten quick crashes: the tenth restores the backup. -/
theorem restores_deserved_tenth :
    let history := (⟨1, 4000⟩ : EdgesoftRun) :: List.replicate 9 ⟨1, 5⟩
    let v := serviceLauncher.final .initial history
    (.restoreBackup ∈ (serviceLauncher.step v ⟨1, 5⟩).2 →
        10 ≤ quickCrashesSinceLong (history ++ [⟨1, 5⟩])) ∧
      (.restoreFactory ∈ (serviceLauncher.step v ⟨1, 5⟩).2 →
        20 ≤ quickCrashesSinceLong (history ++ [⟨1, 5⟩])) :=
  restores_deserved _ ⟨1, 5⟩ (by decide)

/-- Nine quick crashes, two hours that end with a relaunch, one crash: the backup is restored. -/
theorem restored_behind_long_run :
    let history := List.replicate 9 (⟨1, 5⟩ : EdgesoftRun) ++ [⟨8, 7200⟩]
    let v := serviceLauncher.final .initial history
    .restoreBackup ∈ (serviceLauncher.step v ⟨1, 5⟩).2 ∧
      quickCrashesSinceLong (history ++ [⟨1, 5⟩]) = 1 := by
  decide

end Esme
