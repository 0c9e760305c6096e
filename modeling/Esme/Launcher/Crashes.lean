import Esme.Launcher.Loop

/-! Which crash loops the launcher falls back out of. -/

namespace Esme

variable {argument : Int} {v : LauncherVars}

/-- A quick crash is counted, whatever the count is. -/
theorem launcher_quick {run : EdgesoftRun} (running : v.shouldRun = 0) (quick : run.QuickCrash) :
    (launcher argument).step v run =
      ((quickCrash v).1, .copyNew :: .removeNew :: (quickCrash v).2) := by
  -- None of the three exit codes is there, so the first test that succeeds is that of the time.
  obtain ⟨notEight, notNine, notTen, short⟩ := quick
  simp only [launcher, if_pos running, launcherTurn, afterUpdate, if_neg notEight, if_neg notNine,
    if_neg notTen, if_pos short]

/-- A quick crash restores something exactly when it brings the count to 10 or 20. -/
theorem quickCrash_restores (v : LauncherVars) :
    (∃ action ∈ (quickCrash v).2, action.Restores) ↔
      v.quickCrashCount + 1 = 10 ∨ v.quickCrashCount + 1 = 20 := by
  unfold quickCrash
  dsimp only
  -- The two tests are made one after the other, and either of them restores something.
  split
  · rename_i ten
    simp [ten, LauncherAction.Restores]
  split
  · rename_i twenty
    simp [twenty, LauncherAction.Restores]
  · rename_i notTen notTwenty
    simp [notTen, notTwenty]

/-- Some quick crashes restore something exactly when one of them brings the count to 10 or 20. -/
theorem quickCrashes_restore (running : v.shouldRun = 0) {crashes : List EdgesoftRun}
    (quick : ∀ run ∈ crashes, run.QuickCrash) :
    (∃ action ∈ (launcher argument).output v crashes, action.Restores) ↔
      ∃ earlier < crashes.length, v.quickCrashCount + 1 + Int64.ofNat earlier = 10 ∨
        v.quickCrashCount + 1 + Int64.ofNat earlier = 20 := by
  -- The count grows by one with each crash, so it stays quantified over.
  induction crashes generalizing v with
  | nil => simp
  | cons run rest ih =>
    obtain ⟨first, others⟩ := List.forall_mem_cons.mp quick
    have later := ih (v := (quickCrash v).1) running others
    have here := quickCrash_restores v
    rw [Transducer.output_cons, launcher_quick running first]
    have shift : ∀ earlier, (quickCrash v).1.quickCrashCount + 1 + Int64.ofNat earlier =
        v.quickCrashCount + 1 + Int64.ofNat (earlier + 1) := by
      -- The count wraps around, and so does this sum.
      intro earlier
      rw [Int64.ofNat_add, quickCrash]
      dsimp only
      rw [Int64.add_assoc, Int64.add_comm (1 : Int64)]
      rfl
    simp only [shift] at later
    constructor
    · intro restored
      obtain ⟨action, member, restores⟩ := restored
      rw [List.mem_append] at member
      -- Either this crash restores something, or a later one does.
      rcases member with now | behind
      · refine ⟨0, Nat.zero_lt_succ _, ?_⟩
        have found : ∃ action ∈ (quickCrash v).2, action.Restores := by
          simp only [List.mem_cons] at now
          rcases now with rfl | rfl | written
          · cases restores
          · cases restores
          · exact ⟨action, written, restores⟩
        simpa using here.mp found
      · obtain ⟨earlier, inside, count⟩ := later.mp ⟨action, behind, restores⟩
        exact ⟨earlier + 1, by simpa using inside, count⟩
    · intro counted
      obtain ⟨earlier, inside, count⟩ := counted
      cases earlier with
      | zero =>
        obtain ⟨action, written, restores⟩ := here.mpr (by simpa using count)
        exact ⟨action, by simp [written], restores⟩
      | succ earlier =>
        obtain ⟨action, behind, restores⟩ := later.mpr ⟨earlier, by simpa using inside, count⟩
        exact ⟨action, List.mem_append_right _ behind, restores⟩

/-- Which counts reach 10 or 20 within twenty steps. -/
theorem reaches_within_twenty_iff (count : Int64) :
    (∃ earlier < 20, count + 1 + Int64.ofNat earlier = 10 ∨
        count + 1 + Int64.ofNat earlier = 20) ↔
      -10 ≤ count.toInt ∧ count.toInt < 20 := by
  -- The counts 10 and 20 are reached from the twenty values below each, which overlap.
  constructor
  · intro reached
    obtain ⟨earlier, inside, target⟩ := reached
    -- The count is one of twenty below the one it reaches.
    have bounds : ∀ earlier < 20,
        (-10 ≤ (10 - Int64.ofNat earlier - 1).toInt ∧ (10 - Int64.ofNat earlier - 1).toInt < 20) ∧
          (-10 ≤ (20 - Int64.ofNat earlier - 1).toInt ∧
            (20 - Int64.ofNat earlier - 1).toInt < 20) := by decide
    have back : ∀ target, count + 1 + Int64.ofNat earlier = target →
        count = target - Int64.ofNat earlier - 1 := by
      intro target same
      rw [← same, Int64.add_sub_cancel, Int64.add_sub_cancel]
    rcases target with ten | twenty
    · rw [back 10 ten]
      exact (bounds earlier inside).1
    · rw [back 20 twenty]
      exact (bounds earlier inside).2
  · intro bounds
    -- There are thirty such counts, and each of them can be looked at.
    have each : ∀ offset : Nat, offset < 30 → ∃ earlier < 20,
        Int64.ofInt ((offset : Int) - 10) + 1 + Int64.ofNat earlier = 10 ∨
          Int64.ofInt ((offset : Int) - 10) + 1 + Int64.ofNat earlier = 20 := by decide
    obtain ⟨earlier, inside, target⟩ := each (count.toInt + 10).toNat (by omega)
    have same : ((count.toInt + 10).toNat : Int) - 10 = count.toInt := by omega
    rw [same, Int64.ofInt_toInt] at target
    exact ⟨earlier, inside, target⟩

/--
Twenty quick crashes in a row restore something if and only if the count before them is below 20.

A count is negative only behind 2^63 quick crashes, and then it must be at least -10.
-/
theorem restored_within_twenty_iff (argument : Int) (history crashes : List EdgesoftRun)
    (running : ((launcher argument).final .initial history).shouldRun = 0)
    (twenty : crashes.length = 20) (quick : ∀ run ∈ crashes, run.QuickCrash) :
    (∃ action ∈ (launcher argument).output ((launcher argument).final .initial history) crashes,
        action.Restores) ↔
      -10 ≤ ((launcher argument).final .initial history).quickCrashCount.toInt ∧
        ((launcher argument).final .initial history).quickCrashCount.toInt < 20 := by
  -- Nothing else of the history matters than the count it leaves.
  rw [quickCrashes_restore running quick, twenty]
  exact reaches_within_twenty_iff _

/-- A crash loop that follows seven quick crashes and two slower runs restores the backup. -/
theorem restored_within_twenty_iff_behind :
    let history := List.replicate 7 (⟨1, 5⟩ : EdgesoftRun) ++ [⟨8, 30⟩, ⟨2, 500⟩]
    let crashes := ⟨139, 0⟩ :: List.replicate 19 (⟨1, 120⟩ : EdgesoftRun)
    (∃ action ∈ (launcher 0).output ((launcher 0).final .initial history) crashes,
        action.Restores) ↔
      -10 ≤ ((launcher 0).final .initial history).quickCrashCount.toInt ∧
        ((launcher 0).final .initial history).quickCrashCount.toInt < 20 :=
  restored_within_twenty_iff 0 _ _ (by decide) (by decide) (by decide)

/-- A crash loop that follows twenty quick crashes restores nothing. -/
theorem nothing_restored_again :
    let history := List.replicate 20 (⟨1, 5⟩ : EdgesoftRun)
    let crashes := List.replicate 20 (⟨1, 5⟩ : EdgesoftRun)
    ((launcher 0).final .initial history).shouldRun = 0 ∧ (∀ run ∈ crashes, run.QuickCrash) ∧
      ¬∃ action ∈ (launcher 0).output ((launcher 0).final .initial history) crashes,
        action.Restores := by
  decide

end Esme
