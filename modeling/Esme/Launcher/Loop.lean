import Esme.Stream.Transducer

/-! `edge_launcher.sh`: what one run of edgesoft makes the launcher do. -/

namespace Esme

/-- How a run of edgesoft ended: its exit code and how many seconds it took. -/
structure EdgesoftRun where
  returnCode : UInt8
  runTime : Int
  deriving DecidableEq

/-- The variables of the script that outlive a run; bash counts in 64 bits. -/
structure LauncherVars where
  shouldRun : Int
  quickCrashCount : Int64
  deriving DecidableEq

/-- The variables as they are declared. -/
def LauncherVars.initial : LauncherVars where
  shouldRun := 0
  quickCrashCount := 0

/-- The commands of the script that change files or the system, in the order it runs them. -/
inductive LauncherAction where
  /-- `cp -a /root/new/. /root/current/` -/
  | copyNew
  /-- `rm -rf /root/new/*` -/
  | removeNew
  | reboot
  | shutdown
  /-- `cp -a /root/backup/. /root/current/` -/
  | restoreBackup
  /-- `cp -a /root/factory/. /root/current/` -/
  | restoreFactory
  deriving DecidableEq

/-- The branch for a run that ended too quickly: count it, and restore at the counts 10 and 20. -/
def quickCrash (v : LauncherVars) : LauncherVars × List LauncherAction :=
  -- The count is not cleared by a restore.
  let count := v.quickCrashCount + 1
  ({ v with quickCrashCount := count },
    if count = 10 then [.restoreBackup] else if count = 20 then [.restoreFactory] else [])

/-- What follows the update: leave, reboot, shut down, or go on; `argument` is `$1`. -/
def afterUpdate (argument : Int) (v : LauncherVars) (run : EdgesoftRun) :
    LauncherVars × List LauncherAction :=
  if run.returnCode = 8 then ({ v with shouldRun := argument }, [])
  else if run.returnCode = 9 then (v, [.reboot])
  else if run.returnCode = 10 then (v, [.shutdown])
  else if run.runTime ≤ 120 then quickCrash v
  else if 3600 ≤ run.runTime then ({ v with quickCrashCount := 0 }, [])
  -- A run of middling length neither counts nor clears the count.
  else (v, [])

/-- One turn of the loop, for the run of edgesoft that it waits for. -/
def launcherTurn (argument : Int) (v : LauncherVars) (run : EdgesoftRun) :
    LauncherVars × List LauncherAction :=
  -- Whatever is in `/root/new` is copied before the exit code is looked at.
  let (next, actions) := afterUpdate argument v run
  (next, .copyNew :: .removeNew :: actions)

/-- The main loop over the runs of edgesoft; once it is left nothing is run any more. -/
def launcher (argument : Int) : Transducer LauncherVars EdgesoftRun LauncherAction where
  step v run := if v.shouldRun = 0 then launcherTurn argument v run else (v, [])

/-- A quick crash: none of the three exit codes, and at most 120 seconds. -/
def EdgesoftRun.QuickCrash (run : EdgesoftRun) : Prop :=
  run.returnCode ≠ 8 ∧ run.returnCode ≠ 9 ∧ run.returnCode ≠ 10 ∧ run.runTime ≤ 120

instance : DecidablePred EdgesoftRun.QuickCrash := fun _ => inferInstanceAs (Decidable (_ ∧ _))

/-- A version is restored into `/root/current`. -/
def LauncherAction.Restores : LauncherAction → Prop
  | .restoreBackup => True
  | .restoreFactory => True
  | _ => False

instance : DecidablePred LauncherAction.Restores
  | .restoreBackup | .restoreFactory => isTrue trivial
  | .copyNew | .removeNew | .reboot | .shutdown => isFalse id

end Esme
