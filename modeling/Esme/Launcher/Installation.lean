import Esme.Files.Tree
import Esme.Launcher.Health

/-! What the commands of `edge_launcher.sh` do to the versions of the software under `/root`. -/

namespace Esme

open Files

/-- A file name: bytes without the separator or a zero, and not one of the two for directories. -/
structure FileName where
  bytes : List UInt8
  named : bytes ≠ [] ∧ 0x2f ∉ bytes ∧ 0 ∉ bytes ∧ bytes ≠ [0x2e] ∧ bytes ≠ [0x2e, 0x2e]
  deriving DecidableEq

/-- A name that starts with a dot; the shell's `*` does not stand for it. -/
def FileName.hidden (name : FileName) : Bool := name.bytes.head? = some 0x2e

/-- A regular file with its data, or a link, a pipe or a device with what it refers to. -/
inductive FileContent (α : Type) where
  | regular (attributes : α) (data : List UInt8)
  | special (attributes : α) (node : List UInt8)
  deriving DecidableEq

/--
What `cp -a` leaves where a file is copied over another one.

The data of a regular file are written into what is there, so a link or a device stays in its
place; anything else is removed first.
-/
def overwrite {α : Type} : FileContent α → FileContent α → FileContent α
  | .special attributes node, .regular _ _ => .special attributes node
  | _, new => new

/-- A directory of the file system; `α` is what is kept with a file: owner, mode and times. -/
abbrev FileTree (α : Type) := Tree FileName α (FileContent α)

/-- The four directories below `/root` that the script works on. -/
structure Installation (α : Type) where
  current : FileTree α
  backup : FileTree α
  factory : FileTree α
  new : FileTree α

variable {α : Type}

/-- What one command may leave of the four directories, and whether it says that it succeeded. -/
inductive Executed : LauncherAction → Bool → Installation α → Installation α → Prop where
  | copyNew {root : Installation α} {left : FileTree α} {succeeded : Bool}
      (copied : Copied overwrite root.new root.current left succeeded) :
      Executed .copyNew succeeded root { root with current := left }
  /-- Names with a dot in front are not removed. -/
  | removeNew {root : Installation α} :
      Executed .removeNew true root { root with new := root.new.keep FileName.hidden }
  | restoreBackup {root : Installation α} {left : FileTree α} {succeeded : Bool}
      (copied : Copied overwrite root.backup root.current left succeeded) :
      Executed .restoreBackup succeeded root { root with current := left }
  | restoreFactory {root : Installation α} {left : FileTree α} {succeeded : Bool}
      (copied : Copied overwrite root.factory root.current left succeeded) :
      Executed .restoreFactory succeeded root { root with current := left }
  | reboot {root : Installation α} {succeeded : Bool} : Executed .reboot succeeded root root
  | shutdown {root : Installation α} {succeeded : Bool} : Executed .shutdown succeeded root root

/-- Commands one after the other; the script looks at no exit status. -/
inductive ExecutedAll : List (LauncherAction × Bool) → Installation α → Installation α → Prop where
  | nil {root : Installation α} : ExecutedAll [] root root
  | cons {action : LauncherAction} {succeeded : Bool} {rest : List (LauncherAction × Bool)}
      {root next last : Installation α} (first : Executed action succeeded root next)
      (others : ExecutedAll rest next last) :
      ExecutedAll ((action, succeeded) :: rest) root last

/-- The versions that can be restored. -/
inductive Version where
  | backup
  | factory
  deriving DecidableEq

/-- The command that restores a version. -/
def Version.restore : Version → LauncherAction
  | .backup => .restoreBackup
  | .factory => .restoreFactory

/-- Where a version is kept. -/
def Installation.version (root : Installation α) : Version → FileTree α
  | .backup => root.backup
  | .factory => root.factory

/-- One entry is of the kind of another and can be replaced by it. -/
def ReplacedBy : Entry α (FileContent α) → Entry α (FileContent α) → Prop
  | .directory _, .directory _ => True
  -- A regular file does not replace a link or a device, it is written into it.
  | .file (.special _ _), .file (.regular _ _) => False
  | .file _, .file _ => True
  | _, _ => False

/-- Every path of a tree is one of the version, which replaces what is there. -/
def Replaces (version tree : FileTree α) : Prop :=
  ∀ path old, tree.entry path = some old →
    ∃ new, version.entry path = some new ∧ ReplacedBy old new

/-- An entry is what is left behind a copy exactly when it replaces what was there. -/
theorem lay_eq_iff (old new : Entry α (FileContent α)) :
    lay overwrite (some old) new = some new ↔ ReplacedBy old new := by
  rcases old with _ | ⟨_ | _⟩ <;> rcases new with _ | ⟨_ | _⟩ <;>
    simp [lay, overwrite, ReplacedBy]

/-- To replace a tree is to cover it. -/
theorem covers_iff_replaces {version tree : FileTree α} :
    Covers overwrite version tree ↔ Replaces version tree := by
  simp only [Covers, Replaces, lay_eq_iff]

/-- Three files on one another come out as the last one if it replaces each of the others. -/
theorem overwrite_layers (a b c : FileContent α) :
    overwrite (overwrite a b) c = c ↔ overwrite a c = c ∧ overwrite b c = c := by
  cases a <;> cases b <;> cases c <;> simp [overwrite]

/-- A restore leaves the version exactly when the version replaces all that was there. -/
theorem Executed.restored_iff {version : Version} {root next : Installation α}
    (executed : Executed version.restore true root next) :
    next.current = root.version version ↔ Replaces (root.version version) root.current := by
  rw [← covers_iff_replaces]
  -- Either version is copied in the same way.
  cases version with
  | backup =>
    cases executed with
    | restoreBackup copied => exact copied.eq_source_iff
  | factory =>
    cases executed with
    | restoreFactory copied => exact copied.eq_source_iff

/-- A turn that restores a version updates first and does nothing behind the restore. -/
theorem launcher_restoring {argument : Int} {v : LauncherVars} {run : EdgesoftRun}
    {version : Version} (restored : version.restore ∈ ((launcher argument).step v run).2) :
    ((launcher argument).step v run).2 = [.copyNew, .removeNew, version.restore] := by
  -- The update is written first in each turn, and a restore ends the turn that it is in.
  have restores : version.restore.Restores := by cases version <;> trivial
  by_cases running : v.shouldRun = 0
  · simp only [launcher, if_pos running, launcherTurn, List.mem_cons] at restored
    rcases restored with update | update | restored
    · simp [update, LauncherAction.Restores] at restores
    · simp [update, LauncherAction.Restores] at restores
    obtain ⟨quick, counted⟩ := afterUpdate_restores restores restored
    rw [launcher_quick running quick]
    -- Each of the two branches that restore something restores one version.
    unfold quickCrash at counted ⊢
    dsimp only at counted ⊢
    split
    · rename_i ten
      rw [if_pos ten, List.mem_singleton] at counted
      rw [counted]
    · rename_i notTen
      rw [if_neg notTen] at counted
      split
      · rename_i twenty
        rw [if_pos twenty, List.mem_singleton] at counted
        rw [counted]
      · rename_i notTwenty
        simp [notTwenty] at counted
  · simp [launcher, running] at restored

/--
A restore leaves exactly the restored version if and only if this replaces all that is found.

The update is copied first, so what it brings has to be replaced as well.
-/
theorem restored_exactly_iff (argument : Int) (v : LauncherVars) (run : EdgesoftRun)
    (version : Version) (root last : Installation α)
    (restored : version.restore ∈ ((launcher argument).step v run).2)
    (executed : ExecutedAll (((launcher argument).step v run).2.map fun action => (action, true))
      root last) :
    last.current = root.version version ↔
      Replaces (root.version version) root.current ∧ Replaces (root.version version) root.new := by
  rw [launcher_restoring restored] at executed
  -- The update, the removal and the restore follow one another.
  cases executed with
  | cons update executed =>
  cases executed with
  | cons removal executed =>
  cases executed with
  | cons restore executed =>
  cases executed
  cases update with
  | copyNew copied =>
  cases removal
  have kept := restore.restored_iff
  -- Neither the update nor the removal touches the versions that are kept.
  cases version <;> exact kept.trans (by
    simp only [← covers_iff_replaces]
    exact copied.covers_iff overwrite_layers)

/-- The commands that every turn begins with, and what they say about their success. -/
def updateStep (succeeded : Bool) : List (LauncherAction × Bool) :=
  [(.copyNew, succeeded), (.removeNew, true)]

example (argument : Int) (v : LauncherVars) (run : EdgesoftRun) :
    (launcherTurn argument v run).2 =
      (updateStep true).map Prod.fst ++ (afterUpdate argument v run).2 := rfl

/-- What an update should come to: it is in place and used up, or it is still there as a whole. -/
def UpdateKept (succeeded : Bool) (root next : Installation α) : Prop :=
  (succeeded = true ∧
      (∀ path entry, root.new.entry path = some entry → next.current.entry path = some entry) ∧
      next.new.Empty) ∨
    (succeeded = false ∧ next.new = root.new)

/-- Every regular file of the update can be put where a file is already. -/
def Updates (new current : FileTree α) : Prop :=
  ∀ path before after, current.entry path = some (.file before) →
    new.entry path = some (.file after) → ReplacedBy (.file before) (.file after)

/--
An update is in place and used up, or kept as a whole, if and only if the names that are removed
are those that should be.

Those are all of them behind a copy that succeeds, and none of them behind one that fails.
-/
theorem update_kept_iff (succeeded : Bool) (root next : Installation α)
    (executed : ExecutedAll (updateStep succeeded) root next) :
    UpdateKept succeeded root next ↔
      (succeeded = true →
        (∀ name, root.new.Has [name] → ¬name.hidden) ∧ Updates root.new root.current) ∧
      (succeeded = false → ∀ name, root.new.Has [name] → name.hidden) := by
  -- The two commands are a copy and a removal, and what is kept is read off both trees.
  cases executed with
  | cons update executed =>
  cases executed with
  | cons removal executed =>
  cases executed
  cases update with
  | copyNew copied =>
  cases removal
  unfold UpdateKept
  cases succeeded with
  | true =>
    -- All that a copy leaves out is a regular file over something else.
    have contains := copied.contains_iff
    have replaced : (∀ path old new, root.current.entry path = some (.file old) →
        root.new.entry path = some (.file new) → overwrite old new = new) ↔
        Updates root.new root.current := by
      simp only [Updates, ← lay_eq_iff, lay, Option.some.injEq, Entry.file.injEq]
    simp [contains.trans replaced, Tree.keep_empty_iff, and_comm]
  | false => simp [Tree.keep_eq_iff]

/-- A directory that has only regular files in it. -/
def files (listed : List (FileName × List UInt8)) : FileTree Unit :=
  Tree.flat () fun name => (listed.lookup name).map (.regular ())

/-- Copying regular files over regular ones leaves the new ones, and the others beside them. -/
theorem copied_files {new before after : List (FileName × List UInt8)}
    (merged : ∀ name, after.lookup name = (new.lookup name).or (before.lookup name)) :
    Copied overwrite (files new) (files before) (files after) true := by
  apply copied_flat
  · intro name missing
    rw [Option.map_eq_none_iff] at missing
    rw [merged, missing, Option.none_or]
  · intro name content listed
    rw [Option.map_eq_some_iff] at listed
    obtain ⟨data, found, rfl⟩ := listed
    rw [merged, found, Option.some_or, Option.map_some]
    cases before.lookup name <;> rfl

/-- The program that is started, `edgesoft`. -/
def programName : FileName := ⟨[0x65, 0x64, 0x67, 0x65, 0x73, 0x6f, 0x66, 0x74], by decide⟩

/-- A file that only the newer versions have, `help`. -/
def helpName : FileName := ⟨[0x68, 0x65, 0x6c, 0x70], by decide⟩

/-- One version after another and no update; `current` is what is left in `/root/current`. -/
def withCurrent (current : FileTree Unit) : Installation Unit where
  current := current
  backup := files [(programName, [1])]
  factory := files [(programName, [0])]
  new := (files []).keep FileName.hidden

/-- An update that brings nothing, followed by a restore of the backup. -/
theorem executed_backup {before after : List (FileName × List UInt8)}
    (merged : ∀ name,
      after.lookup name = (List.lookup name [(programName, [1])]).or (before.lookup name)) :
    ExecutedAll (((launcher 0).step ⟨0, 9⟩ ⟨1, 5⟩).2.map fun action => (action, true))
      { withCurrent (files before) with new := files [] } (withCurrent (files after)) := by
  have nothing : Copied overwrite (files []) (files before) (files before) true :=
    copied_files (by simp)
  exact .cons (.copyNew nothing)
    (.cons .removeNew (.cons (.restoreBackup (copied_files merged)) .nil))

/-- A version with the same files is restored exactly. -/
theorem restored_exactly_iff_program :
    (withCurrent (files [(programName, [1])])).current = files [(programName, [1])] ↔
      Replaces (files [(programName, [1])]) (files [(programName, [2])]) ∧
        Replaces (files [(programName, [1])]) (files []) :=
  restored_exactly_iff 0 ⟨0, 9⟩ ⟨1, 5⟩ .backup
    { withCurrent (files [(programName, [2])]) with new := files [] } _ (by decide)
    (executed_backup fun name => by
      cases same : name == programName <;> simp [List.lookup_cons, same])

/-- A file that the backup does not have survives its restore. -/
theorem restored_beside_leftover :
    let before := files [(programName, [2]), (helpName, [3])]
    let after := files [(programName, [1]), (helpName, [3])]
    let root := { withCurrent before with new := files [] }
    .restoreBackup ∈ ((launcher 0).step ⟨0, 9⟩ ⟨1, 5⟩).2 ∧
      ExecutedAll (((launcher 0).step ⟨0, 9⟩ ⟨1, 5⟩).2.map fun action => (action, true)) root
        (withCurrent after) ∧
      (withCurrent after).current ≠ root.backup := by
  refine ⟨by decide, executed_backup fun name => ?_, fun same => ?_⟩
  · cases same : name == programName <;> simp [List.lookup_cons, same]
  · -- The help file tells the two apart.
    have entry := congrArg (Tree.entry · [helpName]) same
    revert entry
    decide

/-- A file whose name starts with a dot, `.rc`. -/
def hiddenName : FileName := ⟨[0x2e, 0x72, 0x63], by decide⟩

/-- An update that succeeds, from one directory of regular files into another. -/
theorem executed_update {new before after : List (FileName × List UInt8)}
    (merged : ∀ name, after.lookup name = (new.lookup name).or (before.lookup name)) :
    ExecutedAll (updateStep true) { withCurrent (files before) with new := files new }
      { withCurrent (files after) with new := (files new).keep FileName.hidden } :=
  .cons (.copyNew (copied_files merged)) (.cons .removeNew .nil)

/-- An update with a visible name is used up. -/
theorem update_kept_iff_program :
    let root := { withCurrent (files []) with new := files [(programName, [2])] }
    let next := { withCurrent (files [(programName, [2])]) with
      new := (files [(programName, [2])]).keep FileName.hidden }
    UpdateKept true root next ↔
      (true = true →
        (∀ name, root.new.Has [name] → ¬name.hidden) ∧ Updates root.new root.current) ∧
      (true = false → ∀ name, root.new.Has [name] → name.hidden) :=
  update_kept_iff true _ _ (executed_update (by simp))

/-- A file with a dot in front is copied and stays in the update. -/
theorem update_left_behind :
    let root := { withCurrent (files []) with new := files [(hiddenName, [2])] }
    let next := { withCurrent (files [(hiddenName, [2])]) with
      new := (files [(hiddenName, [2])]).keep FileName.hidden }
    ExecutedAll (updateStep true) root next ∧ ¬UpdateKept true root next := by
  refine ⟨executed_update (by simp), fun kept => ?_⟩
  rcases kept with ⟨-, -, empty⟩ | ⟨failed, -⟩
  · -- It is found again by the next turn.
    have there : (files [(hiddenName, [2])]).keep FileName.hidden |>.Has [hiddenName] := by rfl
    cases empty [hiddenName] there
  · cases failed

end Esme
