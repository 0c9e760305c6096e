import Mathlib.Data.List.Induction
import Mathlib.Tactic.ByContra
import Mathlib.Tactic.TypeStar

/-! File trees, and what copying one over another leaves. -/

namespace Files

variable {ν δ φ : Type*}

/-- What a path names: a directory with its attributes, or anything else with its content. -/
inductive Entry (δ φ : Type*) where
  | directory (attributes : δ)
  | file (content : φ)
  deriving DecidableEq

/-- A directory with everything below it; a path is the list of names that lead to it. -/
structure Tree (ν δ φ : Type*) where
  entry : List ν → Option (Entry δ φ)
  /-- The tree is a directory itself. -/
  rooted : ∃ attributes, entry [] = some (.directory attributes)
  /-- Only a directory has anything below it. -/
  parents : ∀ path name, (entry (path ++ [name])).isSome →
    ∃ attributes, entry path = some (.directory attributes)

namespace Tree

/-- Trees with the same entries are the same. -/
@[ext] theorem ext {tree other : Tree ν δ φ}
    (same : ∀ path, tree.entry path = other.entry path) : tree = other := by
  -- The other fields are proofs about the entries.
  cases tree
  cases other
  congr
  exact funext same

/-- The tree has something at a path. -/
def Has (tree : Tree ν δ φ) (path : List ν) : Prop := (tree.entry path).isSome

/-- The tree is an empty directory. -/
def Empty (tree : Tree ν δ φ) : Prop := ∀ path, tree.Has path → path = []

/-- A path is there if one behind it is. -/
theorem Has.front {tree : Tree ν δ φ} {front back : List ν} (has : tree.Has (front ++ back)) :
    tree.Has front := by
  -- The induction takes names off the end, and each parent is there.
  induction back using List.reverseRecOn with
  | nil => simpa using has
  | append_singleton back name ih =>
    rw [← List.append_assoc] at has
    obtain ⟨attributes, parent⟩ := tree.parents _ _ has
    exact ih (by rw [Has, parent]; rfl)

/-- A directory with files in it and no directory. -/
def flat (attributes : δ) (file : ν → Option φ) : Tree ν δ φ where
  entry
    | [] => some (.directory attributes)
    | [name] => (file name).map .file
    | _ :: _ :: _ => none
  rooted := ⟨attributes, rfl⟩
  parents
    | [], _, _ => ⟨attributes, rfl⟩
    | [_], _, has => by simp at has
    | _ :: _ :: _, _, has => by simp at has

/-- The tree without what is at or below the names that are not kept. -/
def keep (keeps : ν → Bool) (tree : Tree ν δ φ) : Tree ν δ φ where
  entry
    | [] => tree.entry []
    | name :: below => if keeps name then tree.entry (name :: below) else none
  rooted := tree.rooted
  parents
    | [], _, _ => tree.rooted
    | name :: below, last, has => by
      -- A path and its parent begin with the same name.
      dsimp only [List.cons_append] at has ⊢
      split at has
      · rename_i kept
        rw [if_pos kept]
        exact tree.parents (name :: below) last has
      · simp at has

/-- Nothing is removed exactly when every name is kept. -/
theorem keep_eq_iff {keeps : ν → Bool} {tree : Tree ν δ φ} :
    tree.keep keeps = tree ↔ ∀ name, tree.Has [name] → keeps name := by
  constructor
  · intro same name has
    by_contra removed
    rw [Has, ← same] at has
    simp [keep, removed] at has
  · intro kept
    ext1 path
    cases path with
    | nil => rfl
    | cons name below =>
      by_cases has : tree.Has (name :: below)
      · -- What is there is below a name that is there too.
        simp [keep, kept name (@Has.front _ _ _ tree [name] below has)]
      · rw [Has, Bool.not_eq_true, Option.isSome_eq_false_iff, Option.isNone_iff_eq_none] at has
        simp [keep, has]

/-- Nothing is left exactly when no name is kept. -/
theorem keep_empty_iff {keeps : ν → Bool} {tree : Tree ν δ φ} :
    (tree.keep keeps).Empty ↔ ∀ name, tree.Has [name] → ¬keeps name := by
  -- What is left begins with a name that is kept.
  constructor
  · intro gone name has kept
    have left : (tree.keep keeps).Has [name] := by simpa [Has, keep, kept] using has
    simpa using gone [name] left
  · intro removed path has
    cases path with
    | nil => rfl
    | cons name below =>
      exfalso
      simp only [Has, keep] at has
      split at has
      · rename_i kept
        exact removed name (@Has.front _ _ _ tree [name] below has) kept
      · simp at has

end Tree

/--
What a copied entry leaves at its place, where something may be already.

A directory takes the attributes of the one that is copied over it, a file is overwritten, and
neither can take the place of the other.
-/
def lay (overwrite : φ → φ → φ) : Option (Entry δ φ) → Entry δ φ → Option (Entry δ φ)
  | none, new => some new
  | some (.directory _), .directory attributes => some (.directory attributes)
  | some (.file old), .file new => some (.file (overwrite old new))
  | some (.directory _), .file _ => none
  | some (.file _), .directory _ => none

/--
What may be left of a tree when another one has been copied over it.

A copy that fails may have written anything at the paths it copies; it never looks at others.
-/
structure Copied (overwrite : φ → φ → φ) (source target after : Tree ν δ φ)
    (succeeded : Bool) : Prop where
  elsewhere : ∀ path, source.entry path = none → after.entry path = target.entry path
  whole : succeeded = true → ∀ path new, source.entry path = some new →
    ∃ laid, lay overwrite (target.entry path) new = some laid ∧ after.entry path = some laid

/-- Everything in the target is also in the source, and is replaced by what is there. -/
def Covers (overwrite : φ → φ → φ) (source target : Tree ν δ φ) : Prop :=
  ∀ path old, target.entry path = some old →
    ∃ new, source.entry path = some new ∧ lay overwrite (some old) new = some new

section

variable {overwrite : φ → φ → φ} {source target after version : Tree ν δ φ}

/-- A copy makes the target equal to the source exactly when the source covers the target. -/
theorem Copied.eq_source_iff (copied : Copied overwrite source target after true) :
    after = source ↔ Covers overwrite source target := by
  -- Path by path: what only the target has stays, and what both have is laid over.
  constructor
  · rintro rfl path old there
    -- What is in the target and not in the source is left where it is.
    cases entry : after.entry path with
    | none => simpa [entry, there] using copied.elsewhere path entry
    | some new =>
      obtain ⟨laid, written, left⟩ := copied.whole rfl path new entry
      rw [entry, Option.some.injEq] at left
      subst left
      exact ⟨new, rfl, there ▸ written⟩
  · intro covers
    ext1 path
    cases entry : source.entry path with
    | none =>
      rw [copied.elsewhere path entry]
      cases there : target.entry path with
      | none => rfl
      | some old =>
        obtain ⟨new, found, -⟩ := covers path old there
        simp [entry] at found
    | some new =>
      obtain ⟨laid, written, left⟩ := copied.whole rfl path new entry
      rw [left]
      cases there : target.entry path with
      | none => simpa [there, lay] using written.symm
      | some old =>
        obtain ⟨same, found, replaced⟩ := covers path old there
        rw [entry, Option.some.injEq] at found
        subst found
        rw [← written, there, replaced]

/-- What covers two entries laid one over the other covers each of them. -/
theorem lay_lay_iff (layers : ∀ a b c, overwrite (overwrite a b) c = c ↔
      overwrite a c = c ∧ overwrite b c = c) {old new laid last : Entry δ φ}
    (written : lay overwrite (some old) new = some laid) :
    lay overwrite (some laid) last = some last ↔
      lay overwrite (some old) last = some last ∧ lay overwrite (some new) last = some last := by
  -- The two are of one kind, and a third one of the other kind covers neither.
  cases old with
  | directory _ =>
    cases new with
    | directory _ =>
      simp only [lay, Option.some.injEq] at written
      subst written
      cases last <;> simp [lay]
    | file _ => simp [lay] at written
  | file before =>
    cases new with
    | directory _ => simp [lay] at written
    | file between =>
      simp only [lay, Option.some.injEq] at written
      subst written
      cases last with
      | directory _ => simp [lay]
      | file behind => simpa [lay] using layers before between behind

/-- Copying files that lie beside each other goes by their names. -/
theorem copied_flat {attributes old : δ} {new file left : ν → Option φ}
    (elsewhere : ∀ name, new name = none → left name = file name)
    (written : ∀ name content, new name = some content →
      left name = some ((file name).elim content (overwrite · content))) :
    Copied overwrite (Tree.flat attributes new) (Tree.flat old file) (Tree.flat attributes left)
      true where
  elsewhere path missing := by
    -- The directory itself is in every tree, and nothing is below a file.
    match path with
    | [] => cases missing
    | [name] =>
      have unlisted : new name = none := by simpa [Tree.flat] using missing
      simp [Tree.flat, elsewhere name unlisted]
    | _ :: _ :: _ => rfl
  whole _ path entry found := by
    match path with
    | [] =>
      cases found
      exact ⟨_, rfl, rfl⟩
    | [name] =>
      simp only [Tree.flat, Option.map_eq_some_iff] at found
      obtain ⟨content, listed, rfl⟩ := found
      refine ⟨_, ?_, by simp only [Tree.flat, written name content listed]; rfl⟩
      cases there : file name <;> simp [Tree.flat, there, lay]
    | _ :: _ :: _ => cases found

/-- A version covers the result of a copy exactly when it covers both trees. -/
theorem Copied.covers_iff (copied : Copied overwrite source target after true)
    (layers : ∀ a b c, overwrite (overwrite a b) c = c ↔
      overwrite a c = c ∧ overwrite b c = c) :
    Covers overwrite version after ↔
      Covers overwrite version target ∧ Covers overwrite version source := by
  -- At each path the result has what one of the trees has there, or one laid over the other.
  have laid : ∀ path new, source.entry path = some new → ∃ laid,
      lay overwrite (target.entry path) new = some laid ∧ after.entry path = some laid :=
    copied.whole rfl
  constructor
  · intro covers
    constructor
    · intro path old there
      cases entry : source.entry path with
      | none => exact covers path old (by rw [copied.elsewhere path entry, there])
      | some new =>
        obtain ⟨both, written, left⟩ := laid path new entry
        obtain ⟨last, found, replaced⟩ := covers path both left
        exact ⟨last, found, ((lay_lay_iff layers (there ▸ written)).mp replaced).1⟩
    · intro path new entry
      obtain ⟨both, written, left⟩ := laid path new entry
      obtain ⟨last, found, replaced⟩ := covers path both left
      refine ⟨last, found, ?_⟩
      cases there : target.entry path with
      | none =>
        rw [there, lay, Option.some.injEq] at written
        rw [written, replaced]
      | some old => exact ((lay_lay_iff layers (there ▸ written)).mp replaced).2
  · rintro ⟨coversTarget, coversSource⟩ path both left
    cases entry : source.entry path with
    | none => exact coversTarget path both (by rw [← copied.elsewhere path entry, left])
    | some new =>
      obtain ⟨_, written, same⟩ := laid path new entry
      rw [left, Option.some.injEq] at same
      subst same
      obtain ⟨last, found, replaced⟩ := coversSource path new entry
      refine ⟨last, found, ?_⟩
      cases there : target.entry path with
      | none =>
        rw [there, lay, Option.some.injEq] at written
        rw [← written, replaced]
      | some old =>
        obtain ⟨again, located, covered⟩ := coversTarget path old there
        rw [found, Option.some.injEq] at located
        subst located
        exact (lay_lay_iff layers (there ▸ written)).mpr ⟨covered, replaced⟩

/-- A copy leaves the whole source in the target exactly when every file it overwrites is replaced
by the new one. -/
theorem Copied.contains_iff (copied : Copied overwrite source target after true) :
    (∀ path new, source.entry path = some new → after.entry path = some new) ↔
      ∀ path old new, target.entry path = some (.file old) →
        source.entry path = some (.file new) → overwrite old new = new := by
  -- Path by path: an entry of the source is left out only where it is laid over another file.
  constructor
  · intro contains path old new there entry
    obtain ⟨laid, written, left⟩ := copied.whole rfl path _ entry
    rw [contains path _ entry, Option.some.injEq] at left
    simpa [there, lay, ← left] using written
  · intro replaced path new entry
    obtain ⟨laid, written, left⟩ := copied.whole rfl path new entry
    rw [left, ← written]
    cases there : target.entry path with
    | none => rfl
    | some old =>
      rw [there] at written
      -- The two are of one kind, or the copy would have failed.
      cases old with
      | directory _ =>
        cases new with
        | directory _ => rfl
        | file _ => simp [lay] at written
      | file before =>
        cases new with
        | directory _ => simp [lay] at written
        | file behind => rw [lay, replaced path before behind there entry]

end

end Files
