import Mathlib.Data.List.TakeWhile
import Esme.Memory.Buffer

/-! Texts kept in arrays, each of which ends before a terminator. -/

namespace Buffer

variable {α : Type*} {n : Nat}

/-- Store one element at a place; there is no result if the array does not have that place. -/
def store (buffer : Buffer α n) (place : Nat) (value : α) : Option (Buffer α n) :=
  if place < n then some (buffer.blit place [value]) else none

/-- The text in an array ends before the first terminator; there is none without a terminator. -/
def text [DecidableEq α] (terminator : α) (buffer : Buffer α n) : Option (List α) :=
  if terminator ∈ buffer.toList then some (buffer.toList.takeWhile (· ≠ terminator)) else none

/-- Copy a source to the front of an array, put a terminator behind it, and take the text. -/
def terminate [DecidableEq α] (terminator : α) (buffer : Buffer α n) (source : List α) :
    Option (Buffer α n × List α) := do
  let terminated ← (buffer.blit 0 source).store source.length terminator
  let text ← terminated.text terminator
  return (terminated, text)

section

variable [DecidableEq α] {terminator : α} {source : List α}

/-- The text in an array that has a terminator behind a source is within the source. -/
theorem text_eq {buffer : Buffer α n} {rest : List α}
    (content : buffer.toList = source ++ terminator :: rest) :
    buffer.text terminator = some (source.takeWhile (· ≠ terminator)) := by
  have ended : terminator ∈ source ++ terminator :: rest := by simp
  rw [text, content, if_pos ended, List.takeWhile_append]
  -- Either all of the source is taken, and then the terminator ends it, or it ends before that.
  split
  · rename_i whole
    have taken : source.takeWhile (· ≠ terminator) = source :=
      (List.takeWhile_prefix _).eq_of_length whole
    rw [taken]
    simp
  · rfl

/-- A source with room behind it for the terminator is read back up to its first terminator. -/
theorem terminate_inside (terminator : α) (buffer : Buffer α n) (inside : source.length < n) :
    ∃ terminated, buffer.terminate terminator source =
      some (terminated, source.takeWhile (· ≠ terminator)) := by
  -- The two copies are one copy of the source with the terminator behind it.
  have joined : (buffer.blit 0 source).blit source.length [terminator] =
      buffer.blit 0 (source ++ [terminator]) := by
    rw [← blit_append, Nat.zero_add]
  have content : (buffer.blit 0 (source ++ [terminator])).toList =
      source ++ terminator :: buffer.toList.drop (source.length + 1) := by
    rw [blit_toList _ (by simp; omega)]
    simp
  have text := text_eq content
  refine ⟨buffer.blit 0 (source ++ [terminator]), ?_⟩
  simp only [terminate, store, if_pos inside, joined, Option.bind_eq_bind, Option.bind_some, text]
  rfl

/-- A source that fills the array leaves no place for the terminator. -/
theorem terminate_full (terminator : α) (buffer : Buffer α n) (full : n ≤ source.length) :
    buffer.terminate terminator source = none := by
  simp [terminate, store, Nat.not_lt.mpr full]

/-- A text is the whole source exactly when the source has no terminator in it. -/
theorem takeWhile_terminator_iff :
    source.takeWhile (· ≠ terminator) = source ↔ terminator ∉ source := by
  -- All is taken when no element is the terminator.
  rw [List.takeWhile_eq_self_iff]
  constructor
  · intro free member
    simpa using free terminator member
  · intro absent value member
    simp only [decide_eq_true_eq]
    rintro rfl
    exact absent member

end

end Buffer
