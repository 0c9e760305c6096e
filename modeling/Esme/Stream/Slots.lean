import Mathlib.Tactic.TypeStar

/-! Numbered slots: lists of which one entry changes at a time, or which grow at the end. -/

namespace Slots

variable {α : Type*} {holds : Nat → α → Prop} {slots : List α}

/-- What holds of every other slot, and of a new value in one, holds of all slots. -/
theorem forall_set {slot : Nat} {value : α}
    (others : ∀ number item, number ≠ slot → slots[number]? = some item → holds number item)
    (placed : holds slot value) :
    ∀ number item, (slots.set slot value)[number]? = some item → holds number item := by
  -- What is found behind the change is the new value, or was there before in another slot.
  intro number item found
  rw [List.getElem?_set] at found
  split at found
  · rename_i same
    split at found
    · cases found
      exact same ▸ placed
    · cases found
  · rename_i different
    exact others number item (Ne.symm different) found

/-- What holds of every slot, and of a new one behind them, holds of all slots. -/
theorem forall_concat {value : α}
    (others : ∀ number item, slots[number]? = some item → holds number item)
    (placed : holds slots.length value) :
    ∀ number item, (slots ++ [value])[number]? = some item → holds number item := by
  -- The old slots keep their numbers, and the new one has the next.
  intro number item found
  rw [List.getElem?_append] at found
  split at found
  · exact others number item found
  · -- Behind the slots so far there is only the new one.
    rename_i behind
    rw [List.getElem?_singleton] at found
    split at found
    · rename_i first
      cases found
      have last : number = slots.length := by omega
      exact last ▸ placed
    · cases found

/-- A slot that is set holds the new value. -/
theorem getElem?_set_of_some {slot : Nat} {before : α} (known : slots[slot]? = some before)
    (value : α) : (slots.set slot value)[slot]? = some value := by
  -- Setting a slot that is not there would do nothing.
  obtain ⟨inside, -⟩ := List.getElem?_eq_some_iff.mp known
  rw [List.getElem?_set_self inside]

/-- A slot is unchanged behind a new one. -/
theorem getElem?_concat_of_some {slot : Nat} {item : α} (known : slots[slot]? = some item)
    (value : α) : (slots ++ [value])[slot]? = some item := by
  -- What is found lies in front of the new slot.
  obtain ⟨inside, -⟩ := List.getElem?_eq_some_iff.mp known
  rw [List.getElem?_append_left inside, known]

end Slots
