import Esme.Json.CborRoundTrip
import Esme.Json.Sizes

/-! Values that go from one format to the other. -/

namespace Esme

open BinaryFormat

/-- A part that has the same notation in both formats, and none that is shorter. -/
def Json.settled : Json → Bool
  | .numberInteger value => value < 0
  | .numberFloat bits => isFinite bits
  | .binary _ _ => false
  | _ => true

/-- A finite number is a number. -/
theorem isNan_of_isFinite {bits : UInt64} (finite : isFinite bits = true) :
    double.isNan bits.toNat = false := by
  rw [isFinite, decide_eq_true_eq] at finite
  rw [isNan, decide_eq_false_iff_not]
  omega

/-- What is settled is read back from a text as itself. -/
theorem readTextLeaf_settled {value : Json} (settled : value.settled = true) :
    readTextLeaf value = value := by
  cases value with
  | numberInteger number => exact if_neg (Int64.not_le.mpr (of_decide_eq_true settled))
  | numberFloat bits => exact if_pos settled
  | binary bytes subtype => cases settled
  | _ => rfl

/-- The object of a binary value is settled. -/
theorem settled_binaryText (bytes : List UInt8) (subtype : Option UInt64) :
    (binaryText bytes subtype).all Json.settled = true := by
  refine Json.all_object.mpr ⟨rfl, List.forall_mem_cons.mpr ⟨?_, List.forall_mem_singleton.mpr ?_⟩⟩
  · exact Json.all_array.mpr ⟨rfl, List.forall_mem_map.mpr fun _ _ => rfl⟩
  · cases subtype <;> rfl

/-- What was read from a text that was dumped is settled. -/
theorem settled_readText (value : Json) : value.readText.all Json.settled = true := by
  rw [Json.readText]
  -- Only numbers and binary values are changed, and what they become is settled.
  induction value using Json.nested with
  | object members ih =>
    rw [Json.rebuild_object]
    exact Json.all_object.mpr ⟨rfl, List.forall_mem_map.mpr ih⟩
  | array elements ih =>
    rw [Json.rebuild_array]
    exact Json.all_array.mpr ⟨rfl, List.forall_mem_map.mpr ih⟩
  | leaf value notObject notArray =>
    cases value with
    | object members => exact absurd rfl (notObject members)
    | array elements => exact absurd rfl (notArray elements)
    | numberInteger number =>
      show (readTextLeaf (.numberInteger number)).all Json.settled = true
      rw [readTextLeaf]
      split
      · rfl
      · rename_i negative
        exact decide_eq_true (Int64.not_le.mp negative)
    | numberFloat bits =>
      show (readTextLeaf (.numberFloat bits)).all Json.settled = true
      rw [readTextLeaf]
      split
      · rename_i finite
        exact finite
      · rfl
    | binary bytes subtype => exact settled_binaryText bytes subtype
    | _ => rfl

/-- What was read from a text is dumped and read from the text as itself. -/
theorem readText_readText (value : Json) : value.readText.readText = value.readText := by
  have kept : value.readText.rebuild readTextLeaf = value.readText.rebuild id :=
    Json.rebuild_congr (fun _ _ _ => readTextLeaf_settled) (settled_readText value)
  exact kept.trans (Json.rebuild_id _)

/-- A text keeps no more of a value than CBOR does. -/
theorem readText_readBack (value : Json) : value.readBack.readText = value.readText := by
  -- One leaf after the other: what CBOR makes of it has the same text.
  refine Json.rebuild_rebuild (fun value notObject notArray => ?_) value
  cases value with
  | object members => exact absurd rfl (notObject members)
  | array elements => exact absurd rfl (notArray elements)
  | numberInteger number =>
    rw [readBackLeaf, readTextLeaf]
    split
    · rfl
    · -- A negative number is the same in both formats.
      rename_i negative
      exact if_neg negative
  | numberFloat bits =>
    rw [readBackLeaf, readTextLeaf]
    split
    · rename_i nan
      -- A number that is none is written as `null`, whatever its bits.
      have infinite : ¬isFinite bits = true := fun finite => by
        rw [isNan_of_isFinite finite] at nan
        cases nan
      have quiet : ¬isFinite (UInt64.ofNat quietNan) = true := by decide
      rw [if_neg infinite]
      show readTextLeaf (.numberFloat (UInt64.ofNat quietNan)) = .null
      rw [readTextLeaf, if_neg quiet]
    · rfl
  | _ => rfl

/-- What `parse` returns is read back alike from both formats. -/
theorem readBack_textual {value : Json} (textual : value.all Json.textual = true) :
    value.readBack = value.readText := by
  -- The parser returns neither a binary value nor a number that is none.
  refine Json.rebuild_congr (fun value notObject notArray holds => ?_) textual
  cases value with
  | numberFloat bits =>
    have finite : isFinite bits = true := holds
    rw [readBackLeaf, readTextLeaf, isNan_of_isFinite finite, if_pos finite]
    rfl
  | binary bytes subtype => cases holds
  | _ => rfl

/-- What can be dumped can be dumped when it was read back. -/
theorem textsValid_readBack {value : Json} (valid : value.textsValid = true) :
    value.readBack.textsValid = true := by
  -- The induction is on the nesting, and only the leaves are changed by being read back.
  induction value using Json.nested with
  | object members ih =>
    have each := textsValid_object.mp valid
    rw [Json.readBack_object]
    exact textsValid_object.mpr (List.forall_mem_map.mpr fun member inside =>
      ⟨(each member inside).1, ih member inside (each member inside).2⟩)
  | array elements ih =>
    have each := textsValid_array.mp valid
    rw [Json.readBack_array]
    exact textsValid_array.mpr (List.forall_mem_map.mpr fun element inside =>
      ih element inside (each element inside))
  | leaf value notObject notArray =>
    have alone : value.readBack = readBackLeaf value := Json.rebuild_leaf _ notObject notArray
    -- What is read back of a number is a number.
    rw [alone]
    cases value with
    | numberInteger number => rw [readBackLeaf]; split <;> rfl
    | numberFloat bits => rw [readBackLeaf]; split <;> rfl
    | _ => exact valid

/-- The numbers of a value that was read back have the texts that they had. -/
theorem floatText_readBack {grisu2 : UInt64 → Decimal} {strtod : List UInt8 → UInt64}
    {value : Json} (floats : value.all (Json.floatText grisu2 strtod) = true) :
    value.readBack.all (Json.floatText grisu2 strtod) = true := by
  -- The induction is on the nesting, and the only floating-point number that changes is no number.
  induction value using Json.nested with
  | object members ih =>
    rw [Json.readBack_object]
    exact Json.all_object.mpr ⟨rfl, List.forall_mem_map.mpr fun member inside =>
      ih member inside ((Json.all_object.mp floats).2 member inside)⟩
  | array elements ih =>
    rw [Json.readBack_array]
    exact Json.all_array.mpr ⟨rfl, List.forall_mem_map.mpr fun element inside =>
      ih element inside ((Json.all_array.mp floats).2 element inside)⟩
  | leaf value notObject notArray =>
    have alone : value.readBack = readBackLeaf value := Json.rebuild_leaf _ notObject notArray
    rw [alone]
    cases value with
    | numberInteger number => rw [readBackLeaf]; split <;> rfl
    | numberFloat bits =>
      rw [readBackLeaf]
      split
      · -- What is not a number has no text of its own.
        have quiet : isFinite (UInt64.ofNat quietNan) = false := by decide
        show (Json.numberFloat (UInt64.ofNat quietNan)).floatText grisu2 strtod = true
        rw [Json.floatText, quiet]
        rfl
      · exact floats
    | _ => exact floats

/-- Containers that hold whatever an input of some length may stand for. -/
def Containers.Fit (containers : Containers) (length : Nat) : Prop :=
  length ≤ containers.arrayMax ∧ length ≤ containers.objectMax

instance (containers : Containers) (length : Nat) : Decidable (containers.Fit length) :=
  inferInstanceAs (Decidable (_ ∧ _))

/-- What fits is stored. -/
theorem Containers.Fit.stored {containers : Containers} {length : Nat} {value : Json}
    (fit : containers.Fit length) (sized : value.all (Json.sized length length length) = true) :
    value.all (Json.stored containers) = true :=
  Json.all_imp (fun _ holds => Json.sized_mono fit.1 fit.2
    (Nat.le_of_lt (Nat.lt_of_le_of_lt fit.1 containers.arrayMax_lt)) holds) sized

/-- A value that was parsed is written to CBOR and read from it. -/
theorem fromCbor_toCbor_parse (containers : Containers) (strtod : List UInt8 → UInt64)
    {data : List UInt8} {value : Json} (parsed : parse strtod data = .ok value)
    (fit : containers.Fit data.length) :
    fromCbor containers (toCbor value) = .ok value.readText := by
  have textual := parse_result strtod data
  rw [parsed] at textual
  -- The parser returns nothing that CBOR would need a tag for.
  have untagged : value.all Json.untagged = true := Json.all_imp (fun value holds => by
    cases value with
    | binary bytes subtype => cases holds
    | discarded => cases holds
    | _ => rfl) textual
  -- What CBOR keeps of the value is what its text keeps.
  rw [← readBack_textual textual]
  exact fromCbor_written (fit.stored (parse_sized parsed)) untagged

/-- A value that was read from CBOR is dumped, if its texts are valid, and parsed. -/
theorem parse_dump_fromCbor (containers : Containers) (grisu2 : UInt64 → Decimal)
    (strtod : List UInt8 → UInt64) {data : List UInt8} {value : Json} {text : List UInt8}
    (read : fromCbor containers data = .ok value)
    (done : dump (dumpFloat grisu2) value = .ok text)
    (floats : value.all (Json.floatText grisu2 strtod) = true) {rest : List UInt8}
    (ending : Ending rest) : parse strtod (text ++ rest) = .ok value.readText := by
  have sound := fromCbor_result containers data
  rw [read] at sound
  -- What was read from CBOR has ascending keys.
  have ordered : value.all Json.ordered = true := Json.all_imp (fun value holds => by
    obtain ⟨sized, untagged⟩ := Bool.and_eq_true_iff.mp holds
    cases value with
    | object members =>
      simp only [Json.sized, Bool.and_eq_true] at sized
      exact sized.1.1
    | discarded => exact untagged
    | _ => rfl) sound
  exact (written_dump done ordered floats).parse_eq ending

end Esme
