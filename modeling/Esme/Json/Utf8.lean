import Mathlib.Data.List.Forall2
import Esme.Json.Lexer

/-! The two decoders of UTF-8 in `json.hpp`, a table and a switch, accept the same texts. -/

namespace Esme

/-- Bytes in some ranges, one byte in each of them. -/
def InRanges : List (UInt8 × UInt8) → List UInt8 → Prop :=
  List.Forall₂ fun range byte => range.1 ≤ byte ∧ byte ≤ range.2

/-- The bytes of one code point, as the switch of the lexer has them. -/
inductive CodepointWord : List UInt8 → Prop where
  | single {byte : UInt8} (small : byte ≤ 0x7f) : CodepointWord [byte]
  | sequence {first : UInt8} {ranges : List (UInt8 × UInt8)} {others : List UInt8}
      (known : utf8Ranges first = some ranges) (inside : InRanges ranges others) :
      CodepointWord (first :: others)

/-- The ranges that a state of the table still expects bytes in. -/
def stateRanges : Nat → List (UInt8 × UInt8)
  | 2 => [(0x80, 0xbf)]
  | 3 => [(0x80, 0xbf), (0x80, 0xbf)]
  | 4 => [(0xa0, 0xbf), (0x80, 0xbf)]
  | 5 => [(0x80, 0x9f), (0x80, 0xbf)]
  | 6 => [(0x90, 0xbf), (0x80, 0xbf), (0x80, 0xbf)]
  | 7 => [(0x80, 0xbf), (0x80, 0xbf), (0x80, 0xbf)]
  | 8 => [(0x80, 0x8f), (0x80, 0xbf), (0x80, 0xbf)]
  | _ => []

/-- What holds of the bytes from 0 to 255 holds of every byte. -/
theorem forall_byte {test : UInt8 → Prop} (each : ∀ value < 256, test (UInt8.ofNat value))
    (byte : UInt8) : test byte := by
  have holds := each byte.toNat byte.toNat_lt
  rwa [UInt8.ofNat_toNat] at holds

/-- Only the accepting state expects nothing. -/
theorem stateRanges_eq_nil {state : Nat} (row : state < 9) (alive : state ≠ utf8Reject) :
    stateRanges state = [] ↔ state = utf8Accept := by
  have rows : ∀ state < 9, state ≠ utf8Reject → (stateRanges state = [] ↔ state = utf8Accept) := by
    decide
  exact rows state row alive

/-- The classes of the bytes, by their ranges. -/
def utf8Class (byte : UInt8) : Nat :=
  if byte ≤ 0x7f then 0
  else if byte ≤ 0x8f then 1
  else if byte ≤ 0x9f then 9
  else if byte ≤ 0xbf then 7
  else if byte ≤ 0xc1 then 8
  else if byte ≤ 0xdf then 2
  else if byte = 0xe0 then 0xa
  else if byte = 0xed then 4
  else if byte ≤ 0xef then 3
  else if byte = 0xf0 then 0xb
  else if byte ≤ 0xf3 then 6
  else if byte = 0xf4 then 5
  else 8

/-- The table of the classes holds the class of each byte. -/
theorem utf8Type_eq (byte : UInt8) : utf8Type byte = utf8Class byte := by
  -- The two hundred and fifty-six entries are compared one by one.
  have types : utf8Types = (List.range 256).map fun value => utf8Class (UInt8.ofNat value) := by
    decide +kernel
  rw [utf8Type, types, List.getD_eq_getElem?_getD, List.getElem?_map,
    List.getElem?_range byte.toNat_lt, Option.map_some, Option.getD_some, UInt8.ofNat_toNat]

/-- The classes of the bytes that a state expects next. -/
def stateClasses : Nat → List Nat
  | 2 | 3 | 7 => [1, 9, 7]
  | 4 => [7]
  | 5 => [1, 9]
  | 6 => [9, 7]
  | 8 => [1]
  | _ => []

/-- A byte is in the range that is expected when its class is. -/
theorem utf8Class_mem : ∀ byte, ∀ state < 9, ∀ range ∈ (stateRanges state).head?,
    range.1 ≤ byte ∧ byte ≤ range.2 ↔ utf8Class byte ∈ stateClasses state := by
  have table : ∀ byte, ∀ state < 9,
      ((stateRanges state).head?.all fun range =>
        decide (range.1 ≤ byte ∧ byte ≤ range.2 ↔ utf8Class byte ∈ stateClasses state)) = true :=
    forall_byte (by decide +kernel)
  intro byte state small range expected
  have row := table byte state small
  rw [Option.mem_def.mp expected] at row
  exact of_decide_eq_true row

/-- A byte up to 0x7f is a code point of its own. -/
theorem utf8Next_single (byte : UInt8) (small : byte ≤ 0x7f) :
    utf8Next utf8Accept byte = utf8Accept := by
  rw [utf8Next, utf8Type_eq]
  revert byte
  exact forall_byte (by decide +kernel)

/-- A larger first byte is refused by both, or the state after it expects what the switch does. -/
theorem utf8Next_first (byte : UInt8) (large : ¬byte ≤ 0x7f) :
    utf8Ranges byte =
      if utf8Next utf8Accept byte = utf8Reject then none
      else some (stateRanges (utf8Next utf8Accept byte)) := by
  simp only [utf8Next, utf8Type_eq]
  revert byte
  exact forall_byte (by decide +kernel)

/-- A byte behind the first one is refused outside of the range that is expected. -/
theorem utf8Next_within {state : Nat} (row : state < 9) {range : UInt8 × UInt8}
    {ranges : List (UInt8 × UInt8)} (expected : stateRanges state = range :: ranges)
    (byte : UInt8) :
    if range.1 ≤ byte ∧ byte ≤ range.2 then
      utf8Next state byte ≠ utf8Reject ∧ stateRanges (utf8Next state byte) = ranges
    else utf8Next state byte = utf8Reject := by
  -- The next state depends on the class of the byte only.
  have rows : ∀ state < 9, stateRanges state ≠ [] → ∀ class_ < 12,
      if class_ ∈ stateClasses state then
        utf8Transitions.getD (state * 16 + class_) utf8Reject ≠ utf8Reject ∧
          stateRanges (utf8Transitions.getD (state * 16 + class_) utf8Reject) =
            (stateRanges state).tail
      else utf8Transitions.getD (state * 16 + class_) utf8Reject = utf8Reject := by
    decide +kernel
  have class_lt := utf8Type_lt byte
  rw [utf8Type_eq] at class_lt
  have holds := rows state row (by rw [expected]; exact List.cons_ne_nil _ _) _ class_lt
  rw [expected, List.tail_cons] at holds
  simp only [utf8Next, utf8Type_eq, utf8Class_mem byte state row range (by rw [expected]; rfl)]
  exact holds

/-- Bytes in the ranges that a state expects are accepted. -/
theorem foldl_inRanges {state : Nat} (row : state < 9) (alive : state ≠ utf8Reject)
    {others : List UInt8} (inside : InRanges (stateRanges state) others) :
    others.foldl utf8Next state = utf8Accept := by
  -- The state after each byte expects the ranges that are left.
  induction others generalizing state with
  | nil => exact (stateRanges_eq_nil row alive).mp (List.forall₂_nil_right_iff.mp inside)
  | cons byte rest ih =>
    obtain ⟨range, ranges, first, later, expected⟩ := List.forall₂_cons_right_iff.mp inside
    have next := utf8Next_within row expected byte
    rw [if_pos first] at next
    exact ih (utf8Next_lt state byte) next.1 (by rw [next.2]; exact later)

/-- A text that is accepted from a state on starts with what the state expects. -/
theorem inRanges_of_foldl {state : Nat} (row : state < 9) (alive : state ≠ utf8Reject)
    {text : List UInt8} (accepted : text.foldl utf8Next state = utf8Accept) :
    ∃ others rest, text = others ++ rest ∧ InRanges (stateRanges state) others ∧
      rest.foldl utf8Next utf8Accept = utf8Accept := by
  -- The induction is on the text, which ends where nothing more is expected.
  induction text generalizing state with
  | nil =>
    have done : state = utf8Accept := accepted
    exact ⟨[], [], rfl, by rw [(stateRanges_eq_nil row alive).mpr done]; exact .nil, rfl⟩
  | cons byte rest ih =>
    cases expected : stateRanges state with
    | nil =>
      have done := (stateRanges_eq_nil row alive).mp expected
      exact ⟨[], byte :: rest, rfl, .nil, done ▸ accepted⟩
    | cons range ranges =>
      have next := utf8Next_within row expected byte
      split at next
      · rename_i first
        obtain ⟨others, after, rfl, later, ended⟩ := ih (utf8Next_lt state byte) next.1 accepted
        exact ⟨byte :: others, after, rfl, .cons first (next.2 ▸ later), ended⟩
      · -- A byte outside of the range would lead to the state that refuses everything.
        rw [List.foldl_cons, next, foldl_reject] at accepted
        cases accepted

/-- The byte in front of others is none of ASCII. -/
theorem utf8Ranges_large {byte : UInt8} {ranges : List (UInt8 × UInt8)}
    (known : utf8Ranges byte = some ranges) : ¬byte ≤ 0x7f := by
  -- All of the ranges of the switch are above those of ASCII.
  intro small
  simp only [utf8Ranges, UInt8.le_iff_toNat_le, ← UInt8.toNat_inj, UInt8.reduceToNat]
    at known small
  rw [if_neg (by omega), if_neg (by omega), if_neg (by omega), if_neg (by omega),
    if_neg (by omega), if_neg (by omega), if_neg (by omega)] at known
  cases known

/-- The table accepts a code point that the switch has, whatever follows it. -/
theorem CodepointWord.utf8Valid_append {word : List UInt8} (one : CodepointWord word)
    (rest : List UInt8) : utf8Valid (word ++ rest) = utf8Valid rest := by
  -- From the accepting state the bytes of a codepoint lead back to it.
  have accepted : word.foldl utf8Next utf8Accept = utf8Accept := by
    cases one with
    | single small => exact utf8Next_single _ small
    | @sequence first ranges others known inside =>
      rw [utf8Next_first first (utf8Ranges_large known)] at known
      split at known
      · cases known
      · rename_i alive
        cases known
        exact foldl_inRanges (utf8Next_lt _ _) alive inside
  rw [utf8Valid, List.foldl_append, accepted, utf8Valid]

/-- A text that the table accepts is empty or starts with a code point that the switch has. -/
theorem utf8Valid_cases {text : List UInt8} (valid : utf8Valid text = true) :
    text = [] ∨ ∃ word rest, CodepointWord word ∧ utf8Valid rest = true ∧ text = word ++ rest := by
  cases text with
  | nil => exact .inl rfl
  | cons byte rest =>
    refine .inr ?_
    -- The first byte tells whether others belong to it.
    by_cases small : byte ≤ 0x7f
    · exact ⟨[byte], rest, .single small,
        by rwa [← (CodepointWord.single small).utf8Valid_append], rfl⟩
    · have accepted := beq_iff_eq.mp valid
      rw [List.foldl_cons] at accepted
      have known := utf8Next_first byte small
      by_cases refused : utf8Next utf8Accept byte = utf8Reject
      · rw [refused, foldl_reject] at accepted
        cases accepted
      · rw [if_neg refused] at known
        obtain ⟨others, after, rfl, inside, ended⟩ :=
          inRanges_of_foldl (utf8Next_lt _ _) refused accepted
        exact ⟨byte :: others, after, .sequence known inside, beq_iff_eq.mpr ended, rfl⟩

/-- A valid text is taken apart into its code points. -/
theorem utf8Valid_induction {motive : List UInt8 → Prop} (nil : motive [])
    (append : ∀ word rest, CodepointWord word → motive rest → motive (word ++ rest))
    (text : List UInt8) (valid : utf8Valid text = true) : motive text := by
  -- Every code point has a byte, so what is left is shorter.
  rcases utf8Valid_cases valid with rfl | ⟨word, rest, one, later, rfl⟩
  · exact nil
  · have shorter : rest.length < (word ++ rest).length := by
      have positive : 0 < word.length := by cases one <;> exact Nat.succ_pos _
      rw [List.length_append]
      omega
    exact append word rest one (utf8Valid_induction nil append rest later)
termination_by text.length

/-- Texts that are valid are valid one behind the other. -/
theorem utf8Valid_append {text other : List UInt8} (valid : utf8Valid text = true)
    (later : utf8Valid other = true) : utf8Valid (text ++ other) = true := by
  rw [utf8Valid, List.foldl_append, beq_iff_eq.mp valid]
  exact later

/-- Numbers in a range are bytes in the range. -/
theorem ofNat_mem_range (low high : Nat) {number : Nat} (least : low ≤ number)
    (most : number ≤ high) (small : high < 256) :
    UInt8.ofNat low ≤ UInt8.ofNat number ∧ UInt8.ofNat number ≤ UInt8.ofNat high := by
  simp only [UInt8.le_iff_toNat_le, UInt8.toNat_ofNat']
  omega

/-- What the lexer adds for a code point is one, unless it is a surrogate. -/
theorem codepointWord_codepointBytes {codepoint : Nat} (known : codepoint < 0x110000)
    (scalar : ¬(0xd800 ≤ codepoint ∧ codepoint ≤ 0xdfff)) :
    CodepointWord (codepointBytes codepoint) := by
  -- The bytes behind the first one hold six bits each.
  have continuation : ∀ shift, (0x80 : UInt8) ≤ UInt8.ofNat (0x80 + codepoint / 2 ^ shift % 0x40) ∧
      UInt8.ofNat (0x80 + codepoint / 2 ^ shift % 0x40) ≤ 0xbf := fun shift =>
    ofNat_mem_range 0x80 0xbf (by omega) (by omega) (by omega)
  rw [codepointBytes]
  split
  · rename_i small
    exact .single (ofNat_mem_range 0 0x7f (by omega) (by omega) (by omega)).2
  split
  · -- Two bytes, of which the first one holds five bits.
    have first : ∀ value < 0x20, 2 ≤ value →
        utf8Ranges (UInt8.ofNat (0xc0 + value)) = some [(0x80, 0xbf)] := by decide +kernel
    exact .sequence (first _ (by omega) (by omega)) (.cons (continuation 0) .nil)
  split
  · -- Three bytes; the second one keeps out what is shorter, and the surrogates.
    have first : ∀ value < 0x10, utf8Ranges (UInt8.ofNat (0xe0 + value)) =
        some [if value = 0 then (0xa0, 0xbf) else if value = 0xd then (0x80, 0x9f)
          else (0x80, 0xbf), (0x80, 0xbf)] := by decide +kernel
    refine .sequence (first _ (by omega)) (.cons ?_ (.cons (continuation 0) .nil))
    split
    · exact ofNat_mem_range 0xa0 0xbf (by omega) (by omega) (by omega)
    split
    · exact ofNat_mem_range 0x80 0x9f (by omega) (by omega) (by omega)
    · exact continuation 6
  · -- Four bytes; the second one keeps out what is shorter, and what is too large.
    have first : ∀ value < 5, utf8Ranges (UInt8.ofNat (0xf0 + value)) =
        some [if value = 0 then (0x90, 0xbf) else if value = 4 then (0x80, 0x8f)
          else (0x80, 0xbf), (0x80, 0xbf), (0x80, 0xbf)] := by decide +kernel
    refine .sequence (first _ (by omega))
      (.cons ?_ (.cons (continuation 6) (.cons (continuation 0) .nil)))
    split
    · exact ofNat_mem_range 0x90 0xbf (by omega) (by omega) (by omega)
    split
    · exact ofNat_mem_range 0x80 0x8f (by omega) (by omega) (by omega)
    · exact continuation 12

end Esme
