import Mathlib.Logic.Basic
import Mathlib.Tactic.TypeStar

/-! The values of `json.hpp` and `dump` with its default arguments. -/

namespace Esme

/-- A value of `json`; texts are byte strings, floating-point numbers their 64 bits. -/
inductive Json where
  | null
  | boolean (value : Bool)
  | numberInteger (value : Int64)
  | numberUnsigned (value : UInt64)
  | numberFloat (bits : UInt64)
  | string (text : List UInt8)
  | array (elements : List Json)
  /-- the members in the order of the map that holds them -/
  | object (members : List (List UInt8 × Json))
  | binary (bytes : List UInt8) (subtype : Option UInt64)
  | discarded

/-- The exceptions of `json.hpp` that the bridge can meet. -/
inductive JsonException where
  /-- `parse_error` with its id, thrown by `from_cbor` and `parse` -/
  | parseError (id : Nat)
  /-- `type_error` 316, "invalid UTF-8 byte at index" -/
  | invalidUtf8Byte (index : Nat) (byte : UInt8)
  /-- `type_error` 316, "incomplete UTF-8 string; last byte" -/
  | incompleteUtf8String (lastByte : UInt8)
  deriving DecidableEq

/-- `UTF8_ACCEPT` -/
def utf8Accept : Nat := 0

/-- `UTF8_REJECT` -/
def utf8Reject : Nat := 1

/-- The classes of the 256 bytes, the first part of `utf8d`. -/
def utf8Types : List Nat :=
  List.replicate 128 0 ++ List.replicate 16 1 ++ List.replicate 16 9 ++ List.replicate 32 7 ++
    [8, 8] ++ List.replicate 30 2 ++
    [0xa, 0x3, 0x3, 0x3, 0x3, 0x3, 0x3, 0x3, 0x3, 0x3, 0x3, 0x3, 0x3, 0x4, 0x3, 0x3] ++
    [0xb, 0x6, 0x6, 0x6, 0x5, 0x8, 0x8, 0x8, 0x8, 0x8, 0x8, 0x8, 0x8, 0x8, 0x8, 0x8]

/-- The class of a byte. -/
def utf8Type (byte : UInt8) : Nat := utf8Types.getD byte.toNat 8

/-- The transitions, the second part of `utf8d`: sixteen entries for each of the states 0 to 8. -/
def utf8Transitions : List Nat := [
  0x0, 0x1, 0x2, 0x3, 0x5, 0x8, 0x7, 0x1, 0x1, 0x1, 0x4, 0x6, 0x1, 0x1, 0x1, 0x1,
  1, 1, 1, 1, 1, 1, 1, 1, 1, 1, 1, 1, 1, 1, 1, 1,
  1, 0, 1, 1, 1, 1, 1, 0, 1, 0, 1, 1, 1, 1, 1, 1,
  1, 2, 1, 1, 1, 1, 1, 2, 1, 2, 1, 1, 1, 1, 1, 1,
  1, 1, 1, 1, 1, 1, 1, 2, 1, 1, 1, 1, 1, 1, 1, 1,
  1, 2, 1, 1, 1, 1, 1, 1, 1, 2, 1, 1, 1, 1, 1, 1,
  1, 1, 1, 1, 1, 1, 1, 3, 1, 3, 1, 1, 1, 1, 1, 1,
  1, 3, 1, 1, 1, 1, 1, 3, 1, 3, 1, 1, 1, 1, 1, 1,
  1, 3, 1, 1, 1, 1, 1, 1, 1, 1, 1, 1, 1, 1, 1, 1]

/-- The state `decode` moves to. -/
def utf8Next (state : Nat) (byte : UInt8) : Nat :=
  utf8Transitions.getD (state * 16 + utf8Type byte) utf8Reject

/-- The code point `decode` has after a byte, complete once the state accepts. -/
def utf8Codepoint (state : Nat) (codep : UInt32) (byte : UInt8) : UInt32 :=
  if state ≠ utf8Accept then (byte.toUInt32 &&& (0x3f : UInt32)) ||| (codep <<< (6 : UInt32))
  else ((0xff : UInt32) >>> UInt32.ofNat (utf8Type byte)) &&& byte.toUInt32

/-- Text written by the serializer. -/
def ascii (text : List Char) : List UInt8 := text.map fun letter => UInt8.ofNat letter.toNat

/-- One lower-case hexadecimal digit. -/
def hexDigit (value : Nat) : UInt8 :=
  if value < 10 then UInt8.ofNat (0x30 + value) else UInt8.ofNat (0x61 + (value - 10))

/-- What `dump_escaped` writes when a code point is complete: an escape, or its last byte. -/
def escapeCodepoint (codepoint : UInt32) (byte : UInt8) : List UInt8 :=
  -- The cases of the switch in its order; only control characters have a `\u` escape here.
  if codepoint = 0x08 then ascii ['\\', 'b']
  else if codepoint = 0x09 then ascii ['\\', 't']
  else if codepoint = 0x0a then ascii ['\\', 'n']
  else if codepoint = 0x0c then ascii ['\\', 'f']
  else if codepoint = 0x0d then ascii ['\\', 'r']
  else if codepoint = 0x22 then [0x5c, 0x22]
  else if codepoint = 0x5c then [0x5c, 0x5c]
  else if codepoint ≤ 0x1f then
    ascii ['\\', 'u', '0', '0'] ++
      [hexDigit (codepoint.toNat / 16), hexDigit (codepoint.toNat % 16)]
  else [byte]

/-- The loop of `dump_escaped` from its index on; `lastByte` is the byte before the index. -/
def dumpEscapedFrom (state : Nat) (codepoint : UInt32) (index : Nat) (lastByte : UInt8) :
    List UInt8 → Except JsonException (List UInt8)
  | [] =>
    if state = utf8Accept then .ok [] else .error (.incompleteUtf8String lastByte)
  | byte :: rest =>
    let next := utf8Next state byte
    let codepoint := utf8Codepoint state codepoint byte
    if next = utf8Accept then
      (dumpEscapedFrom next codepoint (index + 1) byte rest).map
        (escapeCodepoint codepoint byte ++ ·)
    else if next = utf8Reject then .error (.invalidUtf8Byte index byte)
    else
      -- An incomplete code point is copied byte by byte.
      (dumpEscapedFrom next codepoint (index + 1) byte rest).map (byte :: ·)

/-- `dump_escaped` with the strict error handler -/
def dumpEscaped (text : List UInt8) : Except JsonException (List UInt8) :=
  dumpEscapedFrom utf8Accept 0 0 0 text

/-- `dump_integer` -/
def dumpInteger (value : Int) : List UInt8 :=
  if value < 0 then 0x2d :: ascii (Nat.toDigits 10 value.natAbs)
  else ascii (Nat.toDigits 10 value.natAbs)

/-- The bytes of a binary value, separated by commas. -/
def dumpBytes : List UInt8 → List UInt8
  -- Every byte but the last one is followed by a comma.
  | [] => []
  | [byte] => dumpInteger byte.toNat
  | byte :: rest => dumpInteger byte.toNat ++ 0x2c :: dumpBytes rest

/-- The object a binary value is written as: its bytes, and its subtype if it has one. -/
def dumpBinary (bytes : List UInt8) (subtype : Option UInt64) : List UInt8 :=
  -- Byte values 0x7b, 0x22 and 0x5b open the object, a key and the array.
  let subtypeText :=
    match subtype with
    | some subtype => dumpInteger subtype.toNat
    | none => ascii ['n', 'u', 'l', 'l']
  [0x7b, 0x22] ++ ascii ['b', 'y', 't', 'e', 's'] ++ [0x22, 0x3a, 0x5b] ++ dumpBytes bytes ++
    [0x5d, 0x2c, 0x22] ++ ascii ['s', 'u', 'b', 't', 'y', 'p', 'e'] ++ [0x22, 0x3a] ++
    subtypeText ++ [0x7d]

mutual

/-- `dump` without pretty-printing; floats are written by the function given to it. -/
def dump (dumpFloat : UInt64 → List UInt8) : Json → Except JsonException (List UInt8)
  -- Empty objects and arrays are written by branches of their own.
  | .object members =>
    if members.isEmpty then .ok [0x7b, 0x7d]
    else (dumpMembers dumpFloat members).map fun text => 0x7b :: (text ++ [0x7d])
  | .array elements =>
    if elements.isEmpty then .ok [0x5b, 0x5d]
    else (dumpElements dumpFloat elements).map fun text => 0x5b :: (text ++ [0x5d])
  | .string text => (dumpEscaped text).map fun text => 0x22 :: (text ++ [0x22])
  | .binary bytes subtype => .ok (dumpBinary bytes subtype)
  | .boolean true => .ok (ascii ['t', 'r', 'u', 'e'])
  | .boolean false => .ok (ascii ['f', 'a', 'l', 's', 'e'])
  | .numberInteger value => .ok (dumpInteger value.toInt)
  | .numberUnsigned value => .ok (dumpInteger value.toNat)
  | .numberFloat bits => .ok (dumpFloat bits)
  | .discarded => .ok (ascii ['<', 'd', 'i', 's', 'c', 'a', 'r', 'd', 'e', 'd', '>'])
  | .null => .ok (ascii ['n', 'u', 'l', 'l'])

/-- The elements of an array, separated by commas. -/
def dumpElements (dumpFloat : UInt64 → List UInt8) :
    List Json → Except JsonException (List UInt8)
  -- The last element has no comma behind it.
  | [] => .ok []
  | element :: rest =>
    match dump dumpFloat element with
    | .error error => .error error
    | .ok text =>
      if rest.isEmpty then .ok text
      else (dumpElements dumpFloat rest).map fun others => text ++ 0x2c :: others

/-- The members of an object, separated by commas. -/
def dumpMembers (dumpFloat : UInt64 → List UInt8) :
    List (List UInt8 × Json) → Except JsonException (List UInt8)
  -- The key is escaped before the value is dumped, so its exception comes first.
  | [] => .ok []
  | (key, value) :: rest =>
    match dumpEscaped key with
    | .error error => .error error
    | .ok name =>
      match dump dumpFloat value with
      | .error error => .error error
      | .ok text =>
        if rest.isEmpty then .ok (0x22 :: name ++ [0x22, 0x3a] ++ text)
        else (dumpMembers dumpFloat rest).map fun others =>
          0x22 :: name ++ [0x22, 0x3a] ++ text ++ 0x2c :: others

end

/-- A byte string on which `decode` ends accepting. -/
def utf8Valid (text : List UInt8) : Bool := text.foldl utf8Next utf8Accept == utf8Accept

mutual

/-- Every text in the value, keys included, is valid UTF-8. -/
def Json.textsValid : Json → Bool
  | .object members => membersValid members
  | .array elements => elementsValid elements
  | .string text => utf8Valid text
  | _ => true

/-- Every text in the elements is valid. -/
def elementsValid : List Json → Bool
  | [] => true
  | element :: rest => element.textsValid && elementsValid rest

/-- Every key and every text in the members is valid. -/
def membersValid : List (List UInt8 × Json) → Bool
  | [] => true
  | (key, value) :: rest => utf8Valid key && value.textsValid && membersValid rest

end

/-- There are twelve classes of bytes. -/
theorem utf8Type_lt (byte : UInt8) : utf8Type byte < 12 := by
  have classes : ∀ entry ∈ utf8Types, entry < 12 := by decide +kernel
  -- What is not in the table is an eight.
  rw [utf8Type, List.getD_eq_getElem?_getD]
  cases found : utf8Types[byte.toNat]? with
  | none => decide
  | some entry => exact classes entry (List.mem_of_getElem? found)

/-- A rejected string stays rejected. -/
theorem utf8Next_reject (byte : UInt8) : utf8Next utf8Reject byte = utf8Reject := by
  -- The row of the rejecting state leads nowhere else.
  have row : ∀ column < 12, utf8Transitions.getD (utf8Reject * 16 + column) utf8Reject =
      utf8Reject := by decide
  exact row _ (utf8Type_lt byte)

/-- A rejected string stays rejected whatever follows. -/
theorem foldl_reject (text : List UInt8) : text.foldl utf8Next utf8Reject = utf8Reject := by
  induction text with
  | nil => rfl
  | cons byte rest ih => rw [List.foldl_cons, utf8Next_reject, ih]

/-- The loop ends without an exception exactly when `decode` ends accepting. -/
theorem dumpEscapedFrom_isOk (state : Nat) (codepoint : UInt32) (index : Nat) (lastByte : UInt8)
    (text : List UInt8) :
    (dumpEscapedFrom state codepoint index lastByte text).isOk =
      (text.foldl utf8Next state == utf8Accept) := by
  -- The state moves along the text, so everything the loop carries stays quantified over.
  induction text generalizing state codepoint index lastByte with
  | nil =>
    by_cases accepting : state = utf8Accept <;>
      simp [dumpEscapedFrom, accepting, Except.isOk, Except.toBool]
  | cons byte rest ih =>
    simp only [dumpEscapedFrom, List.foldl_cons]
    split
    · rw [← ih (utf8Next state byte) (utf8Codepoint state codepoint byte) (index + 1) byte]
      cases dumpEscapedFrom _ _ _ _ rest <;> rfl
    split
    · rename_i rejected
      rw [rejected, foldl_reject]
      rfl
    · rw [← ih (utf8Next state byte) (utf8Codepoint state codepoint byte) (index + 1) byte]
      cases dumpEscapedFrom _ _ _ _ rest <;> rfl

/-- A text can be written exactly when it is valid UTF-8. -/
theorem dumpEscaped_isOk (text : List UInt8) : (dumpEscaped text).isOk = utf8Valid text :=
  dumpEscapedFrom_isOk _ _ _ _ text

/-- Mapping the text of a result does not change whether it is one. -/
theorem isOk_map {ε α β : Type*} (f : α → β) (result : Except ε α) :
    (result.map f).isOk = result.isOk := by
  cases result <;> rfl

mutual

/-- `dump` throws exactly on the values that hold a text that is not valid UTF-8. -/
theorem dump_isOk (dumpFloat : UInt64 → List UInt8) :
    ∀ value, (dump dumpFloat value).isOk = value.textsValid
  -- An object or an array with no members is written, and holds no text.
  | .object members => by
    rw [Json.textsValid, ← dumpMembers_isOk dumpFloat members, dump]
    cases members with
    | nil => rfl
    | cons member rest => exact isOk_map _ _
  | .array elements => by
    rw [Json.textsValid, ← dumpElements_isOk dumpFloat elements, dump]
    cases elements with
    | nil => rfl
    | cons element rest => exact isOk_map _ _
  | .string text => by
    rw [dump, Json.textsValid, ← dumpEscaped_isOk]
    exact isOk_map _ _
  | .binary _ _ | .boolean true | .boolean false | .numberInteger _ | .numberUnsigned _
  | .numberFloat _ | .discarded | .null => rfl

/-- The elements of an array can be written when each of them can. -/
theorem dumpElements_isOk (dumpFloat : UInt64 → List UInt8) :
    ∀ elements, (dumpElements dumpFloat elements).isOk = elementsValid elements
  -- The first element that throws ends the array, as it ends the conjunction.
  | [] => rfl
  | element :: rest => by
    rw [elementsValid, ← dump_isOk dumpFloat element, ← dumpElements_isOk dumpFloat rest,
      dumpElements]
    cases dump dumpFloat element with
    | error error => rfl
    | ok text =>
      cases rest with
      | nil => rfl
      | cons next others => exact isOk_map _ _

/-- The members of an object can be written when each key and each value can. -/
theorem dumpMembers_isOk (dumpFloat : UInt64 → List UInt8) :
    ∀ members, (dumpMembers dumpFloat members).isOk = membersValid members
  -- Key, value and the other members are tried in the order they are conjoined.
  | [] => rfl
  | (key, value) :: rest => by
    rw [membersValid, ← dumpEscaped_isOk, ← dump_isOk dumpFloat value,
      ← dumpMembers_isOk dumpFloat rest, dumpMembers]
    cases dumpEscaped key with
    | error error => rfl
    | ok name =>
      cases dump dumpFloat value with
      | error error => rfl
      | ok text =>
        cases rest with
        | nil => rfl
        | cons next others => exact isOk_map _ _

end

/-- The byte `'\n'` -/
def newline : UInt8 := 0x0a

/-- The next state is one of the nine rows of the table. -/
theorem utf8Next_lt (state : Nat) (byte : UInt8) : utf8Next state byte < 9 := by
  -- None of the entries is larger than 8, and neither is the rejecting state.
  have entries : ∀ entry ∈ utf8Transitions, entry < 9 := by decide +kernel
  rw [utf8Next, List.getD_eq_getElem?_getD]
  cases found : utf8Transitions[state * 16 + utf8Type byte]? with
  | none => decide
  | some entry => exact entries entry (List.mem_of_getElem? found)

/-- A newline is accepted between two code points only. -/
theorem utf8Next_newline {state : Nat} (row : state < 9) :
    utf8Next state newline = if state = utf8Accept then utf8Accept else utf8Reject := by
  -- One column of the table, state by state.
  have rows : ∀ state < 9, utf8Next state newline =
      if state = utf8Accept then utf8Accept else utf8Reject := by decide +kernel
  exact rows state row

/-- A hexadecimal digit is no newline. -/
theorem hexDigit_ne_newline {value : Nat} (small : value < 16) : hexDigit value ≠ newline := by
  have digits : ∀ value < 16, hexDigit value ≠ newline := by decide +kernel
  exact digits value small

/-- A complete code point is written without a newline, unless it is a copied newline. -/
theorem escapeCodepoint_no_newline (codepoint : UInt32) {byte : UInt8}
    (escaped : byte = newline → codepoint = 0x0a) :
    newline ∉ escapeCodepoint codepoint byte := by
  -- The branches are those of the switch, and each writes bytes that are known.
  unfold escapeCodepoint
  split
  · decide
  split
  · decide
  split
  · decide
  rename_i other
  split
  · decide
  split
  · decide
  split
  · decide
  split
  · decide
  split
  · -- A control character becomes two hexadecimal digits behind a fixed prefix.
    rename_i control
    have bound : codepoint.toNat ≤ 31 := UInt32.le_iff_toNat_le.mp control
    simp only [List.mem_append, List.mem_cons, List.not_mem_nil, or_false, not_or]
    exact ⟨by decide, (hexDigit_ne_newline (by omega)).symm,
      (hexDigit_ne_newline (by omega)).symm⟩
  · simp only [List.mem_singleton]
    exact fun same => other (escaped same.symm)

/-- Mapping a result that satisfies something can only give one that satisfies its image. -/
theorem map_eq_ok {ε α β : Type*} {f : α → β} {result : Except ε α} {value : β}
    (mapped : result.map f = .ok value) : ∃ before, result = .ok before ∧ f before = value := by
  cases result with
  | error error => cases mapped
  | ok before => exact ⟨before, rfl, Except.ok.inj mapped⟩

/-- The loop writes no newline. -/
theorem dumpEscapedFrom_no_newline {state : Nat} (row : state < 9) (codepoint : UInt32)
    (index : Nat) (lastByte : UInt8) {text written : List UInt8}
    (done : dumpEscapedFrom state codepoint index lastByte text = .ok written) :
    newline ∉ written := by
  -- The state stays in the table, and everything else the loop carries is arbitrary.
  induction text generalizing state codepoint index lastByte written with
  | nil =>
    rw [dumpEscapedFrom] at done
    split at done
    · cases done; simp
    · cases done
  | cons byte rest ih =>
    simp only [dumpEscapedFrom] at done
    have next := utf8Next_lt state byte
    split at done
    · -- A newline can only be accepted as a code point of its own, which is then escaped.
      rename_i accepted
      obtain ⟨others, later, rfl⟩ := map_eq_ok done
      rw [List.mem_append, not_or]
      refine ⟨escapeCodepoint_no_newline _ ?_, ih next _ _ _ later⟩
      rintro rfl
      rw [utf8Next_newline row] at accepted
      split at accepted
      · rename_i start
        rw [start, utf8Codepoint, if_neg (by simp)]
        decide
      · cases accepted
    split at done
    · cases done
    · -- A byte inside a code point is no newline, since that would be rejected.
      rename_i unaccepted unrejected
      obtain ⟨others, later, rfl⟩ := map_eq_ok done
      rw [List.mem_cons, not_or]
      refine ⟨?_, ih next _ _ _ later⟩
      rintro rfl
      rw [utf8Next_newline row] at unaccepted unrejected
      split at unaccepted
      · exact unaccepted rfl
      · rename_i inside
        exact unrejected (if_neg inside)

/-- An escaped text holds no newline. -/
theorem dumpEscaped_no_newline {text written : List UInt8} (done : dumpEscaped text = .ok written) :
    newline ∉ written :=
  dumpEscapedFrom_no_newline (by decide) _ _ _ done

/-- A number is written in digits, without a newline. -/
theorem digits_no_newline (value : Nat) : newline ∉ ascii (Nat.toDigits 10 value) := by
  intro member
  obtain ⟨letter, digit, same⟩ := List.mem_map.mp member
  have isDigit := Nat.isDigit_of_mem_toDigits (by decide) (by decide) digit
  -- The digits lie between 48 and 57, so they are bytes other than the newline.
  simp only [Char.isDigit, Bool.and_eq_true, decide_eq_true_eq] at isDigit
  have lower : 48 ≤ letter.toNat := UInt32.le_iff_toNat_le.mp isDigit.1
  have upper : letter.toNat ≤ 57 := UInt32.le_iff_toNat_le.mp isDigit.2
  have value := congrArg UInt8.toNat same
  rw [UInt8.toNat_ofNat', Nat.mod_eq_of_lt (by omega)] at value
  have ten : letter.toNat = 10 := value
  omega

/-- An integer is written without a newline. -/
theorem dumpInteger_no_newline (value : Int) : newline ∉ dumpInteger value := by
  -- A negative number has a minus sign in front of its digits.
  unfold dumpInteger
  split
  · rw [List.mem_cons, not_or]
    exact ⟨by decide, digits_no_newline _⟩
  · exact digits_no_newline _

/-- The bytes of a binary value are written without a newline. -/
theorem dumpBytes_no_newline (bytes : List UInt8) : newline ∉ dumpBytes bytes := by
  -- The induction follows the equations, which look one byte ahead.
  induction bytes with
  | nil => simp [dumpBytes]
  | cons byte rest ih =>
    cases rest with
    | nil => exact dumpInteger_no_newline _
    | cons next others =>
      rw [dumpBytes, List.mem_append, List.mem_cons, not_or, not_or]
      · exact ⟨dumpInteger_no_newline _, by decide, ih⟩
      · exact List.cons_ne_nil next others

/-- A binary value is written without a newline. -/
theorem dumpBinary_no_newline (bytes : List UInt8) (subtype : Option UInt64) :
    newline ∉ dumpBinary bytes subtype := by
  -- All parts but the bytes and the subtype are fixed.
  have inside := dumpBytes_no_newline bytes
  unfold dumpBinary
  simp only [List.mem_append, not_or]
  refine ⟨⟨⟨⟨⟨⟨⟨⟨by decide, by decide⟩, by decide⟩, inside⟩, by decide⟩, by decide⟩,
    by decide⟩, ?_⟩, by decide⟩
  cases subtype with
  | none => decide
  | some subtype => exact dumpInteger_no_newline _

mutual

/-- `dump` writes no newline, whatever the value. -/
theorem dump_no_newline {dumpFloat : UInt64 → List UInt8}
    (floats : ∀ bits, newline ∉ dumpFloat bits) :
    ∀ value written, dump dumpFloat value = .ok written → newline ∉ written
  -- Objects, arrays and texts put their brackets and quotes around what holds no newline.
  | .object members, written, done => by
    rw [dump] at done
    split at done
    · cases done; decide
    · obtain ⟨text, inside, rfl⟩ := map_eq_ok done
      have silent := dumpMembers_no_newline floats members text inside
      simp only [List.mem_cons, List.mem_append, List.not_mem_nil, or_false, not_or]
      exact ⟨by decide, silent, by decide⟩
  | .array elements, written, done => by
    rw [dump] at done
    split at done
    · cases done; decide
    · obtain ⟨text, inside, rfl⟩ := map_eq_ok done
      have silent := dumpElements_no_newline floats elements text inside
      simp only [List.mem_cons, List.mem_append, List.not_mem_nil, or_false, not_or]
      exact ⟨by decide, silent, by decide⟩
  | .string text, written, done => by
    rw [dump] at done
    obtain ⟨escaped, inside, rfl⟩ := map_eq_ok done
    have silent := dumpEscaped_no_newline inside
    simp only [List.mem_cons, List.mem_append, List.not_mem_nil, or_false, not_or]
    exact ⟨by decide, silent, by decide⟩
  | .binary bytes subtype, written, done => by
    cases done
    exact dumpBinary_no_newline bytes subtype
  | .boolean true, written, done => by cases done; decide
  | .boolean false, written, done => by cases done; decide
  | .numberInteger value, written, done => by cases done; exact dumpInteger_no_newline _
  | .numberUnsigned value, written, done => by cases done; exact dumpInteger_no_newline _
  | .numberFloat bits, written, done => by cases done; exact floats bits
  | .discarded, written, done => by cases done; decide
  | .null, written, done => by cases done; decide

/-- The elements of an array are written without a newline. -/
theorem dumpElements_no_newline {dumpFloat : UInt64 → List UInt8}
    (floats : ∀ bits, newline ∉ dumpFloat bits) :
    ∀ elements written, dumpElements dumpFloat elements = .ok written → newline ∉ written
  -- An array that is written has had each of its elements written.
  | [], written, done => by cases done; simp
  | element :: rest, written, done => by
    rw [dumpElements] at done
    cases first : dump dumpFloat element with
    | error error => rw [first] at done; cases done
    | ok text =>
      have silent := dump_no_newline floats element text first
      rw [first] at done
      dsimp only at done
      split at done
      · cases done; exact silent
      · obtain ⟨others, later, rfl⟩ := map_eq_ok done
        have silentRest := dumpElements_no_newline floats rest others later
        simp only [List.mem_append, List.mem_cons, not_or]
        exact ⟨silent, by decide, silentRest⟩

/-- The members of an object are written without a newline. -/
theorem dumpMembers_no_newline {dumpFloat : UInt64 → List UInt8}
    (floats : ∀ bits, newline ∉ dumpFloat bits) :
    ∀ members written, dumpMembers dumpFloat members = .ok written → newline ∉ written
  -- A member is written as its key and its value, and both of them were.
  | [], written, done => by cases done; simp
  | (key, value) :: rest, written, done => by
    rw [dumpMembers] at done
    cases named : dumpEscaped key with
    | error error => rw [named] at done; cases done
    | ok name =>
      have silentKey := dumpEscaped_no_newline named
      rw [named] at done
      dsimp only at done
      cases first : dump dumpFloat value with
      | error error => rw [first] at done; cases done
      | ok text =>
        have silent := dump_no_newline floats value text first
        rw [first] at done
        dsimp only at done
        split at done
        · cases done
          simp only [List.mem_append, List.mem_cons, List.not_mem_nil, or_false, not_or]
          exact ⟨⟨⟨by decide, silentKey⟩, by decide, by decide⟩, silent⟩
        · obtain ⟨others, later, rfl⟩ := map_eq_ok done
          have silentRest := dumpMembers_no_newline floats rest others later
          simp only [List.mem_append, List.mem_cons, List.not_mem_nil, or_false, not_or]
          exact ⟨⟨⟨⟨by decide, silentKey⟩, by decide, by decide⟩, silent⟩, by decide, silentRest⟩

end

end Esme
