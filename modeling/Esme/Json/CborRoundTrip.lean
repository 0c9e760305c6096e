import Esme.Json.CborReading
import Esme.Json.Floats
import Mathlib.Data.List.Basic

/-! What `to_cbor` writes is what `from_cbor` reads. -/

namespace Esme

open BinaryFormat Reading

/-- What a value is after it was written and read again, for itself. -/
def readBackLeaf : Json → Json
  -- The sign of the type is lost for a number that is not negative, and so is a payload.
  | .numberInteger value =>
    if 0 ≤ value then .numberUnsigned value.toUInt64 else .numberInteger value
  | .numberFloat bits =>
    if double.isNan bits.toNat then .numberFloat (UInt64.ofNat quietNan) else .numberFloat bits
  | value => value

/-- What a value is after it was written and read again. -/
def Json.readBack : Json → Json := Json.rebuild readBackLeaf

/-- The elements of an array are read back one by one. -/
theorem Json.readBack_array (elements : List Json) :
    (Json.array elements).readBack = .array (elements.map Json.readBack) :=
  Json.rebuild_array _ elements

/-- The members of an object are read back one by one, under their keys. -/
theorem Json.readBack_object (members : List (List UInt8 × Json)) :
    (Json.object members).readBack =
      .object (members.map fun member => (member.1, member.2.readBack)) :=
  Json.rebuild_object _ members

/-- Elements are written one by one. -/
theorem writeElements_eq (elements : List Json) :
    writeElements elements = elements.flatMap writeCbor := by
  induction elements with
  | nil => rfl
  | cons element rest ih => rw [writeElements, ih, List.flatMap_cons]

/-- The bytes of one member. -/
def writeMember (member : List UInt8 × Json) : List UInt8 :=
  (writeInitial 0x60 member.1.length ++ member.1) ++ writeCbor member.2

/-- Members are written one by one. -/
theorem writeMembers_eq (members : List (List UInt8 × Json)) :
    writeMembers members = members.flatMap writeMember := by
  induction members with
  | nil => rfl
  | cons member rest ih => rw [writeMembers, ih, List.flatMap_cons, writeMember]

/-- The exception at the end of the input. -/
def endOfInput : Nat → ReadError := .parseError 110

/-- One byte is read as itself. -/
theorem reads_expect (byte : UInt8) : Reads endOfInput expect [byte] byte :=
  .next (.pure byte) fun _ => rfl

/-- A big-endian number is read as what its bytes hold. -/
theorem reads_getNumber (size number : Nat) :
    Reads endOfInput (getNumber size) (writeNumber size number) (number % 256 ^ size) := by
  -- Every byte makes the number 256 times as much before it is added.
  have bytes := Reads.loop (fun byte => [byte])
    (fun (number : Nat) (byte : UInt8) => number * 256 + byte.toNat)
    (bigEndian size number) (fun byte _ number => (reads_expect byte).map
      fun byte => number * 256 + byte.toNat) 0
  rw [length_bigEndian, foldl_bigEndian, List.flatMap_singleton', Nat.zero_mul,
    Nat.zero_add] at bytes
  exact bytes

/-- A number that its bytes hold is read as itself. -/
theorem reads_small {size number : Nat} (small : number < 256 ^ size) :
    Reads endOfInput (getNumber size) (writeNumber size number) number := by
  have read := reads_getNumber size number
  rwa [Nat.mod_eq_of_lt small] at read

/-- As many bytes as there are is read as the bytes. -/
theorem reads_getBytes (bytes : List UInt8) :
    Reads endOfInput (getBytes bytes.length) bytes bytes := by
  have read := Reads.loop (fun byte => [byte])
    (fun (bytes : List UInt8) (byte : UInt8) => bytes ++ [byte]) bytes
    (fun byte _ front => (reads_expect byte).map fun byte => front ++ [byte]) []
  rw [List.foldl_append_eq_append (f := fun byte => [byte]), ← List.flatMap_def,
    List.flatMap_singleton', List.nil_append] at read
  exact read

/-- The type and the last five bits of an initial byte. -/
theorem initial_parts {type : UInt8} (aligned : type.toNat % 32 = 0) (low : Nat)
    (short : low < 32) (first : UInt8) (sum : first.toNat = (type.toNat + low) % 256) :
    first.toNat / 32 = type.toNat / 32 ∧ first.toNat % 32 = low := by
  have width := type.toNat_lt
  omega

/--
The cascade writes an initial byte of the type, and then what is read as the number.

The switch on the initial byte has one case for each way the number may be written.
-/
theorem writeInitial_reads (type : UInt8) (aligned : type.toNat % 32 = 0) {number : Nat}
    (fits : number < 2 ^ 64) :
    ∃ first tail reader, writeInitial type number = first :: tail ∧
      first.toNat / 32 = type.toNat / 32 ∧ argument first = .known reader ∧
        Reads endOfInput reader tail number := by
  -- One case for each of the five widths in which the number can be written.
  rw [writeInitial]
  split
  · -- Less than 24 is in the initial byte itself.
    rename_i small
    obtain ⟨major, low⟩ := initial_parts aligned number (by omega)
      (UInt8.ofNat ((type.toNat + number) / 256 ^ 0)) (by simp)
    refine ⟨_, [], pure number, rfl, major, ?_, .pure number⟩
    simp only [argument, low, if_pos small]
  split
  · -- Larger numbers stand behind it, in one, two, four or eight bytes.
    obtain ⟨major, low⟩ := initial_parts aligned 0x18 (by decide)
      (type + 0x18) (by simp)
    exact ⟨_, _, getNumber 1, rfl, major, by rw [argument, low]; rfl, reads_small (by omega)⟩
  split
  · obtain ⟨major, low⟩ := initial_parts aligned 0x19 (by decide)
      (type + 0x19) (by simp)
    exact ⟨_, _, getNumber 2, rfl, major, by rw [argument, low]; rfl, reads_small (by omega)⟩
  split
  · obtain ⟨major, low⟩ := initial_parts aligned 0x1a (by decide)
      (type + 0x1a) (by simp)
    exact ⟨_, _, getNumber 4, rfl, major, by rw [argument, low]; rfl, reads_small (by omega)⟩
  · obtain ⟨major, low⟩ := initial_parts aligned 0x1b (by decide)
      (type + 0x1b) (by simp)
    exact ⟨_, _, getNumber 8, rfl, major, by rw [argument, low]; rfl, reads_small (by omega)⟩

/-- Bytes behind their length are read as themselves. -/
theorem reads_getCborBytes {type bound : Nat} {first : UInt8} {tail bytes : List UInt8}
    {reader : ByteReading Nat} (major : first.toNat / 32 = type)
    (known : argument first = .known reader)
    (reads : Reads endOfInput reader tail bytes.length) :
    Reads endOfInput (getCborBytes type (bound + 1) (some first)) (tail ++ bytes) bytes := by
  rw [getCborBytes, if_pos major, known]
  exact reads.bind (reads_getBytes bytes)

/-- A key is read as itself. -/
theorem reads_key {bound : Nat} {key : List UInt8} (fits : key.length < 2 ^ 64)
    (some_ : 0 < bound) :
    Reads endOfInput (next >>= getCborString bound) (writeInitial 0x60 key.length ++ key) key := by
  obtain ⟨first, tail, reader, written, major, known, reads⟩ :=
    writeInitial_reads 0x60 (by decide) fits
  obtain ⟨less, rfl⟩ := Nat.exists_eq_succ_of_ne_zero some_.ne'
  rw [written]
  exact .next (reads_getCborBytes major known reads) fun _ => rfl

/-- The bits of a number that is not negative are the same without the sign. -/
theorem toUInt64_of_nonneg {value : Int64} (nonneg : 0 ≤ value) :
    UInt64.ofNat value.toInt.toNat = value.toUInt64 := by
  rw [Int64.toNat_toInt, ← Int64.toNat_toUInt64_of_le nonneg, UInt64.ofNat_toNat]

/--
The reader reads a word that starts with some byte as the value.

It has read that byte already, and needs a bound larger than what is behind it.
-/
def ReadsCbor (containers : Containers) (word : List UInt8) (value : Json) : Prop :=
  ∃ first tail, word = first :: tail ∧ ∀ bound, tail.length < bound →
    Reads endOfInput (parseCborInternal containers bound (some first)) tail value

variable {containers : Containers}

/-- A reader that starts with the first byte reads the word. -/
theorem ReadsCbor.next {word : List UInt8} {value : Json}
    (reads : ReadsCbor containers word value) (bound : Nat) (enough : word.length ≤ bound) :
    Reads endOfInput (next >>= parseCborInternal containers bound) word value := by
  obtain ⟨first, tail, rfl, read⟩ := reads
  have some_ : bound ≠ 0 := fun none => by rw [none] at enough; exact absurd enough (by simp)
  obtain ⟨less, rfl⟩ := Nat.exists_eq_succ_of_ne_zero some_
  exact .next (read _ enough) fun _ => rfl

/-- A word read from its first byte on is not empty. -/
theorem ReadsCbor.pos {word : List UInt8} {value : Json}
    (reads : ReadsCbor containers word value) : 0 < word.length := by
  obtain ⟨first, tail, rfl, -⟩ := reads
  exact Nat.succ_pos _

/-- A number behind an initial byte is read by the case of its type. -/
theorem readsCbor_number (containers : Containers) (type : UInt8) (aligned : type.toNat % 32 = 0)
    (number : Nat) (fits : number < 2 ^ 64) (value : Nat → Json)
    (case_ : ∀ bound first reader, first.toNat / 32 = type.toNat / 32 →
      argument first = .known reader →
      parseCborInternal containers (bound + 1) (some first) =
        reader >>= fun number => pure (value number)) :
    ReadsCbor containers (writeInitial type number) (value number) := by
  obtain ⟨first, tail, reader, written, major, known, reads⟩ := writeInitial_reads type aligned fits
  refine ⟨first, tail, written, fun bound enough => ?_⟩
  obtain ⟨less, rfl⟩ := Nat.exists_eq_succ_of_ne_zero (Nat.ne_zero_of_lt enough)
  rw [case_ less first reader major known]
  exact reads.map value

/-- Bytes behind their length are read by the case of their type. -/
theorem readsCbor_bytes (type : UInt8) (aligned : type.toNat % 32 = 0) {bytes : List UInt8}
    (fits : bytes.length < 2 ^ 64) (value : List UInt8 → Json)
    (case_ : ∀ bound first reader, first.toNat / 32 = type.toNat / 32 →
      argument first = .known reader →
      parseCborInternal containers (bound + 1) (some first) =
        getCborBytes (type.toNat / 32) (bound + 1) (some first) >>=
          fun bytes => pure (value bytes)) :
    ReadsCbor containers (writeInitial type bytes.length ++ bytes) (value bytes) := by
  obtain ⟨first, tail, reader, written, major, known, reads⟩ := writeInitial_reads type aligned fits
  refine ⟨first, tail ++ bytes, by rw [written, List.cons_append], fun bound enough => ?_⟩
  obtain ⟨less, rfl⟩ := Nat.exists_eq_succ_of_ne_zero (Nat.ne_zero_of_lt enough)
  rw [case_ less first reader major known]
  exact (reads_getCborBytes major known reads).map value

/-- A word is read when every bound but zero is enough to read what is behind its first byte. -/
theorem readsCbor_first {first : UInt8} {tail : List UInt8} {value : Json}
    (reads : ∀ bound, Reads endOfInput (parseCborInternal containers (bound + 1) (some first)) tail
      value) : ReadsCbor containers (first :: tail) value := by
  refine ⟨first, tail, rfl, fun bound enough => ?_⟩
  obtain ⟨less, rfl⟩ := Nat.exists_eq_succ_of_ne_zero (Nat.ne_zero_of_lt enough)
  exact reads less

/-- A signed number is read back, as an unsigned one if it is not negative. -/
theorem readsCbor_integer (number : Int64) :
    ReadsCbor containers (writeCbor (.numberInteger number))
      (Json.numberInteger number).readBack := by
  -- The sign decides which of the two major types is written.
  have leaf : (Json.numberInteger number).readBack =
      if 0 ≤ number then .numberUnsigned number.toUInt64 else .numberInteger number := rfl
  have width := number.toInt_lt
  rw [writeCbor, leaf]
  split
  · -- A number that is not negative is written as an unsigned one.
    rename_i nonneg
    have read := readsCbor_number containers 0x00 (by decide) number.toInt.toNat (by omega)
      (fun number => .numberUnsigned (UInt64.ofNat number))
      fun bound first reader major known => by rw [parseCborInternal, major, known]; rfl
    rwa [toUInt64_of_nonneg nonneg] at read
  · -- The number behind the initial byte is how far the value is below minus one.
    rename_i negative
    have nonneg : 0 ≤ -1 - number := by grind
    have width := (-1 - number).toInt_lt
    have read := readsCbor_number containers 0x20 (by decide) (-1 - number).toInt.toNat (by omega)
      (fun number => .numberInteger (-1 - (UInt64.ofNat number).toInt64))
      fun bound first reader major known => by rw [parseCborInternal, major, known]; rfl
    have back : -1 - (-1 - number) = number := by grind
    rwa [toUInt64_of_nonneg nonneg, Int64.toInt64_toUInt64, back] at read

/-- A number between the two infinities is read back bit by bit. -/
theorem readsCbor_compactFloat (bits : UInt64) :
    ReadsCbor containers (writeCompactFloat bits) (.numberFloat bits) := by
  rw [writeCompactFloat]
  have width := bits.toNat_lt
  split
  · -- A float that loses nothing is written in four bytes, and the others in eight.
    rename_i fits
    have small := toFloat_lt bits
    have number := (@reads_small 4 (toFloat bits) (by omega)).map fun number =>
      Json.numberFloat (UInt64.ofNat (toDouble number))
    rw [toDouble_toFloat fits, UInt64.ofNat_toNat] at number
    exact readsCbor_first fun _ => number
  · have number := (@reads_small 8 bits.toNat (by omega)).map fun number =>
      Json.numberFloat (UInt64.ofNat number)
    rw [UInt64.ofNat_toNat] at number
    exact readsCbor_first fun _ => number

/-- Every floating-point number is read back. -/
theorem readsCbor_float (bits : UInt64) :
    ReadsCbor containers (writeFloat bits) (Json.numberFloat bits).readBack := by
  -- One case for each of the widths: half, single and double precision.
  have leaf : (Json.numberFloat bits).readBack =
      if double.isNan bits.toNat then .numberFloat (UInt64.ofNat quietNan)
      else .numberFloat bits := rfl
  rw [writeFloat, leaf]
  -- The three bytes of a half-precision float are read one after the other.
  have halves : ∀ (byte1 byte2 : UInt8) (number : Nat),
      decodeHalf (byte1.toNat * 2 ^ 8 + byte2.toNat) = number →
      ReadsCbor containers [0xf9, byte1, byte2] (.numberFloat (UInt64.ofNat number)) := by
    intro byte1 byte2 number decoded
    rw [← decoded]
    exact readsCbor_first fun _ => (reads_expect byte1).bind ((reads_expect byte2).map _)
  split
  · exact halves 0x7e 0x00 quietNan (by decide)
  split
  · -- Of the two infinities only the sign is left to tell.
    rename_i infinite
    have width := bits.toNat_lt
    have sign : 2 * double.signBit = 2 ^ 64 := by decide
    have parts := double.bits_eq (sign ▸ width)
    rw [of_decide_eq_true infinite] at parts
    have same : bits = UInt64.ofNat bits.toNat := UInt64.ofNat_toNat.symm
    rw [parts] at same
    rw [same]
    cases double.negative bits.toNat with
    | true => exact halves 0xfc 0x00 _ (by decide)
    | false => exact halves 0x7c 0x00 _ (by decide)
  · exact readsCbor_compactFloat bits

/-- A container of a length that it may have is started. -/
theorem reads_startContainer {length limit : Nat} (fits : length ≤ limit) :
    Reads endOfInput (startContainer length limit) [] () := by
  rw [startContainer, if_neg fun refused => Nat.not_le_of_lt refused.2 fits]
  exact .pure ()

/-- A loop over items of a known number reads them one after the other. -/
theorem reads_getItems {σ ι : Type} (item : σ → Option UInt8 → ByteReading σ) (bound : Nat)
    {items : List ι} (encode : ι → List UInt8) (add : σ → ι → σ)
    (known : items.length < indefiniteLength)
    (each : ∀ one ∈ items, ∀ state,
      Reads endOfInput (next >>= item state) (encode one) (add state one)) (state : σ) :
    Reads endOfInput (getItems item bound items.length state) (items.flatMap encode)
      (items.foldl add state) := by
  rw [getItems, if_pos (Nat.ne_of_lt known)]
  exact Reads.loop encode add items each state

/-- An array is read when its elements are. -/
theorem reads_getCborArray {parse : Option UInt8 → ByteReading Json} {bound : Nat}
    {elements : List Json} (fits : elements.length ≤ containers.arrayMax)
    {encode : Json → List UInt8} {value : Json → Json}
    (each : ∀ element ∈ elements,
      Reads endOfInput (next >>= parse) (encode element) (value element)) :
    Reads endOfInput (getCborArray containers parse bound elements.length)
      (elements.flatMap encode) (.array (elements.map value)) := by
  -- Every turn puts an element at the end.
  have turns := reads_getItems (getElement parse) bound encode
    (fun front element => front ++ [value element])
    (Nat.lt_of_le_of_lt fits containers.arrayMax_lt)
    (fun element member front => by
      have read := (each element member).map fun value => front ++ [value]
      rwa [bind_assoc] at read) []
  rw [List.foldl_append_eq_append (f := fun element => [value element]), List.nil_append,
    ← List.flatMap_def, ← List.map_eq_flatMap] at turns
  exact (reads_startContainer fits).after (turns.map Json.array)

/-- An object is read when its keys and values are. -/
theorem reads_getCborObject {getKey : Option UInt8 → ByteReading (List UInt8)}
    {parse : Option UInt8 → ByteReading Json} {bound : Nat} {members : List (List UInt8 × Json)}
    (ascending : Sorted.Ascending members) (fits : members.length ≤ containers.objectMax)
    {value : Json → Json}
    (each : ∀ member ∈ members,
      Reads endOfInput (next >>= getKey) (writeInitial 0x60 member.1.length ++ member.1)
          member.1 ∧
        Reads endOfInput (next >>= parse) (writeCbor member.2) (value member.2)) :
    Reads endOfInput (getCborObject containers getKey parse bound members.length)
      (members.flatMap writeMember)
      (.object (members.map fun member => (member.1, value member.2))) := by
  -- Every turn reads a key and a value, and puts them in the map.
  have turns := reads_getItems (getMember getKey parse) bound writeMember
    (fun front member => Sorted.insert member.1 (value member.2) front)
    (Nat.lt_of_le_of_lt fits containers.objectMax_lt)
    (fun member inside front => by
      obtain ⟨key, item⟩ := each member inside
      have read := key.bind (f := fun key => (next >>= parse) >>= fun value =>
        pure (Sorted.insert key value front)) (item.map fun value =>
          Sorted.insert member.1 value front)
      rwa [bind_assoc] at read) []
  -- The keys ascend, so every member is put at the end.
  have order : Sorted.Ascending (members.map fun member => (member.1, value member.2)) :=
    List.pairwise_map.mpr ascending
  have placed := Sorted.foldl_insert order [] (by simp)
  rw [List.foldl_map, List.nil_append] at placed
  rw [placed] at turns
  exact (reads_startContainer fits).after (turns.map Json.object)

/-- The words of items are as long as all of them together at most. -/
theorem length_le_flatMap {ι : Type*} {items : List ι} (encode : ι → List UInt8) {item : ι}
    (member : item ∈ items) : (encode item).length ≤ (items.flatMap encode).length := by
  obtain ⟨before, after, rfl⟩ := List.append_of_mem member
  simp only [List.flatMap_append, List.flatMap_cons, List.length_append]
  omega

/--
Every value in memory is read back from the bytes it is written as.

Only binary values with a subtype are left out, which are written as tags that the reader refuses,
and values that were discarded, which are not written at all.
-/
theorem readsCbor_writeCbor {value : Json} (stored : value.all (Json.stored containers) = true)
    (untagged : value.all Json.untagged = true) :
    ReadsCbor containers (writeCbor value) value.readBack := by
  -- The induction is on the value; each item is shorter than its container.
  induction value using Json.nested with
  | object members ih =>
    rw [Json.all_object] at stored untagged
    obtain ⟨self, parts⟩ := stored
    simp only [Json.stored, Json.sized, Bool.and_eq_true, decide_eq_true_eq,
      List.all_eq_true] at self
    obtain ⟨⟨ascending, fits⟩, keys⟩ := self
    obtain ⟨first, tail, reader, written, major, known, reads⟩ :=
      writeInitial_reads 0xa0 (by decide)
        (Nat.lt_of_le_of_lt fits (Nat.lt_of_lt_of_le containers.objectMax_lt (by decide)))
    rw [writeCbor, Json.readBack_object, writeMembers_eq, written]
    refine ⟨first, tail ++ members.flatMap writeMember, rfl, fun bound enough => ?_⟩
    obtain ⟨less, rfl⟩ := Nat.exists_eq_succ_of_ne_zero (Nat.ne_zero_of_lt enough)
    rw [List.length_append] at enough
    -- The case of the switch that the type in the initial byte selects.
    have branch : parseCborInternal containers (less + 1) (some first) =
        reader >>= getCborObject containers (getCborString less)
          (parseCborInternal containers less) (less + 1) := by
      rw [parseCborInternal, major, known]
      rfl
    rw [branch]
    refine reads.bind (reads_getCborObject ascending fits fun member inside => ?_)
    -- A member is shorter than the object, and its key and value are shorter still.
    have item := ih member inside (parts member inside) (untagged.2 member inside)
    have short := length_le_flatMap writeMember inside
    have some_ := item.pos
    simp only [writeMember, List.length_append] at short
    exact ⟨reads_key (Nat.lt_of_le_of_lt (keys member inside) (by decide)) (by omega),
      item.next less (by omega)⟩
  | array elements ih =>
    rw [Json.all_array] at stored untagged
    obtain ⟨self, parts⟩ := stored
    have fits : elements.length ≤ containers.arrayMax := of_decide_eq_true self
    obtain ⟨first, tail, reader, written, major, known, reads⟩ :=
      writeInitial_reads 0x80 (by decide)
        (Nat.lt_of_le_of_lt fits (Nat.lt_of_lt_of_le containers.arrayMax_lt (by decide)))
    rw [writeCbor, Json.readBack_array, writeElements_eq, written]
    refine ⟨first, tail ++ elements.flatMap writeCbor, rfl, fun bound enough => ?_⟩
    obtain ⟨less, rfl⟩ := Nat.exists_eq_succ_of_ne_zero (Nat.ne_zero_of_lt enough)
    rw [List.length_append] at enough
    -- The case of the switch, as for objects.
    have branch : parseCborInternal containers (less + 1) (some first) =
        reader >>= getCborArray containers (parseCborInternal containers less) (less + 1) := by
      rw [parseCborInternal, major, known]
      rfl
    rw [branch]
    refine reads.bind (reads_getCborArray fits fun element inside => ?_)
    have item := ih element inside (parts element inside) (untagged.2 element inside)
    have short := length_le_flatMap writeCbor inside
    exact item.next less (by omega)
  | leaf value notObject notArray =>
    cases value with
    | object members => exact absurd rfl (notObject members)
    | array elements => exact absurd rfl (notArray elements)
    | null => exact readsCbor_first fun _ => .pure _
    | boolean flag =>
      -- The two constants have initial bytes of their own.
      cases flag with
      | true => exact readsCbor_first fun _ => .pure _
      | false => exact readsCbor_first fun _ => .pure _
    | numberUnsigned number =>
      have read := readsCbor_number containers 0x00 (by decide) number.toNat number.toNat_lt
        (fun number => .numberUnsigned (UInt64.ofNat number))
        fun bound first reader major known => by rw [parseCborInternal, major, known]; rfl
      rw [UInt64.ofNat_toNat] at read
      exact read
    | numberInteger number => exact readsCbor_integer number
    | numberFloat bits => exact readsCbor_float bits
    | string text =>
      exact readsCbor_bytes 0x60 (by decide)
        (Nat.lt_of_le_of_lt (of_decide_eq_true stored) (by decide)) .string
        fun bound first reader major known => by rw [parseCborInternal, major, known]; rfl
    | binary bytes subtype =>
      cases subtype with
      | some subtype => cases untagged
      | none =>
        exact readsCbor_bytes 0x40 (by decide)
          (Nat.lt_of_le_of_lt (of_decide_eq_true stored) (by decide))
          (fun bytes => .binary bytes none)
          fun bound first reader major known => by rw [parseCborInternal, major, known]; rfl
    | discarded => cases untagged

section

variable {containers : Containers} {value : Json}
  (stored : value.all (Json.stored containers) = true) (untagged : value.all Json.untagged = true)
include stored untagged

/-- The value is read, and what is behind it is left. -/
theorem reads_toCbor (rest : List UInt8) :
    (next >>= parseCborInternal containers ((toCbor value ++ rest).length + 1))
      ⟨0, toCbor value ++ rest⟩ = .ok (value.readBack, ⟨(toCbor value).length, rest⟩) := by
  have whole := ((readsCbor_writeCbor stored untagged).next ((toCbor value ++ rest).length + 1)
    (by rw [List.length_append]; exact Nat.le_succ_of_le (Nat.le_add_right _ _))).whole 0 rest
  rwa [Nat.zero_add] at whole

/-- What is written is read back. -/
theorem fromCbor_written : fromCbor containers (toCbor value) = .ok value.readBack := by
  have read := reads_toCbor stored untagged []
  rw [List.append_nil] at read
  rw [fromCbor, saxParseCbor_eq, read]
  rfl

/-- What is written is not accepted when it is cut short. -/
theorem fromCbor_cut {front : List UInt8} (part : front <+: toCbor value)
    (proper : front ≠ toCbor value) :
    fromCbor containers front = .error (.parseError 110 (front.length + 1)) := by
  have shorter : front.length < (toCbor value).length + 1 := Nat.lt_succ_of_le part.length_le
  have cut := ((readsCbor_writeCbor stored untagged).next _ (Nat.le_succ _)).cut 0 front part proper
  rw [fromCbor_bound containers shorter, saxParseCbor_eq]
  rw [toCbor, cut, Nat.zero_add]
  rfl

end

/--
What `to_cbor` writes is read back, and neither more nor less than it is accepted.

Bytes behind a value are refused at the first of them, and a value that is cut short where it
ends.
-/
theorem fromCbor_toCbor (containers : Containers) {value : Json}
    (stored : value.all (Json.stored containers) = true)
    (untagged : value.all Json.untagged = true) :
    fromCbor containers (toCbor value) = .ok value.readBack ∧
      (∀ byte extra, fromCbor containers (toCbor value ++ byte :: extra) =
        .error (.parseError 110 ((toCbor value).length + 1))) ∧
      ∀ front, front <+: toCbor value → front ≠ toCbor value →
        fromCbor containers front = .error (.parseError 110 (front.length + 1)) := by
  refine ⟨fromCbor_written stored untagged, fun byte extra => ?_,
    fun front part proper => fromCbor_cut stored untagged part proper⟩
  -- What is behind the value is looked at once it has been read.
  rw [fromCbor, saxParseCbor_eq, reads_toCbor stored untagged]
  rfl

/-- An array whose parts all are written the way they are read back. -/
def roundTripValue : Json :=
  .array [.numberInteger 5, .numberInteger (-300), .numberFloat 0x3ff8000000000000,
    .object [([0x61], .string [0x62]), ([0x61, 0x61], .null)], .binary [0x01] none]

/-- One value of every kind is read back from its bytes. -/
theorem fromCbor_toCbor_nested :
    fromCbor .lp64 (toCbor roundTripValue) = .ok roundTripValue.readBack :=
  (@fromCbor_toCbor .lp64 roundTripValue (by decide) (by decide)).1

/-- A value that was read back is written as the same bytes again. -/
theorem toCbor_readBack (value : Json) : toCbor value.readBack = toCbor value := by
  rw [toCbor, toCbor]
  -- Nothing but the sign of a type and the bits of what is no number is lost.
  induction value using Json.nested with
  | object members ih =>
    have same : ∀ member ∈ members,
        writeMember (member.1, member.2.readBack) = writeMember member := by
      intro member inside
      rw [writeMember, ih member inside, writeMember]
    rw [Json.readBack_object, writeCbor, writeCbor, writeMembers_eq, writeMembers_eq,
      List.length_map, List.flatMap_map, List.flatMap_congr same]
  | array elements ih =>
    rw [Json.readBack_array, writeCbor, writeCbor, writeElements_eq,
      writeElements_eq, List.length_map, List.flatMap_map, List.flatMap_congr ih]
  | leaf value notObject notArray =>
    cases value with
    | object members => exact absurd rfl (notObject members)
    | array elements => exact absurd rfl (notArray elements)
    | numberInteger number =>
      have leaf : (Json.numberInteger number).readBack =
          if 0 ≤ number then .numberUnsigned number.toUInt64 else .numberInteger number := rfl
      rw [leaf]
      split
      · -- Both are written as the same unsigned number.
        rename_i nonneg
        rw [writeCbor, writeCbor, if_pos nonneg, Int64.toNat_toUInt64_of_le nonneg,
          Int64.toNat_toInt]
      · rfl
    | numberFloat bits =>
      have leaf : (Json.numberFloat bits).readBack =
          if double.isNan bits.toNat then .numberFloat (UInt64.ofNat quietNan)
          else .numberFloat bits := rfl
      rw [leaf]
      split
      · -- All that is no number is written as the same three bytes.
        rename_i nan
        have quiet : writeFloat (UInt64.ofNat quietNan) = [0xf9, 0x7e, 0x00] := by decide
        rw [writeCbor, writeCbor, quiet, writeFloat, if_pos nan]
      · rfl
    | _ => rfl

/--
One value is written as a front of another exactly when both are read back alike.

So no encoding goes on behind another one, and values that differ in more than the reader can tell
have encodings that differ.
-/
theorem toCbor_prefix_iff (containers : Containers) {value other : Json}
    (stored : value.all (Json.stored containers) = true)
    (untagged : value.all Json.untagged = true)
    (otherStored : other.all (Json.stored containers) = true)
    (otherUntagged : other.all Json.untagged = true) :
    toCbor value <+: toCbor other ↔ value.readBack = other.readBack := by
  -- The reader takes the longer encoding for one value, and the shorter one in front of it too.
  have read := fromCbor_written stored untagged
  have otherRead := fromCbor_written otherStored otherUntagged
  constructor
  · intro part
    -- A proper front of the other encoding would be refused, and this one is not.
    have same : toCbor value = toCbor other := by
      by_contra proper
      have refused := fromCbor_cut otherStored otherUntagged part proper
      rw [read] at refused
      cases refused
    rw [same, otherRead] at read
    exact (Except.ok.inj read).symm
  · -- What is read back is written as the encoding that it comes from.
    intro same
    have written : toCbor value = toCbor other := by
      rw [← toCbor_readBack value, same, toCbor_readBack]
    exact written ▸ List.prefix_rfl

/-- A number and its signed twin are written alike, and read back alike. -/
theorem toCbor_prefix_iff_integer :
    toCbor (.numberInteger 7) <+: toCbor (.numberUnsigned 7) ↔
      (Json.numberInteger 7).readBack = (Json.numberUnsigned 7).readBack :=
  toCbor_prefix_iff .lp64 (by decide) (by decide) (by decide) (by decide)

/-- A value that was read from an input of a size that fits can be written and read again. -/
theorem fromCbor_again (containers : Containers) {data : List UInt8} {value : Json}
    (arrays : data.length ≤ containers.arrayMax) (objects : data.length ≤ containers.objectMax)
    (read : fromCbor containers data = .ok value) :
    fromCbor containers (toCbor value) = .ok value.readBack ∧
      fromCbor containers (toCbor value.readBack) = .ok value.readBack := by
  have sound := fromCbor_result containers data
  rw [read] at sound
  -- No text is longer than the input.
  have texts : data.length ≤ 2 ^ 64 - 1 :=
    Nat.le_of_lt (Nat.lt_of_le_of_lt arrays containers.arrayMax_lt)
  have stored : value.all (Json.stored containers) = true :=
    Json.all_imp (fun part holds => Json.sized_mono arrays objects texts
      (Bool.and_eq_true_iff.mp holds).1) sound
  have untagged : value.all Json.untagged = true :=
    Json.all_imp (fun part holds => (Bool.and_eq_true_iff.mp holds).2) sound
  rw [toCbor_readBack]
  exact ⟨fromCbor_written stored untagged, fromCbor_written stored untagged⟩

/-- Keys that come in any order are put in order by reading, writing and reading. -/
theorem fromCbor_again_unordered :
    fromCbor .lp64 (toCbor (.object [([0x61], .numberUnsigned 3), ([0x62], .numberUnsigned 1)])) =
      .ok (.object [([0x61], .numberUnsigned 3), ([0x62], .numberUnsigned 1)]) :=
  (@fromCbor_again .lp64
    [0xa3, 0x61, 0x62, 0x01, 0x61, 0x61, 0x02, 0x61, 0x61, 0x03] _ (by decide) (by decide) rfl).1

end Esme
