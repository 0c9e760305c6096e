import Esme.Json.Cbor

/-! What `from_cbor` does on every input: which values it returns and what it throws. -/

namespace Esme

open BinaryFormat Reading

/-- More depth does not change what is read. -/
theorem getCborBytes_within (type : Nat) {bound larger : Nat} (le : bound ≤ larger)
    (current : Option UInt8) :
    Within .unfinished (getCborBytes type bound current) (getCborBytes type larger current) := by
  -- The depth goes down with every chunk that is read inside of another.
  induction bound generalizing larger current with
  | zero => exact .out _
  | succ bound ih =>
    obtain ⟨larger, rfl⟩ := Nat.exists_eq_succ_of_ne_zero (Nat.ne_zero_of_lt le)
    have le := Nat.le_of_succ_le_succ le
    cases current with
    | none => exact .refl _
    | some current =>
      rw [getCborBytes, getCborBytes]
      split
      · cases argument current with
        | known length => exact .refl _
        | indefinite =>
          exact .loopUntil (fun bytes current =>
            (ih le current).bind fun chunk => .refl _) (Nat.succ_le_succ le) []
        | invalid => exact .refl _
      · exact .refl _

/-- A loop over items reads alike when each item is read alike. -/
theorem getItems_within {σ : Type} {item more : σ → Option UInt8 → ByteReading σ}
    (each : ∀ state current, Within .unfinished (item state current) (more state current))
    {bound larger : Nat} (le : bound ≤ larger) (length : Nat) (state : σ) :
    Within .unfinished (getItems item bound length state) (getItems more larger length state) := by
  rw [getItems, getItems]
  split
  · exact .loop (fun state => (Within.refl next).bind (each state)) length state
  · exact .loopUntil each le state

/-- An array is read alike when its elements are. -/
theorem getCborArray_within (containers : Containers)
    {parse more : Option UInt8 → ByteReading Json}
    (each : ∀ current, Within .unfinished (parse current) (more current)) {bound larger : Nat}
    (le : bound ≤ larger) (length : Nat) :
    Within .unfinished (getCborArray containers parse bound length)
      (getCborArray containers more larger length) := by
  refine (Within.refl _).bind fun _ => Within.bind ?_ fun _ => .refl _
  exact getItems_within (fun elements current => (each current).bind fun _ => .refl _) le length []

/-- An object is read alike when its keys and values are. -/
theorem getCborObject_within (containers : Containers)
    {getKey moreKey : Option UInt8 → ByteReading (List UInt8)}
    {parse more : Option UInt8 → ByteReading Json}
    (key : ∀ current, Within .unfinished (getKey current) (moreKey current))
    (each : ∀ current, Within .unfinished (parse current) (more current)) {bound larger : Nat}
    (le : bound ≤ larger) (length : Nat) :
    Within .unfinished (getCborObject containers getKey parse bound length)
      (getCborObject containers moreKey more larger length) := by
  refine (Within.refl _).bind fun _ => Within.bind ?_ fun _ => .refl _
  exact getItems_within (fun members current => (key current).bind fun _ =>
    ((Within.refl next).bind each).bind fun _ => .refl _) le length []

/-- More depth does not change what is read. -/
theorem parseCborInternal_within (containers : Containers) {bound larger : Nat}
    (le : bound ≤ larger) (current : Option UInt8) :
    Within .unfinished (parseCborInternal containers bound current)
      (parseCborInternal containers larger current) := by
  -- The induction is on the bound, which goes down by one for each item inside another one.
  induction bound generalizing larger current with
  | zero => exact .out _
  | succ bound ih =>
    obtain ⟨larger, rfl⟩ := Nat.exists_eq_succ_of_ne_zero (Nat.ne_zero_of_lt le)
    have less := Nat.le_of_succ_le_succ le
    cases current with
    | none => exact .refl _
    | some current =>
      have array := getCborArray_within containers (fun current => ih less current) le
      have object := getCborObject_within containers
        (fun current => getCborBytes_within 3 less current) (fun current => ih less current) le
      rw [parseCborInternal, parseCborInternal]
      -- Only items that contain others, texts among them, see the bound.
      split
      · exact .refl _
      · exact .refl _
      · exact (getCborBytes_within 2 le _).bind fun _ => .refl _
      · exact (getCborBytes_within 2 le _).bind fun _ => .refl _
      · exact (getCborBytes_within 3 le _).bind fun _ => .refl _
      · exact (getCborBytes_within 3 le _).bind fun _ => .refl _
      · exact (Within.refl _).bind array
      · exact array _
      · exact (Within.refl _).bind object
      · exact object _
      · exact .refl _
      · exact .refl _

/-- What may be thrown for an input of some bytes. -/
def CborThrown (length : Nat) : ReadError → Prop
  | .parseError id position =>
    (id = 110 ∨ id = 112 ∨ id = 113) ∧ 1 ≤ position ∧ position ≤ length + 1
  | .outOfRange id => id = 408
  | .unfinished => False

/-- What a part of a value that was read satisfies. -/
def cborPart (length : Nat) (value : Json) : Bool :=
  value.sized length length length && value.untagged

variable {length left : Nat}

/-- An exception thrown behind at least one byte names a place in the input. -/
theorem thrown_inside {id : Nat} (known : id = 110 ∨ id = 112 ∨ id = 113) (some_ : left < length)
    (asked : Nat) (count : Consumed length asked left) :
    CborThrown length (.parseError id asked) := by
  -- The bytes asked for and the bytes left are together always as many as the input has.
  have count : asked + left = length := count
  exact ⟨known, by omega, by omega⟩

/-- The end of the input is behind its last byte. -/
theorem thrown_end {β : Type} :
    ∃ error, (fail (.parseError 110) : ByteReading β) ⟨length + 1, []⟩ = .error error ∧
      CborThrown length error :=
  ⟨_, rfl, .inl rfl, Nat.succ_pos _, Nat.le_refl _⟩

/-- A byte is taken, or the input has ended. -/
theorem keeps_expect :
    Upholds (Consumed length) (CborThrown length) left expect fun _ less => less + 1 = left :=
  .next (fun _ _ taken => .pure taken.symm) thrown_end

/-- A number takes its bytes. -/
theorem keeps_getNumber (size : Nat) :
    Upholds (Consumed length) (CborThrown length) left (getNumber size) fun _ less => less ≤ left :=
  .loop (fun _ less => less ≤ left)
    (fun _ _ some_ => keeps_expect.bind fun _ _ taken => .pure (by omega)) size (Nat.le_refl _)

/-- A text is as long as the bytes that it takes. -/
theorem keeps_getBytes (count : Nat) :
    Upholds (Consumed length) (CborThrown length) left (getBytes count) fun bytes less =>
      bytes.length + less ≤ left :=
  .loop (fun (bytes : List UInt8) less => bytes.length + less ≤ left)
    (fun bytes _ some_ => keeps_expect.bind fun _ _ taken => .pure (by
      rw [List.length_append, List.length_singleton]
      omega)) count (Nat.le_of_eq (Nat.zero_add left))

/-- The number of an initial byte takes its bytes. -/
theorem keeps_argument {current : UInt8} {number : ByteReading Nat}
    (known : argument current = .known number) :
    Upholds (Consumed length) (CborThrown length) left number fun _ less => less ≤ left := by
  -- Each case of the switch reads the number in the bytes that it says.
  simp only [argument] at known
  split at known
  · cases known
    exact .pure (Nat.le_refl _)
  iterate 4
    split at known
    · cases known
      exact keeps_getNumber _
  split at known <;> cases known

/-- Behind the end of the input there is no text. -/
theorem getCborBytes_none {type bound : Nat} (some_ : 0 < bound) :
    getCborBytes type bound none = fail (.parseError 110) := by
  obtain ⟨less, rfl⟩ := Nat.exists_eq_succ_of_ne_zero some_.ne'
  rfl

/-- A text is as long as the bytes that it takes, chunks and all. -/
theorem keeps_getCborBytes {type bound : Nat} (enough : left + 1 < bound) (some_ : left < length)
    (current : UInt8) :
    Upholds (Consumed length) (CborThrown length) left (getCborBytes type bound (some current))
      fun bytes less => bytes.length + less ≤ left := by
  -- The induction is on the depth of chunks inside chunks.
  induction bound generalizing left current with
  | zero => omega
  | succ bound ih =>
    rw [getCborBytes]
    split
    · split
      · rename_i number known
        exact (keeps_argument known).bind fun count less fewer =>
          (keeps_getBytes count).mono fun bytes rest taken => by omega
      · -- Every chunk adds its bytes to those that were there.
        refine Upholds.loopUntil
          (fun (bytes : List UInt8) less => less ≤ left ∧ bytes.length + less ≤ left)
          (fun bytes symbol less holds => ?_) (fun bytes less holds => by omega)
          (fun bytes => ?_) (Nat.lt_of_succ_lt enough) ⟨Nat.le_refl _, by simp⟩
        · refine (ih (by omega) (by omega) symbol).bind fun chunk rest taken => .pure ?_
          rw [List.length_append]
          omega
        · rw [getCborBytes_none (by omega)]
          exact ⟨_, rfl, .inl rfl, Nat.succ_pos _, Nat.le_refl _⟩
      · exact .fail (thrown_inside (by decide) some_)
    · exact .fail (thrown_inside (by decide) some_)

/-- A container is started unless it would be too large. -/
theorem keeps_startContainer (count limit : Nat) :
    Upholds (Consumed length) (CborThrown length) left (startContainer count limit) fun _ less =>
      less = left := by
  rw [startContainer]
  -- A container that is too large is refused before anything of it is read.
  split
  · exact .fail fun _ _ => rfl
  · exact .pure rfl

/-- What reading an item keeps: it takes no more than there is, and its parts are well formed. -/
def CborItem (length left : Nat) (value : Json) (less : Nat) : Prop :=
  less ≤ left ∧ value.all (cborPart length) = true

/-- A loop over items keeps what each of them keeps, and ends with the symbols that are left. -/
theorem keeps_getItems {σ : Type} {item : σ → Option UInt8 → ByteReading σ}
    (good : σ → Nat → Prop) {bound : Nat} (enough : left < bound)
    (each : ∀ state symbol less, less < left → good state (less + 1) →
      Upholds (Consumed length) (CborThrown length) less (item state (some symbol))
        fun state fewer => fewer ≤ less ∧ good state fewer)
    (fewer : ∀ state less, good state (less + 1) → good state less)
    (empty : ∀ state, ∃ error,
      item state none ⟨length + 1, []⟩ = .error error ∧ CborThrown length error)
    (count : Nat) {state : σ} (start : good state left) :
    Upholds (Consumed length) (CborThrown length) left (getItems item bound count state)
      fun state less => less ≤ left ∧ good state less := by
  rw [getItems]
  split
  · -- What is left never grows, so each turn has less than there was at first.
    refine .loop (fun state less => less ≤ left ∧ good state less)
      (fun state rest holds => .next (fun symbol less taken => ?_) (empty state)) count
      ⟨Nat.le_refl _, start⟩
    subst taken
    exact (each state symbol less holds.1 holds.2).mono fun _ fewer more =>
      ⟨by have := holds.1; omega, more.2⟩
  · exact .loopUntil (fun state less => less ≤ left ∧ good state less)
      (fun state symbol less holds => (each state symbol less holds.1 holds.2).mono
        fun _ fewer more => ⟨more.1, by have := holds.1; omega, more.2⟩)
      (fun state less holds => ⟨Nat.le_of_succ_le holds.1, fewer state less holds.2⟩) empty enough
      ⟨Nat.le_refl _, start⟩

/-- An array has at most as many elements as bytes. -/
theorem keeps_getCborArray {containers : Containers} {parse : Option UInt8 → ByteReading Json}
    {bound : Nat} (enough : left < bound) (inside : left ≤ length)
    (each : ∀ less symbol, less < left →
      Upholds (Consumed length) (CborThrown length) less (parse (some symbol))
        (CborItem length less))
    (none_ : parse none = fail (.parseError 110)) (count : Nat) :
    Upholds (Consumed length) (CborThrown length) left (getCborArray containers parse bound count)
      (CborItem length left) := by
  -- The invariant of the loop: what has been read so far took a byte for each element.
  refine (keeps_startContainer count _).bind fun _ less same => ?_
  subst same
  refine (keeps_getItems (fun (elements : List Json) rest =>
      elements.length + rest ≤ less ∧ ∀ element ∈ elements, element.all (cborPart length) = true)
    enough (fun elements symbol rest few holds => ?_) (fun _ _ holds => ⟨by omega, holds.2⟩)
    (fun _ => ?_) count ⟨by simp, by simp⟩).bind fun elements rest holds => .pure ?_
  · -- An element takes its initial byte at least.
    refine (each rest symbol few).bind fun value fewer taken => .pure ?_
    obtain ⟨le, parts⟩ := taken
    refine ⟨le, ?_, List.forall_mem_append.mpr ⟨holds.2, List.forall_mem_singleton.mpr parts⟩⟩
    rw [List.length_append, List.length_singleton]
    omega
  · -- The input ends where an element is expected.
    rw [getElement, none_]
    exact ⟨_, rfl, .inl rfl, Nat.succ_pos _, Nat.le_refl _⟩
  · obtain ⟨few, counted, parts⟩ := holds
    refine ⟨few, Json.all_array.mpr ⟨?_, parts⟩⟩
    simp only [cborPart, Json.sized, Json.untagged, Bool.and_true, decide_eq_true_eq]
    omega

/-- An object has its keys in order, and at most as many members as bytes. -/
theorem keeps_getCborObject {containers : Containers}
    {getKey : Option UInt8 → ByteReading (List UInt8)} {parse : Option UInt8 → ByteReading Json}
    {bound : Nat} (enough : left < bound) (inside : left ≤ length)
    (key : ∀ less symbol, less < left →
      Upholds (Consumed length) (CborThrown length) less (getKey (some symbol))
        fun bytes rest => bytes.length + rest ≤ less)
    (each : ∀ less symbol, less < left →
      Upholds (Consumed length) (CborThrown length) less (parse (some symbol))
        (CborItem length less))
    (none_ : getKey none = fail (.parseError 110) ∧ parse none = fail (.parseError 110))
    (count : Nat) :
    Upholds (Consumed length) (CborThrown length) left
      (getCborObject containers getKey parse bound count) (CborItem length left) := by
  -- The invariant of the loop: the members are in order, and each of them took a byte.
  refine (keeps_startContainer count _).bind fun _ less same => ?_
  subst same
  refine (keeps_getItems (fun (members : List (List UInt8 × Json)) rest =>
      members.length + rest ≤ less ∧ Sorted.Ascending members ∧
        ∀ member ∈ members, member.1.length ≤ length ∧ member.2.all (cborPart length) = true)
    enough (fun members symbol rest few holds => ?_) (fun _ _ holds => ⟨by omega, holds.2⟩)
    (fun _ => ?_) count ⟨by simp, List.Pairwise.nil, by simp⟩).bind
      fun members rest holds => .pure ?_
  · -- A member takes the initial byte of its key at least.
    obtain ⟨counted, ascending, parts⟩ := holds
    refine (key rest symbol few).bind fun bytes fewer taken => ?_
    -- The value has an initial byte of its own.
    have value : Upholds (Consumed length) (CborThrown length) fewer (next >>= parse)
        fun value last => last < fewer ∧ value.all (cborPart length) = true :=
      .next (fun symbol last some_ => (each last symbol (by omega)).mono
        fun value final holds => ⟨by have := holds.1; omega, holds.2⟩)
        (none_.2 ▸ ⟨_, rfl, .inl rfl, Nat.succ_pos _, Nat.le_refl _⟩)
    refine value.bind fun value last holds => .pure ⟨by omega, ?_, ?_, fun member new => ?_⟩
    · have := Sorted.length_insert_le bytes value members
      omega
    · exact Sorted.ascending_insert ascending
    · rcases Sorted.mem_insert new with rfl | old
      · exact ⟨by show bytes.length ≤ length; omega, holds.2⟩
      · exact parts member old
  · -- The input ends where a key is expected.
    rw [getMember, none_.1]
    exact ⟨_, rfl, .inl rfl, Nat.succ_pos _, Nat.le_refl _⟩
  · obtain ⟨few, counted, ascending, parts⟩ := holds
    refine ⟨few, Json.all_object.mpr ⟨?_, fun member inside => (parts member inside).2⟩⟩
    simp only [cborPart, Json.sized, Json.untagged, Bool.and_true, Bool.and_eq_true,
      decide_eq_true_eq, List.all_eq_true]
    exact ⟨⟨ascending, by omega⟩, fun member inside => (parts member inside).1⟩

/-- The simple values and floating-point numbers take the bytes of their numbers. -/
theorem keeps_getSimple (some_ : left < length) (current : UInt8) :
    Upholds (Consumed length) (CborThrown length) left (getSimple current)
      (CborItem length left) := by
  -- One case for each of the simple values and the three widths of numbers.
  rw [getSimple]
  split
  · exact .pure ⟨Nat.le_refl _, rfl⟩
  split
  · exact .pure ⟨Nat.le_refl _, rfl⟩
  split
  · exact .pure ⟨Nat.le_refl _, rfl⟩
  split
  · exact keeps_expect.bind fun _ less taken => keeps_expect.bind fun _ rest more =>
      .pure ⟨by omega, rfl⟩
  split
  · exact (keeps_getNumber 4).bind fun _ less taken => .pure ⟨taken, rfl⟩
  split
  · exact (keeps_getNumber 8).bind fun _ less taken => .pure ⟨taken, rfl⟩
  · exact .fail (thrown_inside (by decide) some_)

/-- Behind the end of the input there is no value. -/
theorem parseCborInternal_none {containers : Containers} {bound : Nat} (some_ : 0 < bound) :
    parseCborInternal containers bound none = fail (.parseError 110) := by
  obtain ⟨less, rfl⟩ := Nat.exists_eq_succ_of_ne_zero some_.ne'
  rfl

/-- A text within the input is no longer than the input. -/
theorem keeps_text {type bound : Nat} (enough : left + 1 < bound) (some_ : left < length)
    (current : UInt8) {value : List UInt8 → Json}
    (short : ∀ bytes : List UInt8, bytes.length ≤ length →
      (value bytes).all (cborPart length) = true) :
    Upholds (Consumed length) (CborThrown length) left
      (getCborBytes type bound (some current) >>= fun bytes => pure (value bytes))
      (CborItem length left) :=
  (keeps_getCborBytes enough some_ current).bind fun bytes less taken =>
    .pure ⟨by omega, short bytes (by omega)⟩

/-- A value is well formed, and the bound on the depth is larger than any depth there is. -/
theorem keeps_parseCborInternal {containers : Containers} {bound : Nat}
    (enough : left + 1 < bound) (some_ : left < length) (current : UInt8) :
    Upholds (Consumed length) (CborThrown length) left
      (parseCborInternal containers bound (some current)) (CborItem length left) := by
  -- The induction is on the bound, as items are nested no deeper than there are bytes.
  induction bound generalizing left current with
  | zero => omega
  | succ bound ih =>
    -- What is inside of an item has a byte less, and a depth less.
    have none_ : parseCborInternal containers bound none = fail (.parseError 110) :=
      parseCborInternal_none (by omega)
    have key : ∀ less symbol, less < left →
        Upholds (Consumed length) (CborThrown length) less (getCborString bound (some symbol))
          fun bytes rest => bytes.length + rest ≤ less :=
      fun less symbol few => keeps_getCborBytes (by omega) (by omega) symbol
    have item : ∀ less symbol, less < left →
        Upholds (Consumed length) (CborThrown length) less
          (parseCborInternal containers bound (some symbol)) (CborItem length less) :=
      fun less symbol few => ih (by omega) (by omega) symbol
    have array : ∀ fewer ≤ left, ∀ count,
        Upholds (Consumed length) (CborThrown length) fewer
          (getCborArray containers (parseCborInternal containers bound) (bound + 1) count)
          (CborItem length left) := fun fewer few count =>
      (keeps_getCborArray (by omega) (by omega) (fun less symbol below =>
        item less symbol (by omega)) none_ count).mono fun _ _ holds =>
          ⟨Nat.le_trans holds.1 few, holds.2⟩
    have object : ∀ fewer ≤ left, ∀ count,
        Upholds (Consumed length) (CborThrown length) fewer
          (getCborObject containers (getCborString bound) (parseCborInternal containers bound)
            (bound + 1) count)
          (CborItem length left) := fun fewer few count =>
      (keeps_getCborObject (by omega) (by omega) (fun less symbol below =>
        key less symbol (by omega)) (fun less symbol below => item less symbol (by omega))
        ⟨getCborBytes_none (by omega), none_⟩ count).mono fun _ _ holds =>
          ⟨Nat.le_trans holds.1 few, holds.2⟩
    rw [parseCborInternal]
    split
    · rename_i number known
      exact (keeps_argument known).bind fun _ less fewer => .pure ⟨fewer, rfl⟩
    · rename_i number known
      exact (keeps_argument known).bind fun _ less fewer => .pure ⟨fewer, rfl⟩
    · exact keeps_text enough some_ current fun bytes short => by
        simpa [Json.all, cborPart, Json.sized, Json.untagged] using short
    · exact keeps_text enough some_ current fun bytes short => by
        simpa [Json.all, cborPart, Json.sized, Json.untagged] using short
    · exact keeps_text enough some_ current fun bytes short => by
        simpa [Json.all, cborPart, Json.sized, Json.untagged] using short
    · exact keeps_text enough some_ current fun bytes short => by
        simpa [Json.all, cborPart, Json.sized, Json.untagged] using short
    · rename_i number known
      exact (keeps_argument known).bind fun count less fewer => array less fewer count
    · exact array left (Nat.le_refl _) _
    · rename_i number known
      exact (keeps_argument known).bind fun count less fewer => object less fewer count
    · exact object left (Nat.le_refl _) _
    · exact keeps_getSimple some_ current
    · exact .fail (thrown_inside (by decide) some_)

/-- A value in front of whatever follows is well formed. -/
theorem keeps_value (containers : Containers) {bound : Nat} (enough : length < bound) :
    Upholds (Consumed length) (CborThrown length) length
      (next >>= parseCborInternal containers bound)
      fun value _ => value.all (cborPart length) = true :=
  .next (fun symbol less some_ => (keeps_parseCborInternal (by omega) (by omega) symbol).mono
      fun _ _ holds => holds.2)
    (by
      rw [parseCborInternal_none (by omega)]
      exact ⟨_, rfl, .inl rfl, Nat.succ_pos _, Nat.le_refl _⟩)

/-- Strict reading is a value and then a look at what is behind it. -/
theorem saxParseCbor_eq (containers : Containers) (bound : Nat) (data : List UInt8) :
    saxParseCbor containers bound ⟨0, data⟩ =
      match (next >>= parseCborInternal containers bound) ⟨0, data⟩ with
      | .ok (value, ⟨asked, []⟩) => .ok (value, ⟨asked + 1, []⟩)
      | .ok (_, ⟨asked, _ :: _⟩) => .error (.parseError 110 (asked + 1))
      | .error error => .error error := by
  rw [saxParseCbor, ← bind_assoc, bind_eq]
  cases (next >>= parseCborInternal containers bound) ⟨0, data⟩ with
  | error error => rfl
  | ok result =>
    obtain ⟨value, ⟨asked, rest⟩⟩ := result
    cases rest <;> rfl

/--
What `from_cbor` makes of any input, with a bound on the depth that is large enough.

A value that it returns is well formed: the keys of its objects ascend, nothing in it is longer
than the input, and nothing is tagged or discarded. What it throws is a `parse_error` of three ids
that names a byte of the input or its end, or that a container is too large.
-/
theorem saxParseCbor_result (containers : Containers) {data : List UInt8} {bound : Nat}
    (enough : data.length < bound) :
    match saxParseCbor containers bound ⟨0, data⟩ with
    | .ok (value, _) => value.all (cborPart data.length) = true
    | .error error => CborThrown data.length error := by
  -- The item is read first, and then the end of the input is asked for.
  have kept := keeps_value containers enough ⟨0, data⟩ (Nat.zero_add _) rfl
  rw [saxParseCbor_eq]
  cases read : (next >>= parseCborInternal containers bound) ⟨0, data⟩ with
  | error error =>
    rw [read] at kept
    exact kept
  | ok result =>
    obtain ⟨value, ⟨asked, rest⟩⟩ := result
    rw [read] at kept
    obtain ⟨counted, holds⟩ := kept
    cases rest with
    | nil => exact holds
    | cons symbol rest =>
      -- What is left starts inside of the input.
      have inside : asked + (rest.length + 1) = data.length := counted
      exact ⟨.inl rfl, by omega, by omega⟩

/-- Every bound that is large enough for the input leads to the same. -/
theorem fromCbor_bound (containers : Containers) {data : List UInt8} {bound : Nat}
    (enough : data.length < bound) :
    fromCbor containers data = (saxParseCbor containers bound ⟨0, data⟩).map Prod.fst := by
  have within : Within .unfinished (saxParseCbor containers (data.length + 1))
      (saxParseCbor containers bound) :=
    (Within.refl next).bind fun current =>
      (parseCborInternal_within containers enough current).bind fun _ => .refl _
  have finished : saxParseCbor containers (data.length + 1) ⟨0, data⟩ ≠ .error .unfinished := by
    intro out
    have result := saxParseCbor_result containers (Nat.lt_succ_self data.length)
    rw [out] at result
    exact result
  rw [fromCbor, within.eq finished]

/-- What `from_cbor` returns is well formed, and what it throws names a byte of the input. -/
theorem fromCbor_result (containers : Containers) (data : List UInt8) :
    match fromCbor containers data with
    | .ok value => value.all (cborPart data.length) = true
    | .error error => CborThrown data.length error := by
  have result := saxParseCbor_result containers (Nat.lt_succ_self data.length)
  rw [fromCbor]
  cases read : saxParseCbor containers (data.length + 1) ⟨0, data⟩ with
  | error error =>
    rw [read] at result
    exact result
  | ok read_ =>
    rw [read] at result
    exact result

end Esme
