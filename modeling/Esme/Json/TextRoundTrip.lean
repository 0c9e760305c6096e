import Esme.Json.FloatText
import Esme.Json.Grammar
import Esme.Json.Spelling

/-! What `dump` writes is what `parse` reads. -/

namespace Esme

open Reading

/-- The object that a binary value is written as. -/
def binaryText (bytes : List UInt8) (subtype : Option UInt64) : Json :=
  .object [
    (ascii ['b', 'y', 't', 'e', 's'],
      .array (bytes.map fun byte => .numberUnsigned byte.toUInt64)),
    (ascii ['s', 'u', 'b', 't', 'y', 'p', 'e'],
      (subtype.map Json.numberUnsigned).getD .null)]

/-- What a value is after it was dumped and parsed, for itself. -/
def readTextLeaf : Json → Json
  -- The sign of the type is lost for a number that is not negative.
  | .numberInteger value =>
    if 0 ≤ value then .numberUnsigned value.toUInt64 else .numberInteger value
  -- There is no notation for infinities and for what is no number.
  | .numberFloat bits => if isFinite bits then .numberFloat bits else .null
  | .binary bytes subtype => binaryText bytes subtype
  | value => value

/-- What a value is after it was dumped and parsed. -/
def Json.readText : Json → Json := Json.rebuild readTextLeaf

/-- The keys of objects ascend, and nothing was discarded. -/
def Json.ordered : Json → Bool
  | .object members => decide (Sorted.Ascending members)
  | .discarded => false
  | _ => true

/-- A finite number has a text that `strtod` makes the same number of. -/
def Json.floatText (grisu2 : UInt64 → Decimal) (strtod : List UInt8 → UInt64) : Json → Bool
  | .numberFloat bits => !isFinite bits || strtod (toChars grisu2 bits) == bits
  | _ => true

/-- What may go on with a number. -/
def continuesNumber (byte : UInt8) : Bool := isDigit byte || byte = 0x2e || isExponent byte

/-- The lexer reads the text as the tokens in front of what does not go on with a number. -/
def Spells (strtod : List UInt8 → UInt64) (text : List UInt8) (tokens : List Token) : Prop :=
  ∀ asked rest, (∀ byte ∈ rest.head?, continuesNumber byte = false) →
    Scans (scan strtod) ⟨asked, text ++ rest⟩ tokens ⟨asked + text.length, rest⟩

/-- A text that spells a value. -/
def Written (strtod : List UInt8 → UInt64) (text : List UInt8) (value : Json) : Prop :=
  ∃ tokens, Denotes tokens value ∧ Spells strtod text tokens

variable {strtod : List UInt8 → UInt64}

/-- A number ends in front of what does not go on with one. -/
theorem NumberWord.ends {label : NumberState} {type : NumberType} {word : List UInt8}
    (number : NumberWord label type word) {byte : UInt8} (other : continuesNumber byte = false) :
    label.next byte = .done := by
  simp only [continuesNumber, Bool.or_eq_false_iff, decide_eq_false_iff_not] at other
  obtain ⟨⟨digit, point⟩, mark⟩ := other
  -- A number ends in four of the states, and each stops at any other byte.
  rcases number.label with rfl | rfl | rfl | rfl <;> simp [NumberState.next, digit, point, mark]

/-- A word that nothing goes on with is scanned as its token. -/
theorem Lexeme.scan_free {word : List UInt8} {token : Token}
    (lexeme : Lexeme strtod word token fun _ => False) (asked : Nat) (rest : List UInt8) :
    scan strtod ⟨asked, word ++ rest⟩ = .ok (token, ⟨asked + word.length, rest⟩) :=
  lexeme.scans [] nofun asked fun _ _ => not_false

/-- A word that nothing goes on with spells its token. -/
theorem Lexeme.spells {word : List UInt8} {token : Token}
    (lexeme : Lexeme strtod word token fun _ => False) : Spells strtod word [token] :=
  fun asked rest _ => .cons (lexeme.scan_free asked rest) (.nil _)

/-- A number spells its token. -/
theorem NumberWord.spells {label : NumberState} {type : NumberType} {word : List UInt8}
    (number : NumberWord label type word) : Spells strtod word [numberToken strtod type word] :=
  fun asked _ other => .cons ((Lexeme.number number).scans [] nofun asked
    fun byte head => (number.done_iff byte).mp (number.ends (other byte head))) (.nil _)

/-- A word in front of a text that spells tokens. -/
theorem Spells.cons {word text : List UInt8} {token : Token} {tokens : List Token}
    (first : Lexeme strtod word token fun _ => False) (others : Spells strtod text tokens) :
    Spells strtod (word ++ text) (token :: tokens) := by
  intro asked rest other
  have scans := others (asked + word.length) rest other
  rw [List.append_assoc, List.length_append, ← Nat.add_assoc]
  exact .cons (first.scan_free asked (text ++ rest)) scans

/-- A text behind another one, from a word on that goes on with no number. -/
theorem Spells.append {text other : List UInt8} {tokens more : List Token}
    (first : Spells strtod text tokens) (later : Spells strtod other more)
    (apart : ∀ byte ∈ other.head?, continuesNumber byte = false) (some_ : other ≠ []) :
    Spells strtod (text ++ other) (tokens ++ more) := by
  intro asked rest follows
  -- The first byte of the second text is the one behind the first text.
  have front := first asked (other ++ rest) (by rwa [List.head?_append_of_ne_nil _ some_])
  have back := later (asked + text.length) rest follows
  rw [List.append_assoc, List.length_append, ← Nat.add_assoc]
  exact front.append back

section

variable {float : UInt64 → List UInt8} {read : Json → Json}

/-- Elements that are written one by one spell their tokens with commas between them. -/
theorem written_elements {elements : List Json} (some_ : elements ≠ [])
    (each : ∀ element ∈ elements, ∀ text, dump float element = .ok text →
      Written strtod text (read element))
    {text : List UInt8} (done : dumpElements float elements = .ok text) :
    ∃ items : List (List Token × Json), items.map Prod.snd = elements.map read ∧
      (∀ item ∈ items, Denotes item.1 item.2) ∧
      Spells strtod text (separated (items.map Prod.fst)) := by
  -- The induction is on the elements, each of which is written before its comma.
  induction elements generalizing text with
  | nil => exact absurd rfl some_
  | cons element rest ih =>
    obtain ⟨first, others⟩ := List.forall_mem_cons.mp each
    rw [dumpElements] at done
    cases dumped : dump float element with
    | error error => rw [dumped] at done; cases done
    | ok front =>
      obtain ⟨tokens, denotes, spells⟩ := first front dumped
      rw [dumped] at done
      dsimp only at done
      cases rest with
      | nil =>
        cases done
        refine ⟨[(tokens, read element)], rfl, List.forall_mem_singleton.mpr denotes, ?_⟩
        rw [List.map_singleton, separated_singleton]
        exact spells
      | cons next rest =>
        obtain ⟨back, later, rfl⟩ := map_eq_ok done
        obtain ⟨items, same, all, spelled⟩ := ih (List.cons_ne_nil _ _) others later
        have more : items ≠ [] := by
          rintro rfl
          cases same
        refine ⟨(tokens, read element) :: items, by rw [List.map_cons, same]; rfl,
          List.forall_mem_cons.mpr ⟨denotes, all⟩, ?_⟩
        -- The comma stands in front of the texts of the others.
        rw [List.map_cons, separated_step _ (by simpa using more)]
        exact spells.append (spelled.cons .valueSeparator)
          (fun byte head => by cases head; rfl) (List.cons_ne_nil _ _)

/-- An array is written as what it is read back as. -/
theorem written_array (read : Json → Json) {elements : List Json}
    (each : ∀ element ∈ elements, ∀ text, dump float element = .ok text →
      Written strtod text (read element))
    {text : List UInt8} (done : dump float (.array elements) = .ok text) :
    Written strtod text (.array (elements.map read)) := by
  rw [dump] at done
  cases elements with
  | nil =>
    cases done
    exact ⟨_, .array [] nofun, Spells.cons .beginArray (Lexeme.spells .endArray)⟩
  | cons element rest =>
    obtain ⟨inner, dumped, rfl⟩ := map_eq_ok done
    obtain ⟨items, same, all, spelled⟩ := written_elements (List.cons_ne_nil _ _) each dumped
    -- The elements that are read are the values that the items denote.
    rw [← same]
    exact ⟨_, .array items all, Spells.cons .beginArray (spelled.append (Lexeme.spells .endArray)
      (fun byte head => by cases head; rfl) (List.cons_ne_nil _ _))⟩

/-- A key and its value are spelled with a colon between them. -/
theorem spells_member {name key text : List UInt8} {tokens : List Token} (value : Json)
    (body : StringBody name key) (spells : Spells strtod text tokens) :
    Spells strtod (0x22 :: name ++ [0x22, 0x3a] ++ text) (memberTokens (key, tokens, value)) := by
  have parts : 0x22 :: name ++ [0x22, 0x3a] ++ text =
      0x22 :: (name ++ [0x22]) ++ ([0x3a] ++ text) := by simp
  rw [parts]
  exact Spells.cons (.string body) (Spells.cons .nameSeparator spells)

/-- Members that are written one by one spell their tokens with commas between them. -/
theorem written_members {members : List (List UInt8 × Json)} (some_ : members ≠ [])
    (each : ∀ member ∈ members, ∀ text, dump float member.2 = .ok text →
      Written strtod text (read member.2))
    {text : List UInt8} (done : dumpMembers float members = .ok text) :
    ∃ items : List (List UInt8 × List Token × Json),
      items.map (fun item => (item.1, item.2.2)) =
        members.map (fun member => (member.1, read member.2)) ∧
      (∀ item ∈ items, Denotes item.2.1 item.2.2) ∧
      Spells strtod text (separated (items.map memberTokens)) := by
  -- As for elements, with a key and a colon in front of each value.
  induction members generalizing text with
  | nil => exact absurd rfl some_
  | cons member rest ih =>
    obtain ⟨key, value⟩ := member
    obtain ⟨first, others⟩ := List.forall_mem_cons.mp each
    rw [dumpMembers] at done
    cases escaped_ : dumpEscaped key with
    | error error => rw [escaped_] at done; cases done
    | ok name =>
      rw [escaped_] at done
      dsimp only at done
      cases dumped : dump float value with
      | error error => rw [dumped] at done; cases done
      | ok front =>
        obtain ⟨tokens, denotes, spells⟩ := first front dumped
        have member := spells_member (read value) (stringBody_dumpEscaped escaped_) spells
        rw [dumped] at done
        dsimp only at done
        cases rest with
        | nil =>
          cases done
          refine ⟨[(key, tokens, read value)], rfl, List.forall_mem_singleton.mpr denotes, ?_⟩
          rw [List.map_singleton, separated_singleton]
          exact member
        | cons next rest =>
          obtain ⟨back, later, rfl⟩ := map_eq_ok done
          obtain ⟨items, same, all, spelled⟩ := ih (List.cons_ne_nil _ _) others later
          have more : items ≠ [] := by
            rintro rfl
            cases same
          refine ⟨(key, tokens, read value) :: items, by rw [List.map_cons, same]; rfl,
            List.forall_mem_cons.mpr ⟨denotes, all⟩, ?_⟩
          rw [List.map_cons, separated_step _ (by simpa using more)]
          exact member.append (spelled.cons .valueSeparator)
            (fun byte head => by cases head; rfl) (List.cons_ne_nil _ _)

/-- Members whose keys ascend are the map that they make. -/
theorem membersMap_eq {items : List (List UInt8 × List Token × Json)}
    {members : List (List UInt8 × Json)}
    (same : items.map (fun item => (item.1, item.2.2)) = members)
    (ascending : Sorted.Ascending members) : membersMap items = members := by
  -- Keys that ascend are put at the end, one behind the other.
  have put := Sorted.foldl_insert ascending [] nofun
  rw [← same, List.foldl_map] at put
  rw [← same]
  exact put

/-- An object with ascending keys is written as what it is read back as. -/
theorem written_object (read : Json → Json) {members : List (List UInt8 × Json)}
    (ascending : Sorted.Ascending members)
    (each : ∀ member ∈ members, ∀ text, dump float member.2 = .ok text →
      Written strtod text (read member.2))
    {text : List UInt8} (done : dump float (.object members) = .ok text) :
    Written strtod text (.object (members.map fun member => (member.1, read member.2))) := by
  rw [dump] at done
  cases members with
  | nil =>
    cases done
    exact ⟨_, .object [] nofun, Spells.cons .beginObject (Lexeme.spells .endObject)⟩
  | cons member rest =>
    obtain ⟨inner, dumped, rfl⟩ := map_eq_ok done
    obtain ⟨items, same, all, spelled⟩ := written_members (List.cons_ne_nil _ _) each dumped
    -- No key comes twice, so the map holds every member.
    have put := membersMap_eq same (ascending.map _ fun _ _ less => less)
    rw [← put]
    exact ⟨_, .object items all, Spells.cons .beginObject (spelled.append
      (Lexeme.spells .endObject) (fun byte head => by cases head; rfl) (List.cons_ne_nil _ _))⟩

end

variable {grisu2 : UInt64 → Decimal}

/-- A word that nothing goes on with is written for its value. -/
theorem Lexeme.written {word : List UInt8} {token : Token} {value : Json}
    (lexeme : Lexeme strtod word token fun _ => False) (known : token.leaf = some value)
    (float : ∀ bits, token ≠ .valueFloat bits) : Written strtod word value :=
  ⟨[token], .leaf known fun bits same => absurd same (float bits), lexeme.spells⟩

/-- A number that is not negative is written as what it is read back as. -/
theorem written_unsigned (number : UInt64) :
    Written strtod (dumpInteger number.toNat) (.numberUnsigned number) := by
  obtain ⟨label, word, token⟩ := lexeme_unsigned strtod number
  have spells := @NumberWord.spells strtod _ _ _ word
  rw [token] at spells
  exact ⟨[.valueUnsigned number], .leaf rfl nofun, spells⟩

/-- A number that is not negative is the same as a signed one. -/
theorem toInt_of_nonneg {number : Int64} (nonneg : 0 ≤ number) :
    (number.toUInt64.toNat : Int) = number.toInt := by
  have sign : 0 ≤ number.toInt := Int64.le_iff_toInt_le.mp nonneg
  rw [Int64.toNat_toUInt64_of_le nonneg, ← Int64.toNat_toInt]
  omega

/-- A signed number is written as what it is read back as. -/
theorem written_integer (number : Int64) :
    Written strtod (dumpInteger number.toInt) (readTextLeaf (.numberInteger number)) := by
  -- The sign decides which of the two types is read back.
  rw [readTextLeaf]
  split
  · rename_i nonneg
    rw [← toInt_of_nonneg nonneg]
    exact written_unsigned number.toUInt64
  · rename_i negative
    -- The minus sign makes the parser look for a signed number.
    have negative : number.toInt < 0 := by
      rw [Int64.not_le, Int64.lt_iff_toInt_lt] at negative
      exact negative
    obtain ⟨label, word, token⟩ := lexeme_integer strtod negative
    have spells := @NumberWord.spells strtod _ _ _ word
    rw [token] at spells
    exact ⟨[.valueInteger number], .leaf rfl nofun, spells⟩

/-- A floating-point number is written as what it is read back as. -/
theorem written_float {bits : UInt64}
    (known : (Json.numberFloat bits).floatText grisu2 strtod = true) :
    Written strtod (dumpFloat grisu2 bits) (readTextLeaf (.numberFloat bits)) := by
  rw [readTextLeaf, dumpFloat]
  split
  · rename_i finite
    have same : strtod (toChars grisu2 bits) = bits := by
      simpa [Json.floatText, finite] using known
    obtain ⟨label, word⟩ := numberWord_toChars grisu2 bits
    have spells := @NumberWord.spells strtod _ _ _ word
    rw [numberToken, same] at spells
    exact ⟨_, .leaf rfl fun other same => by cases same; exact finite, spells⟩
  · -- There is no notation for it, and `null` is written.
    exact Lexeme.literalNull.written rfl (by simp)

/-- A binary value is written as an object of its bytes and its subtype. -/
theorem dump_binaryText (float : UInt64 → List UInt8) (bytes : List UInt8)
    (subtype : Option UInt64) :
    dump float (binaryText bytes subtype) = .ok (dumpBinary bytes subtype) := by
  -- The bytes are written one by one on both sides.
  have elements : ∀ bytes : List UInt8,
      dumpElements float (bytes.map fun byte => .numberUnsigned byte.toUInt64) =
        .ok (dumpBytes bytes) := by
    intro bytes
    induction bytes with
    | nil => rfl
    | cons byte rest ih =>
      rw [List.map_cons, dumpElements, dump]
      cases rest with
      | nil => rfl
      | cons next others =>
        rw [ih]
        rfl
  have array : dump float (.array (bytes.map fun byte => .numberUnsigned byte.toUInt64)) =
      .ok (0x5b :: (dumpBytes bytes ++ [0x5d])) := by
    rw [dump, elements]
    cases bytes <;> rfl
  have keys : dumpEscaped (ascii ['b', 'y', 't', 'e', 's']) =
        .ok (ascii ['b', 'y', 't', 'e', 's']) ∧
      dumpEscaped (ascii ['s', 'u', 'b', 't', 'y', 'p', 'e']) =
        .ok (ascii ['s', 'u', 'b', 't', 'y', 'p', 'e']) := by
    decide +kernel
  -- Both texts have the same keys in the same order.
  rw [binaryText, dump, dumpMembers, keys.1, array, dumpMembers, keys.2]
  cases subtype <;> simp [dumpBinary, dump, Except.map]

/-- A binary value is written as the object that it is read back as. -/
theorem written_binary (bytes : List UInt8) (subtype : Option UInt64) :
    Written strtod (dumpBinary bytes subtype) (binaryText bytes subtype) := by
  -- The branch for binary values writes what `dump` has for the parts of the object.
  have float : UInt64 → List UInt8 := fun _ => []
  have number : ∀ (value : UInt64) (text : List UInt8),
      dump float (.numberUnsigned value) = .ok text → Written strtod text (.numberUnsigned value) :=
    fun value text done => by
      cases done
      exact written_unsigned value
  have array : ∀ text, dump float (.array (bytes.map fun byte => .numberUnsigned byte.toUInt64)) =
      .ok text → Written strtod text
        (.array ((bytes.map fun byte => Json.numberUnsigned byte.toUInt64).map id)) :=
    fun text done => written_array id (fun element known text done => by
      obtain ⟨byte, _, rfl⟩ := List.mem_map.mp known
      exact number _ text done) done
  rw [List.map_id] at array
  -- The two keys ascend.
  have less : ascii ['b', 'y', 't', 'e', 's'] < ascii ['s', 'u', 'b', 't', 'y', 'p', 'e'] := by
    decide
  have ascending : Sorted.Ascending [
      (ascii ['b', 'y', 't', 'e', 's'], Json.array (bytes.map fun byte =>
        .numberUnsigned byte.toUInt64)),
      (ascii ['s', 'u', 'b', 't', 'y', 'p', 'e'],
        (subtype.map Json.numberUnsigned).getD .null)] :=
    .cons (List.forall_mem_singleton.mpr less) (List.pairwise_singleton _ _)
  refine written_object id ascending (fun member known text done => ?_)
    (dump_binaryText float bytes subtype)
  rcases List.mem_cons.mp known with rfl | known
  · exact array text done
  · obtain rfl := List.mem_singleton.mp known
    cases subtype with
    | none =>
      cases done
      exact Lexeme.literalNull.written rfl (by simp)
    | some subtype => exact number subtype text done

/-- A value is written as what it is read back as. -/
theorem written_dump {value : Json} {text : List UInt8}
    (done : dump (dumpFloat grisu2) value = .ok text)
    (ordered : value.all Json.ordered = true)
    (floats : value.all (Json.floatText grisu2 strtod) = true) :
    Written strtod text value.readText := by
  -- The induction is on the value with all its elements and members.
  induction value using Json.nested generalizing text with
  | object members ih =>
    obtain ⟨self, inside⟩ := Json.all_object.mp ordered
    obtain ⟨_, others⟩ := Json.all_object.mp floats
    rw [Json.readText, Json.rebuild_object]
    exact written_object Json.readText (of_decide_eq_true self) (fun member known text dumped =>
      ih member known dumped (inside member known) (others member known)) done
  | array elements ih =>
    obtain ⟨_, inside⟩ := Json.all_array.mp ordered
    obtain ⟨_, others⟩ := Json.all_array.mp floats
    rw [Json.readText, Json.rebuild_array]
    exact written_array Json.readText (fun element known text dumped =>
      ih element known dumped (inside element known) (others element known)) done
  | leaf value notObject notArray =>
    cases value with
    | object members => exact absurd rfl (notObject members)
    | array elements => exact absurd rfl (notArray elements)
    | null => cases done; exact Lexeme.literalNull.written rfl (by simp)
    | boolean value =>
      cases value with
      | true => cases done; exact Lexeme.literalTrue.written rfl (by simp)
      | false => cases done; exact Lexeme.literalFalse.written rfl (by simp)
    | numberInteger number => cases done; exact written_integer number
    | numberUnsigned number => cases done; exact written_unsigned number
    | numberFloat bits => cases done; exact written_float floats
    | string value =>
      obtain ⟨escaped_, body, rfl⟩ := map_eq_ok done
      exact (Lexeme.string (stringBody_dumpEscaped body)).written rfl (by simp)
    | binary bytes subtype => cases done; exact written_binary bytes subtype
    -- A discarded value is not ordered, so none is written.
    | discarded => cases ordered

/-- Where the lexer finds the end: behind whitespace there is nothing more, or a null byte. -/
def Ending (rest : List UInt8) : Prop :=
  ∃ blank behind, rest = blank ++ behind ∧ (∀ byte ∈ blank, byte ∈ whitespace) ∧
    (behind = [] ∨ behind.head? = some 0)

/-- The end of the input is an ending. -/
theorem Ending.nil : Ending [] := ⟨[], [], rfl, List.forall_mem_nil _, .inl rfl⟩

/-- The first byte of an ending, if there is one, is whitespace or a null byte. -/
theorem Ending.head {rest : List UInt8} (ending : Ending rest) :
    ∀ byte ∈ rest.head?, byte ∈ 0 :: whitespace := by
  obtain ⟨blank, behind, rfl, blanks, last⟩ := ending
  intro byte head
  cases blank with
  | nil =>
    rcases last with rfl | null
    · cases head
    · rw [Option.some.inj (head.symm.trans null)]
      exact List.mem_cons_self
  | cons first blank =>
    obtain rfl := Option.some.inj head
    exact List.mem_cons_of_mem _ (blanks _ List.mem_cons_self)

/-- The lexer finds the end. -/
theorem Ending.scans {rest : List UInt8} (ending : Ending rest) (asked : Nat) :
    ∃ last, scan strtod ⟨asked, rest⟩ = .ok (.endOfInput, last) := by
  -- Neither whitespace nor a null byte starts a byte order mark.
  have plain : ∀ byte ∈ 0 :: whitespace, byte ≠ 0xef := by simp [whitespace]
  rw [scan_eq fun _ same => plain _ (ending.head _ same) rfl]
  obtain ⟨blank, behind, rfl, blanks, last⟩ := ending
  rw [skipFrom_blank blanks]
  cases behind with
  | nil => exact ⟨_, rfl⟩
  | cons null behind =>
    rcases last with none_ | null_
    · cases none_
    · obtain rfl := Option.some.inj null_
      exact ⟨_, rfl⟩

/-- A text that spells a value is parsed as the value, up to where the text ends. -/
theorem Written.parse_eq {text : List UInt8} {value : Json} (written : Written strtod text value)
    {rest : List UInt8} (ending : Ending rest) : parse strtod (text ++ rest) = .ok value := by
  obtain ⟨tokens, denotes, spells⟩ := written
  -- No number goes on with what is behind the text.
  have plain : ∀ byte ∈ 0 :: whitespace, continuesNumber byte = false := by
    simp [whitespace, continuesNumber, isDigit, isExponent]
  obtain ⟨last, ended⟩ := @Ending.scans strtod rest ending (0 + text.length)
  exact (parse_iff strtod _ value).mpr ⟨tokens, _, last,
    spells 0 rest fun byte head => plain byte (ending.head byte head), denotes, ended⟩

/--
What `dump` writes is parsed as the value that was dumped.

Numbers that are not negative come back as unsigned ones, binary values as the objects that they
are written as, and what is no finite number comes back as null. That `strtod` finds the finite
numbers again is asked of those in the value only.
-/
theorem parse_dump (grisu2 : UInt64 → Decimal) (strtod : List UInt8 → UInt64) {value : Json}
    {text : List UInt8} (done : dump (dumpFloat grisu2) value = .ok text)
    (ordered : value.all Json.ordered = true)
    (floats : value.all (Json.floatText grisu2 strtod) = true) {rest : List UInt8}
    (ending : Ending rest) : parse strtod (text ++ rest) = .ok value.readText :=
  (written_dump done ordered floats).parse_eq ending

/-- A value with a number in each notation, and with texts that are escaped. -/
def textValue : Json :=
  .object [
    (ascii ['a', '\n'], .array [.numberInteger 7, .numberInteger (-7),
      .numberFloat 0x3ff8000000000000, .numberFloat 0x7ff0000000000000, .null, .boolean true]),
    ([0xc3, 0xa4], .binary [1, 255] (some 3))]

/-- The digits of 1.5 -/
def textDecimal : Decimal where
  digits := ascii ['1', '5']
  exponent := -1
  first_ne_zero := ⟨_, _, rfl, by decide⟩
  each := by decide +kernel
  small := by decide

/-- A nested value is read back from its line as what a text keeps of it. -/
theorem parse_dump_nested : ∃ text,
    dump (dumpFloat fun _ => textDecimal) textValue = .ok text ∧
      parse (fun _ => 0x3ff8000000000000) (text ++ [newline]) = .ok textValue.readText := by
  have valid : textValue.textsValid = true := by decide +kernel
  rw [← dump_isOk (dumpFloat fun _ => textDecimal)] at valid
  cases done : dump (dumpFloat fun _ => textDecimal) textValue with
  | error error =>
    rw [done] at valid
    cases valid
  | ok text =>
    refine ⟨text, rfl, parse_dump _ _ done (by decide +kernel) (by decide +kernel) ?_⟩
    exact ⟨[newline], [], rfl, by decide +kernel, .inl rfl⟩

/-- Elements are dumped alike when each of them is. -/
theorem dumpElements_map {float : UInt64 → List UInt8} {read : Json → Json} {elements : List Json}
    (each : ∀ element ∈ elements, dump float (read element) = dump float element) :
    dumpElements float (elements.map read) = dumpElements float elements := by
  induction elements with
  | nil => rfl
  | cons element rest ih =>
    obtain ⟨first, others⟩ := List.forall_mem_cons.mp each
    rw [List.map_cons, dumpElements, dumpElements, first, ih others, List.isEmpty_map]

/-- Members are dumped alike when their values are. -/
theorem dumpMembers_map {float : UInt64 → List UInt8} {read : Json → Json}
    {members : List (List UInt8 × Json)}
    (each : ∀ member ∈ members, dump float (read member.2) = dump float member.2) :
    dumpMembers float (members.map fun member => (member.1, read member.2)) =
      dumpMembers float members := by
  induction members with
  | nil => rfl
  | cons member rest ih =>
    obtain ⟨first, others⟩ := List.forall_mem_cons.mp each
    rw [List.map_cons, dumpMembers, dumpMembers, first, ih others, List.isEmpty_map]

/-- What is read back is dumped as the same text. -/
theorem dump_readText (grisu2 : UInt64 → Decimal) (value : Json) :
    dump (dumpFloat grisu2) value.readText = dump (dumpFloat grisu2) value := by
  -- The induction is on the nesting, and only the leaves are changed by being read back.
  induction value using Json.nested with
  | object members ih =>
    have alike := dumpMembers_map ih
    rw [Json.readText, Json.rebuild_object, dump, dump, List.isEmpty_map]
    exact congrArg (fun text => if members.isEmpty then _ else Except.map _ text) alike
  | array elements ih =>
    have alike := dumpElements_map ih
    rw [Json.readText, Json.rebuild_array, dump, dump, List.isEmpty_map]
    exact congrArg (fun text => if elements.isEmpty then _ else Except.map _ text) alike
  | leaf value notObject notArray =>
    cases value with
    | object members => exact absurd rfl (notObject members)
    | array elements => exact absurd rfl (notArray elements)
    | numberInteger number =>
      show dump _ (readTextLeaf (.numberInteger number)) = _
      rw [readTextLeaf]
      split
      · rename_i nonneg
        rw [dump, dump, toInt_of_nonneg nonneg]
      · rfl
    | numberFloat bits =>
      show dump _ (readTextLeaf (.numberFloat bits)) = _
      rw [readTextLeaf]
      split
      · rfl
      · rename_i infinite
        rw [dump, dump, dumpFloat, if_neg infinite]
    | binary bytes subtype => exact dump_binaryText _ bytes subtype
    | _ => rfl

/--
Two values are dumped as the same text exactly when they are read back as the same value.

A text therefore stands for one value only, of those that can be dumped and read.
-/
theorem dump_eq_iff (grisu2 : UInt64 → Decimal) (strtod : List UInt8 → UInt64) {value other : Json}
    (valid : value.textsValid = true) (ordered : value.all Json.ordered = true)
    (floats : value.all (Json.floatText grisu2 strtod) = true)
    (orderedOther : other.all Json.ordered = true)
    (floatsOther : other.all (Json.floatText grisu2 strtod) = true) :
    dump (dumpFloat grisu2) value = dump (dumpFloat grisu2) other ↔
      value.readText = other.readText := by
  constructor
  · -- Each text is read as what its own value is read back as.
    intro same
    rw [← dump_isOk (dumpFloat grisu2)] at valid
    cases done : dump (dumpFloat grisu2) value with
    | error error =>
      rw [done] at valid
      cases valid
    | ok text =>
      have one := (written_dump done ordered floats).parse_eq .nil
      have two := (written_dump (same ▸ done) orderedOther floatsOther).parse_eq .nil
      exact Except.ok.inj (one.symm.trans two)
  · -- What is read back is dumped as the text that it comes from.
    intro same
    rw [← dump_readText grisu2 value, same, dump_readText]

/-- A signed number and an unsigned one of the same value have the same text. -/
theorem dump_eq_iff_signed :
    dump (dumpFloat fun _ => textDecimal)
        (.array [.numberInteger 7, .numberFloat 0x3ff8000000000000]) =
      dump (dumpFloat fun _ => textDecimal)
        (.array [.numberUnsigned 7, .numberFloat 0x3ff8000000000000]) ↔
      (Json.array [.numberInteger 7, .numberFloat 0x3ff8000000000000]).readText =
        (Json.array [.numberUnsigned 7, .numberFloat 0x3ff8000000000000]).readText :=
  dump_eq_iff _ (fun _ => 0x3ff8000000000000) (by decide) (by decide) (by decide +kernel)
    (by decide) (by decide +kernel)

/--
What was parsed can be dumped, and what that gives is parsed and dumped as itself.

The text that is dumped first is final: it stands for the value, and the value for it.
-/
theorem parse_again (grisu2 : UInt64 → Decimal) (strtod : List UInt8 → UInt64) {data : List UInt8}
    {value : Json} (parsed : parse strtod data = .ok value)
    (floats : value.all (Json.floatText grisu2 strtod) = true) :
    ∃ text, dump (dumpFloat grisu2) value = .ok text ∧ parse strtod text = .ok value.readText ∧
      dump (dumpFloat grisu2) value.readText = .ok text := by
  -- What the parser returns meets all that the round trip of `dump` asks of a value.
  have textual := parse_result strtod data
  rw [parsed] at textual
  -- What the parser returns has ascending keys, and it discards nothing.
  have ordered : value.all Json.ordered = true := Json.all_imp (fun value holds => by
    cases value with
    | object members => exact (Bool.and_eq_true_iff.mp holds).1
    | discarded => exact holds
    | _ => rfl) textual
  -- Texts that come from the parser are valid, so that the dump does not fail.
  have valid := textsValid_of_textual textual
  rw [← dump_isOk (dumpFloat grisu2)] at valid
  cases done : dump (dumpFloat grisu2) value with
  | error error =>
    rw [done] at valid
    cases valid
  | ok text =>
    have read := (written_dump done ordered floats).parse_eq .nil
    rw [List.append_nil] at read
    exact ⟨text, rfl, read, (dump_readText grisu2 value).trans done⟩

/-- A negative zero in a text is dumped as a zero, and that text is final. -/
theorem parse_again_zero : ∃ text,
    dump (dumpFloat fun _ => textDecimal) (.array [.numberInteger 0]) = .ok text ∧
      parse (fun _ => 0) text = .ok (Json.array [.numberInteger 0]).readText ∧
      dump (dumpFloat fun _ => textDecimal) (Json.array [.numberInteger 0]).readText =
        .ok text := by
  have parsed : parse (fun _ => 0) (ascii ['[', ' ', '-', '0', ']']) =
      .ok (.array [.numberInteger 0]) := by rfl
  exact parse_again _ _ parsed (by decide)

end Esme
