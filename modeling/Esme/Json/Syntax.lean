import Esme.Json.Scanning
import Esme.Json.TextRoundTrip

/-! The syntax of JSON texts byte by byte, and that `parse` accepts exactly the texts it has. -/

namespace Esme

open Reading

/-- The mark that `skip_bom` skips -/
def byteOrderMark : List UInt8 := [0xef, 0xbb, 0xbf]

/-- A text whose words are the tokens, with whitespace in front of them, up to some rest. -/
inductive Text (strtod : List UInt8 → UInt64) :
    List Token → List UInt8 → List UInt8 → Prop where
  | nil (rest : List UInt8) : Text strtod [] rest rest
  | cons {blank word text rest : List UInt8} {token : Token} {tokens : List Token}
      {follow : UInt8 → Prop} (blanks : ∀ byte ∈ blank, byte ∈ whitespace)
      (lexeme : Lexeme strtod word token follow) (ended : ∀ byte ∈ text.head?, ¬follow byte)
      (others : Text strtod tokens text rest) :
      Text strtod (token :: tokens) (blank ++ (word ++ text)) rest

variable {strtod : List UInt8 → UInt64} {cursor : Cursor UInt8}

/-- What a token that is no failure was in front of what is left. -/
def Token.InFront (strtod : List UInt8 → UInt64) (text : List UInt8) (token : Token)
    (after : Cursor UInt8) : Prop :=
  token = .parseError ∨ (token = .endOfInput ∧ Ending text) ∨
    ∃ blank word follow, (∀ byte ∈ blank, byte ∈ whitespace) ∧
      Lexeme strtod word token follow ∧ (∀ byte ∈ after.rest.head?, ¬follow byte) ∧
      text = blank ++ (word ++ after.rest)

/-- Behind the whitespace there is a word, or the end. -/
theorem inFront_of_scanToken {asked : Nat} {text : List UInt8} {token : Token}
    {after : Cursor UInt8}
    (scanned : scanToken strtod (skipFrom isWhitespace asked text).1
      (skipFrom isWhitespace asked text).2 = .ok (token, after)) :
    token.InFront strtod text after := by
  obtain ⟨blank, blanks, front⟩ := skipFrom_front asked text
  -- The whitespace is skipped up to the first other byte, or to the end.
  cases found : (skipFrom isWhitespace asked text).1 with
  | none =>
    have none_ := (skipFrom_left isWhitespace asked text).2 found
    rw [found] at scanned
    cases scanned
    rw [found, none_] at front
    exact .inr (.inl ⟨rfl, blank, [], front, blanks, .inl rfl⟩)
  | some first =>
    rw [found] at scanned front
    -- With that byte the scan fails, or ends at a null byte, or takes a word.
    rcases ensures_scanToken first token after scanned with
      failed | ⟨rfl, null⟩ | ⟨word, follow, lexeme, ended, rest⟩
    · exact .inl failed
    · exact .inr (.inl ⟨rfl, blank, _, front, blanks, .inr null⟩)
    · exact .inr (.inr ⟨blank, word, follow, blanks, lexeme, ended, by
        rw [front, ← rest]; rfl⟩)

/-- Behind the first token there is no byte order mark. -/
theorem inFront_of_scan (behind : cursor.asked ≠ 0) :
    Ensures (scan strtod) cursor fun token after => token.InFront strtod cursor.rest after := by
  intro token after scanned
  -- The mark is only looked for in front of the first byte.
  rw [scan_eq fun front => absurd front behind] at scanned
  exact inFront_of_scanToken scanned

/-- What is read in front of everything else. -/
theorem skipBom_eq (text : List UInt8) :
    (∃ rest, text = byteOrderMark ++ rest) ∨ text.head? ≠ some 0xef ∨
      ∃ after, (skipBom : ByteReading Bool) ⟨0, text⟩ = .ok (false, after) := by
  -- The first three bytes decide, one after the other.
  by_cases mark : text.head? = some 0xef
  · refine .imp_right .inr ?_
    -- Behind the first byte of the mark the other two are required.
    obtain ⟨text, rfl⟩ : ∃ others, text = 0xef :: others := by
      cases text with
      | nil => cases mark
      | cons first others => exact ⟨others, by rw [Option.some.inj mark]⟩
    cases text with
    | nil => exact .inr ⟨_, rfl⟩
    | cons second text =>
      by_cases two : second = 0xbb
      · subst two
        cases text with
        | nil => exact .inr ⟨_, rfl⟩
        | cons third rest =>
          by_cases three : third = 0xbf
          · subst three
            exact .inl ⟨rest, rfl⟩
          · refine .inr ⟨⟨3, rest⟩, ?_⟩
            show (if some third = some 0xbf then pure true else pure false : ByteReading Bool)
              ⟨3, rest⟩ = _
            rw [if_neg fun same => three (Option.some.inj same)]
            rfl
      · refine .inr ⟨⟨2, text⟩, ?_⟩
        show (if some second = some 0xbb then _ else pure false : ByteReading Bool)
          ⟨2, text⟩ = _
        rw [if_neg fun same => two (Option.some.inj same)]
        rfl
  · exact .inr (.inl mark)

/-- A byte order mark in front of everything is skipped. -/
theorem scan_mark (rest : List UInt8) :
    scan strtod ⟨0, byteOrderMark ++ rest⟩ = scan strtod ⟨3, rest⟩ := rfl

/-- The first token is behind a byte order mark, if there is one. -/
theorem inFront_of_first {data : List UInt8} {token : Token} {after : Cursor UInt8}
    (scanned : scan strtod ⟨0, data⟩ = .ok (token, after)) :
    ∃ mark text, data = mark ++ text ∧ (mark = [] ∨ mark = byteOrderMark) ∧
      token.InFront strtod text after := by
  rcases skipBom_eq data with ⟨rest, rfl⟩ | plain | ⟨last, failed⟩
  · rw [scan_mark] at scanned
    exact ⟨byteOrderMark, rest, rfl, .inr rfl,
      inFront_of_scan (Nat.succ_ne_zero 2) token after scanned⟩
  · rw [scan_eq fun _ => plain] at scanned
    exact ⟨[], data, rfl, .inl rfl, inFront_of_scanToken scanned⟩
  · -- A broken mark is a token that is an error.
    refine ⟨[], data, rfl, .inl rfl, .inl ?_⟩
    rw [scan, bind_eq] at scanned
    dsimp only at scanned
    rw [if_pos rfl, failed] at scanned
    cases scanned
    rfl

/-- A token that a value can be made of. -/
def Token.Proper (token : Token) : Prop := token ≠ .parseError ∧ token ≠ .endOfInput

/-- The tokens of a value are none that stand for no word. -/
theorem Denotes.proper {tokens : List Token} {value : Json} (denotes : Denotes tokens value) :
    ∀ token ∈ tokens, token.Proper := by
  -- Commas between proper tokens leave all of them proper.
  have put : ∀ parts : List (List Token), (∀ part ∈ parts, ∀ token ∈ part, token.Proper) →
      ∀ token ∈ separated parts, token.Proper := by
    intro parts each
    induction parts with
    | nil => exact nofun
    | cons part parts ih =>
      obtain ⟨first, others⟩ := List.forall_mem_cons.mp each
      by_cases some_ : parts = []
      · rw [some_, separated_singleton]
        exact first
      · rw [separated_step part some_]
        exact List.forall_mem_append.mpr
          ⟨first, List.forall_mem_cons.mpr ⟨⟨nofun, nofun⟩, ih others⟩⟩
  -- The induction is on the derivation.
  induction denotes with
  | @leaf token value known finite =>
    refine List.forall_mem_singleton.mpr ⟨?_, ?_⟩ <;> rintro rfl <;> cases known
  | array items each ih =>
    refine List.forall_mem_cons.mpr ⟨⟨nofun, nofun⟩, List.forall_mem_append.mpr
      ⟨put _ ?_, List.forall_mem_singleton.mpr ⟨nofun, nofun⟩⟩⟩
    exact List.forall_mem_map.mpr ih
  | object members each ih =>
    refine List.forall_mem_cons.mpr ⟨⟨nofun, nofun⟩, List.forall_mem_append.mpr
      ⟨put _ ?_, List.forall_mem_singleton.mpr ⟨nofun, nofun⟩⟩⟩
    refine List.forall_mem_map.mpr fun member inside => ?_
    exact List.forall_mem_cons.mpr ⟨⟨nofun, nofun⟩, List.forall_mem_cons.mpr
      ⟨⟨nofun, nofun⟩, ih member inside⟩⟩

/-- No word stands for the end of the input. -/
theorem Lexeme.ne_endOfInput {word : List UInt8} {token : Token} {follow : UInt8 → Prop}
    (lexeme : Lexeme strtod word token follow) : token ≠ .endOfInput := by
  cases lexeme with
  | @number label type word number =>
    -- An integer that does not fit is a floating-point number, and so a number in any case.
    cases type with
    | unsigned =>
      rw [numberToken]
      cases strtoull word <;> simp
    | integer =>
      rw [numberToken]
      cases strtoll word <;> simp
    | float => simp [numberToken]
  | _ => simp

/-- A word that was scanned has been asked for. -/
theorem Lexeme.asked {blank word : List UInt8} {token : Token} {follow : UInt8 → Prop}
    {asked : Nat} {after : Cursor UInt8} (lexeme : Lexeme strtod word token follow)
    (blanks : ∀ byte ∈ blank, byte ∈ whitespace)
    (ended : ∀ byte ∈ after.rest.head?, ¬follow byte)
    (scanned : scan strtod ⟨asked, blank ++ (word ++ after.rest)⟩ = .ok (token, after)) :
    after.asked ≠ 0 := by
  -- The word takes at least its first byte.
  have again := lexeme.scans blank blanks asked ended
  obtain ⟨-, same⟩ := Prod.mk.inj (Except.ok.inj (scanned.symm.trans again))
  obtain ⟨first, others, rfl, -⟩ := lexeme.takes
  rw [same]
  exact Nat.ne_of_gt (by simp only [List.length_append, List.length_cons]; omega)

/-- Proper tokens that are scanned behind the first one are the words of a text. -/
theorem text_of_scans {tokens : List Token} {after : Cursor UInt8}
    (scans : Scans (scan strtod) cursor tokens after) (behind : cursor.asked ≠ 0)
    (proper : ∀ token ∈ tokens, token.Proper) :
    Text strtod tokens cursor.rest after.rest ∧ after.asked ≠ 0 := by
  -- The induction is on the scans; behind each word something has been asked for.
  induction scans with
  | nil cursor => exact ⟨.nil _, behind⟩
  | @cons cursor between after token tokens first others ih =>
    obtain ⟨⟨noError, noEnd⟩, rest⟩ := List.forall_mem_cons.mp proper
    obtain ⟨asked, text⟩ := cursor
    rcases inFront_of_scan behind token between first with
      failed | ⟨ended, -⟩ | ⟨blank, word, follow, blanks, lexeme, ended, rfl⟩
    · exact absurd failed noError
    · exact absurd ended noEnd
    · obtain ⟨more, last⟩ := ih (lexeme.asked blanks ended first) rest
      exact ⟨.cons blanks lexeme ended more, last⟩

/-- The words of a text are scanned as its tokens. -/
theorem Text.scans {tokens : List Token} {text rest : List UInt8}
    (written : Text strtod tokens text rest) (asked : Nat) :
    ∃ after, Scans (scan strtod) ⟨asked, text⟩ tokens ⟨after, rest⟩ := by
  -- The induction is on the words, each of which is scanned where the last one ended.
  induction written generalizing asked with
  | nil rest => exact ⟨asked, .nil _⟩
  | @cons blank word text rest token tokens follow blanks lexeme ended others ih =>
    obtain ⟨after, scans⟩ := ih (asked + (blank ++ word).length)
    exact ⟨after, .cons (lexeme.scans blank blanks asked ended) scans⟩

/-- A text that is parsed is made of the words of its value. -/
theorem text_of_parse {data : List UInt8} {value : Json}
    (parsed : parse strtod data = .ok value) :
    ∃ mark text tokens rest, data = mark ++ text ∧ (mark = [] ∨ mark = byteOrderMark) ∧
      Text strtod tokens text rest ∧ Denotes tokens value ∧ Ending rest := by
  -- The words come from the tokens that the parser has read, the first of them behind a mark.
  obtain ⟨tokens, after, last, scans, denotes, ended⟩ := (parse_iff strtod data value).mp parsed
  obtain ⟨first, others, rfl, -⟩ := denotes.head
  obtain ⟨⟨noError, noEnd⟩, proper⟩ := List.forall_mem_cons.mp denotes.proper
  obtain ⟨between, scanned, later⟩ := Scans.cons_iff.mp scans
  -- A mark can only stand in front of the first word.
  obtain ⟨mark, text, rfl, which, front⟩ := inFront_of_first scanned
  rcases front with failed | ⟨ended, -⟩ | ⟨blank, word, follow, blanks, lexeme, free, rfl⟩
  · exact absurd failed noError
  · exact absurd ended noEnd
  -- Behind the first word the lexer does not look for a mark any more.
  have asked : between.asked ≠ 0 := by
    rcases which with rfl | rfl
    · exact lexeme.asked blanks free scanned
    · exact lexeme.asked blanks free ((scan_mark _).symm.trans scanned)
  obtain ⟨more, behind⟩ := text_of_scans later asked proper
  refine ⟨mark, _, _, after.rest, rfl, which, .cons blanks lexeme free more, denotes, ?_⟩
  -- What is scanned behind the value is the end of the input.
  rcases inFront_of_scan behind _ last ended with
    failed | ⟨-, ending⟩ | ⟨_, _, _, _, lexeme, _⟩
  · cases failed
  · exact ending
  · exact absurd rfl lexeme.ne_endOfInput

/-- A text that is made of the words of a value is parsed as it. -/
theorem parse_of_text {mark text rest : List UInt8} {tokens : List Token} {value : Json}
    (which : mark = [] ∨ mark = byteOrderMark) (written : Text strtod tokens text rest)
    (denotes : Denotes tokens value) (ending : Ending rest) :
    parse strtod (mark ++ text) = .ok value := by
  rw [parse_iff]
  rcases which with rfl | rfl
  · obtain ⟨asked, scans⟩ := written.scans 0
    obtain ⟨last, ended⟩ := ending.scans asked
    exact ⟨tokens, _, last, scans, denotes, ended⟩
  · -- The first word is found behind the mark.
    obtain ⟨asked, scans⟩ := written.scans 3
    obtain ⟨last, ended⟩ := ending.scans asked
    obtain ⟨first, others, rfl, -⟩ := denotes.head
    obtain ⟨between, scanned, scans⟩ := Scans.cons_iff.mp scans
    exact ⟨_, _, last, .cons ((scan_mark text).trans scanned) scans, denotes, ended⟩

/--
`parse` accepts exactly the texts that the words of a value's tokens make, up to an ending.

The words stand behind each other with any whitespace between them, and nothing that goes on with
a number stands behind one. A byte order mark may be in front.
-/
theorem parse_text_iff (strtod : List UInt8 → UInt64) (data : List UInt8) (value : Json) :
    parse strtod data = .ok value ↔
      ∃ mark text tokens rest, data = mark ++ text ∧ (mark = [] ∨ mark = byteOrderMark) ∧
        Text strtod tokens text rest ∧ Denotes tokens value ∧ Ending rest := by
  constructor
  · exact text_of_parse
  · rintro ⟨mark, text, tokens, rest, rfl, which, written, denotes, ending⟩
    exact parse_of_text which written denotes ending

end Esme
