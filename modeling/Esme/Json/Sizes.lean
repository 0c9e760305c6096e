import Mathlib.Data.List.Induction
import Esme.Json.Syntax

/-! How large the values are that `parse` makes of a text. -/

namespace Esme

variable {strtod : List UInt8 → UInt64}

/-- There are as many hexadecimal digits as are counted. -/
theorem HexDigits.length_eq {count value : Nat} {letters : List UInt8}
    (digits : HexDigits count letters value) : letters.length = count := by
  induction digits with
  | nil => rfl
  | cons _ _ ih => rw [List.length_cons, ih]

/-- A code point is translated into four bytes at most. -/
theorem length_codepointBytes_le (codepoint : Nat) : (codepointBytes codepoint).length ≤ 4 := by
  simp only [codepointBytes]
  split
  · exact (by decide : 1 ≤ 4)
  split
  · exact (by decide : 2 ≤ 4)
  split
  · exact (by decide : 3 ≤ 4)
  · exact Nat.le_refl 4

/-- An escape is no shorter than what it stands for. -/
theorem EscapeWord.length_le {written added : List UInt8} (one : EscapeWord written added) :
    added.length ≤ written.length := by
  cases one with
  | letter known => exact Nat.le_refl 1
  -- The letter `u` and four digits are five bytes, and a codepoint is four at most.
  | @codepoint letters codepoint digits scalar =>
    have four := length_codepointBytes_le codepoint
    rw [List.length_cons, digits.length_eq]
    omega
  | @surrogates letters others high low first second isHigh isLow =>
    have four := length_codepointBytes_le (high * 2 ^ 10 + low - 0x35fdc00)
    rw [List.length_cons, List.length_append, first.length_eq]
    omega

/-- What stands between two quotes is no shorter than the text. -/
theorem StringBody.length_le {written text : List UInt8} (body : StringBody written text) :
    text.length ≤ written.length := by
  -- The induction is on the pieces of the text.
  induction body with
  | nil => exact Nat.le_refl 0
  | @append written text others rest first later ih =>
    have piece : text.length ≤ written.length := by
      cases first with
      | plain one free => exact Nat.le_refl _
      | escape one => exact Nat.le_succ_of_le one.length_le
    rw [List.length_append, List.length_append]
    omega

/-- How many bytes a token takes at least. -/
def Token.load : Token → Nat
  | .valueString text => text.length + 1
  | _ => 1

/-- How many bytes tokens take at least. -/
def load (tokens : List Token) : Nat := (tokens.map Token.load).sum

/-- Tokens in two parts take what both parts take. -/
theorem load_append (tokens more : List Token) :
    load (tokens ++ more) = load tokens + load more := by
  rw [load, List.map_append, List.sum_append]
  rfl

/-- The first token takes bytes of its own. -/
theorem load_cons (token : Token) (tokens : List Token) :
    load (token :: tokens) = token.load + load tokens := by
  rw [load, List.map_cons, List.sum_cons]
  rfl

/-- Every token takes a byte. -/
theorem Token.load_pos (token : Token) : 0 < token.load := by
  cases token with
  | valueString text => exact Nat.succ_pos _
  | _ => exact Nat.one_pos

/-- A word is no shorter than its token asks for. -/
theorem Lexeme.load_le {word : List UInt8} {token : Token} {follow : UInt8 → Prop}
    (lexeme : Lexeme strtod word token follow) : token.load ≤ word.length := by
  -- A word has a first character.
  have some_ : 0 < word.length := by
    obtain ⟨first, others, rfl, -⟩ := lexeme.takes
    exact Nat.succ_pos _
  cases lexeme with
  | @string written text body =>
    have inside := body.length_le
    rw [Token.load, List.length_cons, List.length_append]
    omega
  | @number label type word number =>
    -- The token of a number holds no text.
    cases type with
    | unsigned =>
      rw [numberToken]
      cases strtoull word <;> exact some_
    | integer =>
      rw [numberToken]
      cases strtoll word <;> exact some_
    | float => exact some_
  | _ => exact some_

/-- A text is no shorter than its tokens ask for. -/
theorem Text.load_le {tokens : List Token} {text rest : List UInt8}
    (written : Text strtod tokens text rest) : load tokens ≤ text.length := by
  -- The induction is on the words of the text.
  induction written with
  | nil rest => exact Nat.zero_le _
  | cons blanks lexeme ended others ih =>
    have first := lexeme.load_le
    rw [load_cons, List.length_append, List.length_append]
    omega

/-- Every part of a list takes no more than all of them with commas between them. -/
theorem load_le_separated {parts : List (List Token)} {part : List Token} (member : part ∈ parts) :
    load part ≤ load (separated parts) := by
  -- The induction is on the parts, each but the first behind a comma.
  induction parts with
  | nil => exact absurd member List.not_mem_nil
  | cons first parts ih =>
    rw [separated_cons, load_append]
    rcases List.mem_cons.mp member with rfl | later
    · exact Nat.le_add_right _ _
    · have front := ih later
      cases parts with
      | nil => exact absurd later List.not_mem_nil
      | cons next parts =>
        rw [separated_cons, load_append] at front
        rw [List.flatMap_cons, List.cons_append, load_cons, load_append]
        omega

/-- There are no more parts than bytes, where each part takes one. -/
theorem length_le_separated {parts : List (List Token)} (each : ∀ part ∈ parts, 0 < load part) :
    parts.length ≤ load (separated parts) := by
  -- Every part takes a byte of its own.
  induction parts with
  | nil => exact Nat.zero_le _
  | cons first parts ih =>
    obtain ⟨some_, others⟩ := List.forall_mem_cons.mp each
    have rest := ih others
    cases parts with
    | nil =>
      rw [separated_singleton]
      exact some_
    | cons next parts =>
      rw [separated_step first (List.cons_ne_nil _ _), load_append, load_cons, List.length_cons]
      have comma : Token.valueSeparator.load = 1 := rfl
      omega

/-- The tokens of a value take a byte. -/
theorem Denotes.load_pos {tokens : List Token} {value : Json} (denotes : Denotes tokens value) :
    0 < load tokens := by
  obtain ⟨first, others, rfl, -⟩ := denotes.head
  rw [load_cons]
  exact Nat.add_pos_left first.load_pos _

/-- What a map has been put together from. -/
theorem membersMap_spec (members : List (List UInt8 × List Token × Json)) :
    Sorted.Ascending (membersMap members) ∧ (membersMap members).length ≤ members.length ∧
      ∀ entry ∈ membersMap members, ∃ member ∈ members, entry = (member.1, member.2.2) := by
  -- The induction is on the members in front of the last one.
  induction members using List.reverseRecOn with
  | nil => exact ⟨.nil, Nat.le_refl 0, fun _ inside => absurd inside List.not_mem_nil⟩
  | append_singleton members member ih =>
    obtain ⟨ascending, few, each⟩ := ih
    rw [membersMap, List.foldl_append, List.foldl_cons, List.foldl_nil]
    refine ⟨Sorted.ascending_insert ascending, ?_, fun entry inside => ?_⟩
    · rw [List.length_append, List.length_singleton]
      exact Nat.le_trans (Sorted.length_insert_le _ _ _) (Nat.succ_le_succ few)
    · rcases Sorted.mem_insert inside with rfl | old
      · exact ⟨member, by simp, rfl⟩
      · obtain ⟨other, front, same⟩ := each entry old
        exact ⟨other, List.mem_append_left _ front, same⟩

/-- Nothing in a value is longer than what its tokens take. -/
theorem Denotes.sized {tokens : List Token} {value : Json} (denotes : Denotes tokens value)
    {bound : Nat} (enough : load tokens ≤ bound) :
    value.all (Json.sized bound bound bound) = true := by
  -- The induction is on the derivation, with the same bound for all of the value.
  induction denotes with
  | @leaf token value known finite =>
    cases token with
    | valueString text =>
      cases known
      rw [load, List.map_singleton, List.sum_singleton, Token.load] at enough
      exact decide_eq_true (Nat.le_of_succ_le enough)
    | _ => cases known <;> rfl
  | array items each ih =>
    rw [load_cons, load_append] at enough
    refine Json.all_array.mpr ⟨decide_eq_true ?_, fun element inside => ?_⟩
    · have few := @length_le_separated (items.map Prod.fst)
        (List.forall_mem_map.mpr fun item inside => (each item inside).load_pos)
      rw [List.length_map] at few ⊢
      omega
    · obtain ⟨item, origin, rfl⟩ := List.mem_map.mp inside
      have part := load_le_separated (List.mem_map_of_mem (f := Prod.fst) origin)
      exact ih item origin (by omega)
  | object members each ih =>
    rw [load_cons, load_append] at enough
    obtain ⟨ascending, few, entries⟩ := membersMap_spec members
    -- What a member takes is what its key and its value take.
    have member_le : ∀ member ∈ members,
        member.1.length ≤ bound ∧ load member.2.1 ≤ bound := fun member inside => by
      have part := load_le_separated (List.mem_map_of_mem (f := memberTokens) inside)
      rw [memberTokens, load_cons, load_cons, Token.load] at part
      omega
    refine Json.all_object.mpr ⟨?_, fun entry inside => ?_⟩
    · have most := @length_le_separated (members.map memberTokens)
        (List.forall_mem_map.mpr fun member _ => by
          rw [memberTokens, load_cons]
          exact Nat.add_pos_left (Token.load_pos _) _)
      rw [List.length_map] at most
      simp only [Json.sized, Bool.and_eq_true, decide_eq_true_eq, List.all_eq_true]
      refine ⟨⟨ascending, by omega⟩, fun entry inside => ?_⟩
      obtain ⟨member, origin, rfl⟩ := entries entry inside
      exact (member_le member origin).1
    · obtain ⟨member, origin, rfl⟩ := entries entry inside
      exact ih member origin (member_le member origin).2

/-- Nothing that `parse` returns is longer than the text. -/
theorem parse_sized {data : List UInt8} {value : Json} (parsed : parse strtod data = .ok value) :
    value.all (Json.sized data.length data.length data.length) = true := by
  obtain ⟨mark, text, tokens, rest, rfl, -, written, denotes, -⟩ := text_of_parse parsed
  refine denotes.sized (Nat.le_trans written.load_le ?_)
  rw [List.length_append]
  exact Nat.le_add_left _ _

end Esme
