import Mathlib.Data.List.Basic
import Esme.Json.Parsing

/-! The grammar of JSON, and that the parser with its stack accepts exactly what it derives. -/

namespace Esme

open Reading

/-- Parts with a comma between each two of them. -/
def separated (parts : List (List Token)) : List Token :=
  List.intercalate [.valueSeparator] parts

/-- A key, a colon and the tokens of a value -/
def memberTokens (member : List UInt8 × List Token × Json) : List Token :=
  .valueString member.1 :: .nameSeparator :: member.2.1

/-- Members one after the other, where the last one with a key counts. -/
def membersMap (members : List (List UInt8 × List Token × Json)) : List (List UInt8 × Json) :=
  members.foldl (fun map member => Sorted.insert member.1 member.2.2 map) []

/-- Tokens that are a value. -/
inductive Denotes : List Token → Json → Prop where
  | leaf {token : Token} {value : Json} (known : token.leaf = some value)
      (finite : ∀ bits, token = .valueFloat bits → isFinite bits = true) : Denotes [token] value
  | array (items : List (List Token × Json)) (each : ∀ item ∈ items, Denotes item.1 item.2) :
      Denotes (.beginArray :: (separated (items.map Prod.fst) ++ [.endArray]))
        (.array (items.map Prod.snd))
  | object (members : List (List UInt8 × List Token × Json))
      (each : ∀ member ∈ members, Denotes member.2.1 member.2.2) :
      Denotes (.beginObject :: (separated (members.map memberTokens) ++ [.endObject]))
        (.object (membersMap members))

/-- A single part has nothing to be separated from. -/
theorem separated_singleton (part : List Token) : separated [part] = part := by
  simp [separated]

/-- A part and a comma are in front of the other parts. -/
theorem separated_step (part : List Token) {parts : List (List Token)} (some_ : parts ≠ []) :
    separated (part :: parts) = part ++ .valueSeparator :: separated parts := by
  cases parts with
  | nil => exact absurd rfl some_
  | cons next parts => simp [separated, List.intercalate]

/-- Behind the first part each of the others has a comma in front of it. -/
theorem separated_cons (part : List Token) (parts : List (List Token)) :
    separated (part :: parts) = part ++ parts.flatMap fun part => .valueSeparator :: part := by
  induction parts generalizing part with
  | nil => rw [separated_singleton, List.flatMap_nil, List.append_nil]
  | cons next parts ih =>
    rw [separated_step part (List.cons_ne_nil _ _), ih next, List.flatMap_cons, List.cons_append]

/-- In front of the last part each of the others has a comma behind it. -/
theorem separated_snoc (parts : List (List Token)) (part : List Token) :
    separated (parts ++ [part]) =
      (parts.flatMap fun part => part ++ [.valueSeparator]) ++ part := by
  induction parts with
  | nil => exact separated_singleton part
  | cons next parts ih =>
    rw [List.cons_append, separated_step next (by simp), ih, List.flatMap_cons]
    simp only [List.append_assoc, List.cons_append, List.nil_append]

/-- A value starts with a token that ends nothing. -/
theorem Denotes.head {tokens : List Token} {value : Json} (denotes : Denotes tokens value) :
    ∃ token rest, tokens = token :: rest ∧ token ≠ .endArray ∧ token ≠ .endObject := by
  cases denotes with
  | leaf known _ =>
    refine ⟨_, [], rfl, fun same => ?_, fun same => ?_⟩
    · rw [same] at known
      cases known
    · rw [same] at known
      cases known
  | array _ each => exact ⟨_, _, rfl, nofun, nofun⟩
  | object _ each => exact ⟨_, _, rfl, nofun, nofun⟩

variable {strtod : List UInt8 → UInt64}

/-- The tokens that have been read of the containers on the stack. -/
inductive Begun : List Token → List Container → Prop where
  | nil : Begun [] []
  | array (items : List (List Token × Json)) {before : List Token} {states : List Container}
      (outer : Begun before states) (each : ∀ item ∈ items, Denotes item.1 item.2) :
      Begun
        (before ++
          .beginArray :: (items.map Prod.fst).flatMap fun part => part ++ [.valueSeparator])
        (.array (items.map Prod.snd) :: states)
  | object (members : List (List UInt8 × List Token × Json)) {key : List UInt8}
      {before : List Token} {states : List Container} (outer : Begun before states)
      (each : ∀ member ∈ members, Denotes member.2.1 member.2.2) :
      Begun
        (before ++ .beginObject ::
          (((members.map memberTokens).flatMap fun part => part ++ [.valueSeparator]) ++
            [.valueString key, .nameSeparator]))
        (.object (membersMap members) key :: states)

/-- What has been read where the parser stands. -/
def HasRead (strtod : List UInt8 → UInt64) (start : Cursor UInt8) (state : ParserState)
    (cursor : Cursor UInt8) : Prop :=
  match state with
  | .parsing lastToken states =>
    ∃ before, Begun before states ∧ Scans (scan strtod) start (before ++ [lastToken]) cursor
  | .evaluating value states =>
    ∃ before tokens, Begun before states ∧ Denotes tokens value ∧
      Scans (scan strtod) start (before ++ tokens) cursor

/-- What a turn makes of what has been read. -/
def TurnHasRead (strtod : List UInt8 → UInt64) (start : Cursor UInt8)
    (result : ParserState ⊕ Json) (cursor : Cursor UInt8) : Prop :=
  match result with
  | .inl next => HasRead strtod start next cursor
  | .inr value => ∃ tokens, Denotes tokens value ∧ Scans (scan strtod) start tokens cursor

variable {start cursor : Cursor UInt8}

/-- A key belongs to the object that has begun in front of it. -/
theorem ensures_parseKey (members : List (List UInt8 × List Token × Json)) {token : Token}
    {before : List Token} {states : List Container} (outer : Begun before states)
    (each : ∀ member ∈ members, Denotes member.2.1 member.2.2)
    (read : Scans (scan strtod) start
      (before ++ .beginObject ::
        (((members.map memberTokens).flatMap fun part => part ++ [.valueSeparator]) ++ [token]))
      cursor) :
    Ensures (parseKey strtod (membersMap members) states token) cursor
      (TurnHasRead strtod start) := by
  cases token with
  | valueString key =>
    refine (Ensures.refl _).bind fun separator between scanned => ?_
    split
    · rename_i same
      subst same
      -- The key and the colon belong to the object, and the next token begins the value.
      refine (Ensures.refl _).bind fun token after scannedToken => .pure ?_
      refine ⟨_, .object members outer each, ?_⟩
      have more := (read.snoc scanned).snoc scannedToken
      simpa only [List.append_assoc, List.cons_append, List.nil_append] using more
    · exact .fail
  | _ => exact .fail

/-- A value that is begun or taken has been read. -/
theorem ensures_parseValue {states : List Container} {lastToken : Token}
    (read : HasRead strtod start (.parsing lastToken states) cursor) :
    Ensures (parseValue strtod states lastToken) cursor (TurnHasRead strtod start) := by
  obtain ⟨before, outer, scans⟩ := read
  -- A token that stands for a value is one derivation by itself.
  have taken : ∀ value, lastToken.leaf = some value →
      (∀ bits, lastToken = .valueFloat bits → isFinite bits = true) →
      Ensures (pure (.inl (.evaluating value states)) : ByteReading _) cursor
        (TurnHasRead strtod start) :=
    fun value known finite => .pure ⟨before, [lastToken], outer, .leaf known finite, scans⟩
  have leaf : (∀ bits, lastToken ≠ .valueFloat bits) →
      Ensures (parseLeaf states lastToken) cursor (TurnHasRead strtod start) := fun float => by
    rw [parseLeaf]
    cases known : lastToken.leaf with
    | none => exact .fail
    | some value => exact taken value known fun bits same => absurd same (float bits)
  cases lastToken with
  | beginObject =>
    refine (Ensures.refl _).bind fun token after scanned => ?_
    have more := scans.snoc scanned
    rw [List.append_assoc] at more
    split
    · rename_i same
      subst same
      exact .pure ⟨before, _, outer, .object [] (List.forall_mem_nil _), more⟩
    · exact ensures_parseKey [] outer (List.forall_mem_nil _) more
  | beginArray =>
    refine (Ensures.refl _).bind fun token after scanned => ?_
    have more := scans.snoc scanned
    rw [List.append_assoc] at more
    split
    · rename_i same
      subst same
      exact .pure ⟨before, _, outer, .array [] (List.forall_mem_nil _), more⟩
    · refine .pure ⟨_, .array [] outer (List.forall_mem_nil _), ?_⟩
      rw [List.append_assoc]
      exact more
  | valueFloat bits =>
    rw [parseValue]
    split
    · rename_i finite
      exact taken _ rfl fun other same => by cases same; exact finite
    · exact .fail
  | _ => exact leaf (by simp)

/-- A value in its container, with what is behind it. -/
theorem ensures_evaluateStates {value : Json} {states : List Container}
    (read : HasRead strtod start (.evaluating value states) cursor) :
    Ensures (evaluateStates strtod value states) cursor (TurnHasRead strtod start) := by
  -- One case for each container that the value can be in, and for the token behind it.
  obtain ⟨before, tokens, begun, denotes, scans⟩ := read
  cases begun with
  | nil => exact .pure ⟨tokens, denotes, scans⟩
  | @array items before states outer each =>
    -- The value is the last item so far.
    have all : ∀ item ∈ items ++ [(tokens, value)], Denotes item.1 item.2 :=
      List.forall_mem_append.mpr ⟨each, List.forall_mem_singleton.mpr denotes⟩
    refine (Ensures.refl _).bind fun token between scanned => ?_
    have more := scans.snoc scanned
    split
    · rename_i same
      subst same
      -- The next item begins behind the comma.
      refine (Ensures.refl _).bind fun token after scannedToken => .pure ?_
      have begun := Begun.array _ outer all
      rw [List.map_append, List.map_append] at begun
      refine ⟨_, begun, ?_⟩
      have most := more.snoc scannedToken
      simpa only [List.map_cons, List.map_nil, List.flatMap_append, List.flatMap_cons,
        List.flatMap_nil, List.append_assoc, List.cons_append, List.nil_append] using most
    split
    · rename_i same
      subst same
      -- The array ends, and the items of it are derived together.
      have whole := Denotes.array _ all
      rw [List.map_append, List.map_append] at whole
      refine .pure ⟨before, _, outer, whole, ?_⟩
      simpa only [List.map_cons, List.map_nil, separated_snoc, List.append_assoc,
        List.cons_append, List.nil_append] using more
    · exact .fail
  | @object members key before states outer each =>
    have all : ∀ member ∈ members ++ [(key, tokens, value)], Denotes member.2.1 member.2.2 :=
      List.forall_mem_append.mpr ⟨each, List.forall_mem_singleton.mpr denotes⟩
    have put : membersMap (members ++ [(key, tokens, value)]) =
        Sorted.insert key value (membersMap members) := by
      rw [membersMap, List.foldl_append]
      rfl
    refine (Ensures.refl _).bind fun token between scanned => ?_
    have more := scans.snoc scanned
    split
    · rename_i same
      subst same
      -- The next key comes behind the comma.
      refine (Ensures.refl _).bind fun token after scannedToken => ?_
      rw [← put]
      refine ensures_parseKey _ outer all ?_
      have most := more.snoc scannedToken
      simpa only [List.map_append, List.map_cons, List.map_nil, memberTokens, List.flatMap_append,
        List.flatMap_cons, List.flatMap_nil, List.append_assoc, List.cons_append,
        List.nil_append] using most
    split
    · rename_i same
      subst same
      rw [← put]
      -- The object ends, and the members of it are derived together.
      refine .pure ⟨before, _, outer, .object _ all, ?_⟩
      simpa only [List.map_append, List.map_cons, List.map_nil, memberTokens, separated_snoc,
        List.append_assoc, List.cons_append, List.nil_append] using more
    · exact .fail

/-- What is parsed from some token on is derived from the tokens that are read. -/
theorem ensures_saxParseInternal {token : Token}
    (scanned : scan strtod start = .ok (token, cursor)) :
    Ensures (saxParseInternal strtod (.parsing token [])) cursor fun value after =>
      ∃ tokens, Denotes tokens value ∧ Scans (scan strtod) start tokens after := by
  -- The invariant of the loop says what has been read of the stack and of the value.
  refine .repeated (HasRead strtod start) (fun state cursor read => ?_)
    ⟨[], .nil, .cons scanned (.nil cursor)⟩
  have each : Ensures (parseTurn strtod state) cursor (TurnHasRead strtod start) := by
    cases state with
    | parsing lastToken states => exact ensures_parseValue read
    | evaluating value states => exact ensures_evaluateStates read
  intro result after same
  have kept := each result after same
  cases result with
  | inl next => exact kept
  | inr value => exact kept

/-- The tokens of a value lead the parser from the first of them to the state around the value. -/
def Leads (strtod : List UInt8 → UInt64) (tokens : List Token) (value : Json) : Prop :=
  ∀ states cursor after, Scans (scan strtod) cursor tokens after →
    ∃ token between, scan strtod cursor = .ok (token, between) ∧
      Reaches (parseTurn strtod) (.parsing token states, between) (.evaluating value states, after)

/-- A scanner that is followed by another reader. -/
theorem scan_bind {β : Type} {token : Token} {after : Cursor UInt8}
    (scanned : scan strtod cursor = .ok (token, after)) (f : Token → ByteReading β) :
    (scan strtod >>= f) cursor = f token after := by
  rw [bind_eq, scanned]

/-- The elements behind a comma each, up to the end of the array. -/
theorem reaches_elements (items : List (List Token × Json))
    (each : ∀ item ∈ items, Leads strtod item.1 item.2) (elements : List Json) (value : Json)
    (states : List Container) {cursor after : Cursor UInt8}
    (scans : Scans (scan strtod) cursor
      (((items.map Prod.fst).flatMap fun part => .valueSeparator :: part) ++ [.endArray]) after) :
    Reaches (parseTurn strtod) (.evaluating value (.array elements :: states), cursor)
      (.evaluating (.array (elements ++ value :: items.map Prod.snd)) states, after) := by
  -- The induction is on the items that are still to come, with the elements that are there already.
  induction items generalizing elements value cursor with
  | nil =>
    -- No item is left, so the next token ends the array.
    obtain ⟨between, scanned, ended⟩ := Scans.cons_iff.mp scans
    obtain rfl := Scans.nil_iff.mp ended
    refine reaches_turn ?_ .refl
    rw [parseTurn, evaluateStates, scan_bind scanned]
    rfl
  | cons item items ih =>
    obtain ⟨first, others⟩ := List.forall_mem_cons.mp each
    -- One comma and the tokens of one item come first.
    rw [List.map_cons, List.flatMap_cons, List.append_assoc, List.cons_append] at scans
    obtain ⟨next, scanned, scans⟩ := Scans.cons_iff.mp scans
    obtain ⟨behind, front, back⟩ := Scans.append_iff.mp scans
    obtain ⟨token, between, begun, reaches⟩ :=
      first (.array (elements ++ [value]) :: states) next behind front
    have rest := ih others (elements ++ [value]) item.2 back
    rw [List.append_assoc, List.singleton_append] at rest
    refine reaches_turn ?_ (reaches.trans rest)
    rw [parseTurn, evaluateStates, scan_bind scanned, if_pos rfl, scan_bind begun]
    rfl

/-- The members behind a comma each, up to the end of the object. -/
theorem reaches_members (members : List (List UInt8 × List Token × Json))
    (each : ∀ member ∈ members, Leads strtod member.2.1 member.2.2)
    (map : List (List UInt8 × Json)) (key : List UInt8) (value : Json) (states : List Container)
    {cursor after : Cursor UInt8}
    (scans : Scans (scan strtod) cursor
      (((members.map memberTokens).flatMap fun part => .valueSeparator :: part) ++ [.endObject])
      after) :
    Reaches (parseTurn strtod) (.evaluating value (.object map key :: states), cursor)
      (.evaluating (.object (members.foldl
        (fun map member => Sorted.insert member.1 member.2.2 map) (Sorted.insert key value map)))
        states, after) := by
  -- The induction is on the members that are still to come, as for the elements.
  induction members generalizing map key value cursor with
  | nil =>
    -- No member is left, so the next token ends the object.
    obtain ⟨between, scanned, ended⟩ := Scans.cons_iff.mp scans
    obtain rfl := Scans.nil_iff.mp ended
    refine reaches_turn ?_ .refl
    rw [parseTurn, evaluateStates, scan_bind scanned]
    rfl
  | cons member members ih =>
    obtain ⟨first, others⟩ := List.forall_mem_cons.mp each
    -- A comma, the key, a colon and the tokens of one value come first.
    rw [List.map_cons, List.flatMap_cons, List.append_assoc, List.cons_append, memberTokens,
      List.cons_append, List.cons_append] at scans
    obtain ⟨next, scanned, scans⟩ := Scans.cons_iff.mp scans
    obtain ⟨name, named, scans⟩ := Scans.cons_iff.mp scans
    obtain ⟨colon, separated_, scans⟩ := Scans.cons_iff.mp scans
    obtain ⟨behind, front, back⟩ := Scans.append_iff.mp scans
    obtain ⟨token, between, begun, reaches⟩ :=
      first (.object (Sorted.insert key value map) member.1 :: states) colon behind front
    have rest := ih others (Sorted.insert key value map) member.1 member.2.2 back
    refine reaches_turn ?_ (reaches.trans rest)
    rw [parseTurn, evaluateStates, scan_bind scanned, if_pos rfl, scan_bind named, parseKey,
      scan_bind separated_, if_pos rfl, scan_bind begun]
    rfl

/-- The tokens of a value lead the parser through the value. -/
theorem Denotes.leads {tokens : List Token} {value : Json} (denotes : Denotes tokens value) :
    Leads strtod tokens value := by
  intro states cursor after scans
  -- The induction is on the derivation, and every value may stand inside any containers.
  induction denotes generalizing states cursor after with
  | @leaf token value known finite =>
    obtain ⟨between, scanned, ended⟩ := Scans.cons_iff.mp scans
    obtain rfl := Scans.nil_iff.mp ended
    refine ⟨token, between, scanned, reaches_turn ?_ .refl⟩
    cases token with
    | valueFloat bits =>
      cases known
      rw [parseTurn, parseValue, if_pos (finite bits rfl)]
      rfl
    | _ => cases known <;> rfl
  | array items each ih =>
    obtain ⟨between, scanned, scans⟩ := Scans.cons_iff.mp scans
    refine ⟨.beginArray, between, scanned, ?_⟩
    cases items with
    | nil =>
      obtain ⟨next, ended, none_⟩ := Scans.cons_iff.mp scans
      obtain rfl := Scans.nil_iff.mp none_
      refine reaches_turn ?_ .refl
      rw [parseTurn, parseValue, scan_bind ended]
      rfl
    | cons item items =>
      obtain ⟨first, others⟩ := List.forall_mem_cons.mp ih
      rw [List.map_cons, separated_cons, List.append_assoc] at scans
      obtain ⟨behind, front, back⟩ := Scans.append_iff.mp scans
      obtain ⟨token, next, begun, reaches⟩ := first (.array [] :: states) between behind front
      have rest := reaches_elements items others [] item.2 states back
      refine reaches_turn ?_ (reaches.trans rest)
      -- The first token of an element does not end the array.
      obtain ⟨head, tail, same, open_, _⟩ := (each item List.mem_cons_self).head
      rw [same] at front
      obtain ⟨_, again, _⟩ := Scans.cons_iff.mp front
      obtain ⟨rfl, _⟩ := Prod.mk.inj (Except.ok.inj (begun.symm.trans again))
      rw [parseTurn, parseValue, scan_bind begun, if_neg open_]
      rfl
  | object members each ih =>
    obtain ⟨between, scanned, scans⟩ := Scans.cons_iff.mp scans
    refine ⟨.beginObject, between, scanned, ?_⟩
    cases members with
    | nil =>
      obtain ⟨next, ended, none_⟩ := Scans.cons_iff.mp scans
      obtain rfl := Scans.nil_iff.mp none_
      refine reaches_turn ?_ .refl
      rw [parseTurn, parseValue, scan_bind ended]
      rfl
    | cons member members =>
      obtain ⟨first, others⟩ := List.forall_mem_cons.mp ih
      rw [List.map_cons, separated_cons, List.append_assoc, memberTokens, List.cons_append,
        List.cons_append] at scans
      obtain ⟨name, named, scans⟩ := Scans.cons_iff.mp scans
      obtain ⟨colon, separated_, scans⟩ := Scans.cons_iff.mp scans
      obtain ⟨behind, front, back⟩ := Scans.append_iff.mp scans
      obtain ⟨token, next, begun, reaches⟩ :=
        first (.object [] member.1 :: states) colon behind front
      have rest := reaches_members members others [] member.1 member.2.2 states back
      refine reaches_turn ?_ (reaches.trans rest)
      rw [parseTurn, parseValue, scan_bind named, if_neg (by simp), parseKey, scan_bind separated_,
        if_pos rfl, scan_bind begun]
      rfl

/--
The parser accepts exactly the texts whose tokens the grammar derives, with the value it derives.

The tokens end where the lexer finds the end of the input.
-/
theorem parse_iff (strtod : List UInt8 → UInt64) (data : List UInt8) (value : Json) :
    parse strtod data = .ok value ↔
      ∃ tokens after last, Scans (scan strtod) ⟨0, data⟩ tokens after ∧ Denotes tokens value ∧
        scan strtod after = .ok (.endOfInput, last) := by
  -- From the parser to a derivation turn by turn, and back by running the derivation.
  constructor
  · -- What the parser reads is derived, turn by turn.
    intro parsed
    have ensures : Ensures (parser strtod) ⟨0, data⟩ fun value _ =>
        ∃ tokens after last, Scans (scan strtod) ⟨0, data⟩ tokens after ∧ Denotes tokens value ∧
          scan strtod after = .ok (.endOfInput, last) := by
      refine (Ensures.refl _).bind fun token between scanned => ?_
      refine (ensures_saxParseInternal scanned).bind fun value after derived => ?_
      obtain ⟨tokens, denotes, scans⟩ := derived
      refine (Ensures.refl _).bind fun token last ended => ?_
      split
      · rename_i same
        exact .pure ⟨tokens, after, last, scans, denotes, same ▸ ended⟩
      · exact .fail
    rw [parse] at parsed
    cases read : parser strtod ⟨0, data⟩ with
    | error error =>
      rw [read] at parsed
      cases parsed
    | ok result =>
      rw [read] at parsed
      cases parsed
      exact ensures _ _ read
  · -- The derivation leads the parser to the value, in as many turns as the weight allows.
    rintro ⟨tokens, after, last, scans, denotes, ended⟩
    obtain ⟨token, between, scanned, reaches⟩ := denotes.leads [] ⟨0, data⟩ after scans
    have valid : token.Valid := by
      have kept := @lexes_scan _ strtod ⟨0, data⟩ trivial rfl
      rw [scanned] at kept
      exact kept.2.2.2
    have start : (ParserState.parsing token []).Good between.rest.length :=
      ⟨valid, List.forall_mem_nil _⟩
    have done : saxParseInternal strtod (.parsing token []) between = .ok (value, after) :=
      Upholds.repeated_done ParserState.Good parses_parseTurn start reaches rfl
    rw [parse, parser, scan_bind scanned, bind_eq, done]
    show ((scan strtod >>= fun token => if token = .endOfInput then pure value else syntaxError)
      after).map Prod.fst = .ok value
    rw [scan_bind ended]
    rfl

end Esme
