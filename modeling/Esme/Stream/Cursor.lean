import Mathlib.Logic.Basic
import Mathlib.Tactic.ByContra

/-! Readers that ask an input for one symbol after another, and the words they read. -/

universe u v

/-- What is left of an input, and how often it has been asked for its next symbol. -/
structure Cursor (α : Type u) where
  asked : Nat
  rest : List α

/-- A reader moves the cursor and returns a value, or throws. -/
abbrev Reading (α : Type u) (ε : Type v) := StateT (Cursor α) (Except ε)

namespace Reading

variable {α σ β γ ι : Type u} {ε : Type v}

/-- Ask for the next symbol; behind the end there is none, but the asking counts. -/
def next : Reading α ε (Option α) := fun cursor =>
  match cursor.rest with
  | [] => .ok (none, ⟨cursor.asked + 1, []⟩)
  | symbol :: rest => .ok (some symbol, ⟨cursor.asked + 1, rest⟩)

/-- Give the symbol back that was asked for last. -/
def unget (symbol : Option α) : Reading α ε PUnit := fun cursor =>
  .ok (⟨⟩, ⟨cursor.asked - 1, symbol.toList ++ cursor.rest⟩)

/-- Throw an exception that names how often the input has been asked. -/
def fail (error : Nat → ε) : Reading α ε β := fun cursor => .error (error cursor.asked)

/-- A loop of some turns, each moving what the loop carries. -/
def loop (step : σ → Reading α ε σ) : Nat → σ → Reading α ε σ
  | 0, state => pure state
  | count + 1, state => do
    let state ← step state
    loop step count state

/--
A loop that asks for a symbol before each turn and ends at a given one.

The turns are bounded, and the exception for running out of them is given as well.
-/
def loopUntil [DecidableEq α] (exhausted : ε) (last : α) (step : σ → Option α → Reading α ε σ) :
    Nat → σ → Reading α ε σ
  | 0, _ => fail fun _ => exhausted
  | bound + 1, state => do
    let current ← next
    if current = some last then pure state
    else
      let state ← step state current
      loopUntil exhausted last step bound state

/-- A reader that goes on with the value of another. -/
theorem bind_eq (reader : Reading α ε β) (f : β → Reading α ε γ) (cursor : Cursor α) :
    (reader >>= f) cursor =
      match reader cursor with
      | .ok (value, cursor) => f value cursor
      | .error error => .error error := by
  show (reader cursor >>= fun result => f result.1 result.2) = _
  cases reader cursor <;> rfl

/-- The reader reads the word as the value, whatever stands behind it. -/
def Takes (reader : Reading α ε β) (word : List α) (value : β) : Prop :=
  ∀ asked rest, reader ⟨asked, word ++ rest⟩ = .ok (value, ⟨asked + word.length, rest⟩)

/-- Nothing is taken for the value that is returned anyway. -/
theorem Takes.pure (value : β) : Takes (Pure.pure value : Reading α ε β) [] value :=
  fun _ _ => rfl

/-- Two readers one after the other take two words one after the other. -/
theorem Takes.bind {reader : Reading α ε β} {f : β → Reading α ε γ} {word other : List α}
    {value : β} {result : γ} (first : Takes reader word value)
    (second : Takes (f value) other result) : Takes (reader >>= f) (word ++ other) result := by
  intro asked rest
  rw [bind_eq, List.append_assoc, first]
  simp only [second _ _, List.length_append, Nat.add_assoc]

/-- A reader that asks for a symbol takes it in front of what it goes on with. -/
theorem Takes.next {f : Option α → Reading α ε β} {symbol : α} {word : List α} {value : β}
    (going : Takes (f (some symbol)) word value) :
    Takes (Reading.next >>= f) (symbol :: word) value := by
  intro asked rest
  rw [bind_eq]
  simp only [List.cons_append, Reading.next, going _ _, List.length_cons, Nat.add_assoc,
    Nat.add_comm 1]

/--
The reader takes the word for the value.

The reader never looks further than the word, and a word that is cut short makes it throw where
the input ends.
-/
structure Reads (ended : Nat → ε) (reader : Reading α ε β) (word : List α) (value : β) :
    Prop where
  whole : Takes reader word value
  cut : ∀ asked front, front <+: word → front ≠ word →
    reader ⟨asked, front⟩ = .error (ended (asked + front.length + 1))

variable {ended : Nat → ε}

/-- Nothing is read as the value that is returned anyway. -/
theorem Reads.pure (value : β) : Reads ended (Pure.pure value : Reading α ε β) [] value where
  whole := .pure value
  cut _ _ front proper := absurd (List.prefix_nil.mp front) proper

/-- Two readers one after the other read two words one after the other. -/
theorem Reads.bind {reader : Reading α ε β} {f : β → Reading α ε γ} {word other : List α}
    {value : β} {result : γ} (first : Reads ended reader word value)
    (second : Reads ended (f value) other result) :
    Reads ended (reader >>= f) (word ++ other) result where
  whole := first.whole.bind second.whole
  cut asked front part proper := by
    -- The cut lies inside the first word or inside the second one.
    rw [bind_eq]
    rcases List.prefix_or_prefix_of_prefix part (List.prefix_append word other) with
      inside | ⟨tail, rfl⟩
    · by_cases same : front = word
      · subst same
        have nonempty : [] ≠ other := fun empty => proper (by rw [← empty, List.append_nil])
        have read := first.whole asked []
        rw [List.append_nil] at read
        rw [read]
        exact (second.cut (asked + front.length) [] List.nil_prefix nonempty)
      · rw [first.cut asked front inside same]
    · rw [first.whole]
      have proper : tail ≠ other := fun same => proper (by rw [same])
      have inside := (List.prefix_append_right_inj word).mp part
      rw [List.length_append, ← Nat.add_assoc]
      exact second.cut (asked + word.length) tail inside proper

/-- A reader that reads nothing may come first. -/
theorem Reads.after {reader : Reading α ε β} {later : Reading α ε γ} {word : List α}
    {value : β} {result : γ} (first : Reads ended reader [] value)
    (second : Reads ended later word result) :
    Reads ended (reader >>= fun _ => later) word result := by
  have both : Reads ended (reader >>= fun _ => later) ([] ++ word) result := first.bind second
  rwa [List.nil_append] at both

/-- A reader whose value is changed reads the same word. -/
theorem Reads.map {reader : Reading α ε β} {word : List α} {value : β} (f : β → γ)
    (first : Reads ended reader word value) :
    Reads ended (reader >>= fun value => Pure.pure (f value)) word (f value) := by
  -- Nothing is read behind the word.
  have both : Reads ended (reader >>= fun value => Pure.pure (f value)) (word ++ []) (f value) :=
    first.bind (Reads.pure (f value))
  rwa [List.append_nil] at both

/-- A reader that asks for a symbol reads it in front of what it goes on with. -/
theorem Reads.next {f : Option α → Reading α ε β} {symbol : α} {word : List α} {value : β}
    (going : Reads ended (f (some symbol)) word value)
    (empty : ∀ asked, f none ⟨asked, []⟩ = .error (ended asked)) :
    Reads ended (next >>= f) (symbol :: word) value where
  whole := going.whole.next
  cut asked front part proper := by
    -- Without its first symbol the word is missing altogether.
    rw [bind_eq]
    cases front with
    | nil => exact empty (asked + 1)
    | cons first rest =>
      obtain ⟨rfl, inside⟩ := List.cons_prefix_cons.mp part
      have proper : rest ≠ word := fun same => proper (by rw [same])
      simp only [Reading.next, going.cut (asked + 1) rest inside proper, List.length_cons,
        Nat.add_assoc, Nat.add_comm 1]

/-- A loop with one turn for each item reads the words of the items one after the other. -/
theorem Reads.loop {step : σ → Reading α ε σ} (encode : ι → List α) (add : σ → ι → σ)
    (items : List ι)
    (turn : ∀ item ∈ items, ∀ state, Reads ended (step state) (encode item) (add state item))
    (state : σ) :
    Reads ended (loop step items.length state) (items.flatMap encode) (items.foldl add state) := by
  -- The state moves with every turn, so it stays quantified over.
  induction items generalizing state with
  | nil => exact Reads.pure state
  | cons item rest ih =>
    obtain ⟨first, others⟩ := List.forall_mem_cons.mp turn
    exact (first state).bind (ih others (add state item))

/-- A reader reads one word only as one value. -/
theorem Reads.unique {reader : Reading α ε β} {word : List α} {value other : β}
    (one : Reads ended reader word value) (two : Reads ended reader word other) :
    value = other := by
  have same := (one.whole 0 []).symm.trans (two.whole 0 [])
  exact congrArg Prod.fst (Except.ok.inj same)

/--
What a reader does where `left` symbols are still to be read, and the count of them is right.

The count is right again when it returns, with a value that is good together with how many symbols
are left then. What it throws is something that may be thrown.
-/
def Upholds (counted : Nat → Nat → Prop) (thrown : ε → Prop) (left : Nat) (reader : Reading α ε β)
    (good : β → Nat → Prop) : Prop :=
  ∀ cursor, counted cursor.asked cursor.rest.length → cursor.rest.length = left →
    match reader cursor with
    | .ok (value, after) =>
      counted after.asked after.rest.length ∧ good value after.rest.length
    | .error error => thrown error

/-- Symbols that have been asked for and symbols that are left make up the input. -/
def Consumed (length asked left : Nat) : Prop := asked + left = length

variable {length left : Nat} {counted : Nat → Nat → Prop} {thrown : ε → Prop}

/-- What is returned without reading has to be good itself. -/
theorem Upholds.pure {value : β} {good : β → Nat → Prop} (holds : good value left) :
    Upholds counted thrown left (Pure.pure value : Reading α ε β) good := by
  intro cursor count rest
  exact ⟨count, rest ▸ holds⟩

/-- What is thrown has to be an exception that may be. -/
theorem Upholds.fail {error : Nat → ε} {good : β → Nat → Prop}
    (allowed : ∀ asked, counted asked left → thrown (error asked)) :
    Upholds counted thrown left (fail error : Reading α ε β) good := by
  intro cursor count rest
  exact allowed cursor.asked (rest ▸ count)

/-- One of two readers, each of which keeps the same. -/
theorem Upholds.ite {condition : Prop} [Decidable condition] {reader other : Reading α ε β}
    {good : β → Nat → Prop} (yes : Upholds counted thrown left reader good)
    (no : Upholds counted thrown left other good) :
    Upholds counted thrown left (if condition then reader else other) good := by
  split
  · exact yes
  · exact no

/-- Two readers in a row: the second starts with what the first has left. -/
theorem Upholds.bind {reader : Reading α ε β} {f : β → Reading α ε γ}
    {between : β → Nat → Prop} {good : γ → Nat → Prop}
    (first : Upholds counted thrown left reader between)
    (second : ∀ value less, between value less → Upholds counted thrown less (f value) good) :
    Upholds counted thrown left (reader >>= f) good := by
  intro cursor count rest
  have started := first cursor count rest
  rw [bind_eq]
  cases read : reader cursor with
  | error error =>
    rw [read] at started
    exact started
  | ok result =>
    obtain ⟨value, after⟩ := result
    rw [read] at started
    exact second value _ started.2 after started.1 rfl

/-- A reader that takes a symbol, and throws when there is none. -/
theorem Upholds.next {f : Option α → Reading α ε β} {good : β → Nat → Prop}
    (going : ∀ symbol less, left = less + 1 →
      Upholds (Consumed length) thrown less (f (some symbol)) good)
    (empty : ∃ error, f none ⟨length + 1, []⟩ = .error error ∧ thrown error) :
    Upholds (Consumed length) thrown left (next >>= f) good := by
  intro cursor count rest
  obtain ⟨asked, symbols⟩ := cursor
  rw [bind_eq]
  cases symbols with
  | nil =>
    obtain ⟨error, failed, allowed⟩ := empty
    obtain rfl : asked = length := count
    simp only [Reading.next, failed]
    exact allowed
  | cons symbol symbols =>
    have count : asked + (symbols.length + 1) = length := count
    have taken : asked + 1 + symbols.length = length := by omega
    exact going symbol symbols.length rest.symm ⟨asked + 1, symbols⟩ taken rfl

/-- A reader that asks for a symbol and goes on when there is none, where nothing is counted. -/
theorem Upholds.ask {f : Option α → Reading α ε β} {good : β → Nat → Prop}
    (going : ∀ symbol less, left = less + 1 →
      Upholds (fun _ _ => True) thrown less (f (some symbol)) good)
    (ended : left = 0 → Upholds (fun _ _ => True) thrown 0 (f none) good) :
    Upholds (fun _ _ => True) thrown left (Reading.next >>= f) good := by
  intro cursor _ rest
  obtain ⟨asked, symbols⟩ := cursor
  rw [bind_eq]
  cases symbols with
  | nil => exact ended rest.symm ⟨asked + 1, []⟩ trivial rfl
  | cons symbol symbols =>
    exact going symbol symbols.length rest.symm ⟨asked + 1, symbols⟩ trivial rfl

/-- A reader that gives the last symbol back, where nothing is counted. -/
theorem Upholds.unget {symbol : Option α} {f : PUnit → Reading α ε β} {good : β → Nat → Prop}
    (going : Upholds (fun _ _ => True) thrown (symbol.toList.length + left) (f ⟨⟩) good) :
    Upholds (fun _ _ => True) thrown left (Reading.unget symbol >>= f) good := by
  intro cursor _ rest
  rw [bind_eq]
  exact going ⟨cursor.asked - 1, symbol.toList ++ cursor.rest⟩ trivial
    (by rw [List.length_append, rest])

/-- Less may be promised than is kept. -/
theorem Upholds.mono {reader : Reading α ε β} {good weaker : β → Nat → Prop}
    (keeps : Upholds counted thrown left reader good)
    (implied : ∀ value less, good value less → weaker value less) :
    Upholds counted thrown left reader weaker := by
  intro cursor count rest
  have held := keeps cursor count rest
  cases read : reader cursor with
  | error error =>
    rw [read] at held
    exact held
  | ok result =>
    obtain ⟨value, after⟩ := result
    rw [read] at held
    exact ⟨held.1, implied _ _ held.2⟩

/-- More may be allowed than is thrown. -/
theorem Upholds.allow {reader : Reading α ε β} {good : β → Nat → Prop} {allowed : ε → Prop}
    (keeps : Upholds counted thrown left reader good)
    (more : ∀ error, thrown error → allowed error) :
    Upholds counted allowed left reader good := by
  intro cursor count rest
  have held := keeps cursor count rest
  cases read : reader cursor with
  | error error =>
    rw [read] at held
    exact more error held
  | ok result =>
    rw [read] at held
    exact held

/-- A loop keeps what each of its turns keeps. -/
theorem Upholds.loop {step : σ → Reading α ε σ} (good : σ → Nat → Prop)
    (turn : ∀ state less, good state less → Upholds counted thrown less (step state) good)
    (count : Nat) {state : σ} (start : good state left) :
    Upholds counted thrown left (loop step count state) good := by
  -- What is left moves along with the state.
  induction count generalizing state left with
  | zero => exact Upholds.pure start
  | succ count ih => exact (turn state left start).bind fun value less holds => ih holds

/-- A loop up to a symbol keeps what its turns keep, and has turns enough for what is left. -/
theorem Upholds.loopUntil [DecidableEq α] {exhausted : ε} {last : α}
    {step : σ → Option α → Reading α ε σ} (good : σ → Nat → Prop) {ended : σ → Nat → Prop}
    (turn : ∀ state symbol less, good state (less + 1) →
      Upholds (Consumed length) thrown less (step state (some symbol)) fun state fewer =>
        fewer ≤ less ∧ good state fewer)
    (ends : ∀ state less, good state (less + 1) → ended state less)
    (empty : ∀ state, ∃ error, step state none ⟨length + 1, []⟩ = .error error ∧ thrown error)
    {bound : Nat} (enough : left < bound) {state : σ} (start : good state left) :
    Upholds (Consumed length) thrown left (loopUntil exhausted last step bound state) ended := by
  -- Every turn takes a symbol, so what is left shrinks along with the bound.
  induction bound generalizing left state with
  | zero => omega
  | succ bound ih =>
    refine Upholds.next (fun symbol less taken => ?_) ?_
    · subst taken
      by_cases last : symbol = last
      · subst last
        simp only [if_true]
        exact Upholds.pure (ends state less start)
      · simp only [Option.some.injEq, last, if_false]
        exact (turn state symbol less start).bind fun value fewer holds =>
          ih (by omega) holds.2
    · obtain ⟨error, failed, allowed⟩ := empty state
      refine ⟨error, ?_, allowed⟩
      simp only [reduceCtorEq, if_false, bind_eq, failed]

/-- What is returned where the reader starts satisfies something, together with where it ends. -/
def Ensures (reader : Reading α ε β) (cursor : Cursor α) (post : β → Cursor α → Prop) : Prop :=
  ∀ value after, reader cursor = .ok (value, after) → post value after

variable {cursor : Cursor α}

/-- What is returned is what the reader returns. -/
theorem Ensures.refl (reader : Reading α ε β) :
    Ensures reader cursor fun value after => reader cursor = .ok (value, after) :=
  fun _ _ same => same

/-- A value that is returned at once satisfies what is known of it. -/
theorem Ensures.pure {value : β} {post : β → Cursor α → Prop} (holds : post value cursor) :
    Ensures (Pure.pure value : Reading α ε β) cursor post := by
  intro result after same
  obtain ⟨rfl, rfl⟩ := Prod.mk.inj (Except.ok.inj same)
  exact holds

/-- What throws returns nothing. -/
theorem Ensures.fail {error : Nat → ε} {post : β → Cursor α → Prop} :
    Ensures (Reading.fail error) cursor post :=
  fun _ _ same => nomatch same

/-- Two readers in a row: the second starts where the first has ended. -/
theorem Ensures.bind {reader : Reading α ε β} {f : β → Reading α ε γ}
    {between : β → Cursor α → Prop} {post : γ → Cursor α → Prop}
    (first : Ensures reader cursor between)
    (second : ∀ value after, between value after → Ensures (f value) after post) :
    Ensures (reader >>= f) cursor post := by
  intro value after same
  rw [bind_eq] at same
  cases read : reader cursor with
  | error error =>
    rw [read] at same
    cases same
  | ok result =>
    rw [read] at same
    exact second result.1 result.2 (first result.1 result.2 read) value after same

/-- One of two readers, each of which is taken where its condition holds. -/
theorem Ensures.ite {condition : Prop} [Decidable condition] {reader other : Reading α ε β}
    {post : β → Cursor α → Prop} (yes : condition → Ensures reader cursor post)
    (no : ¬condition → Ensures other cursor post) :
    Ensures (if condition then reader else other) cursor post := by
  split
  · exact yes ‹_›
  · exact no ‹_›

/-- A scanner reads some tokens one after the other. -/
inductive Scans (scanner : Reading α ε β) : Cursor α → List β → Cursor α → Prop where
  | nil (cursor : Cursor α) : Scans scanner cursor [] cursor
  | cons {cursor between after : Cursor α} {token : β} {tokens : List β}
      (first : scanner cursor = .ok (token, between))
      (others : Scans scanner between tokens after) : Scans scanner cursor (token :: tokens) after

variable {scanner : Reading α ε β} {between after : Cursor α} {token : β} {tokens more : List β}

/-- Behind some tokens others are read. -/
theorem Scans.append (first : Scans scanner cursor tokens between)
    (second : Scans scanner between more after) : Scans scanner cursor (tokens ++ more) after := by
  induction first with
  | nil => exact second
  | cons token _ ih => exact .cons token (ih second)

/-- One more token is read. -/
theorem Scans.snoc (first : Scans scanner cursor tokens between)
    (last : scanner between = .ok (token, after)) :
    Scans scanner cursor (tokens ++ [token]) after :=
  first.append (.cons last (.nil after))

/-- Where no token is read, the scanner has not moved. -/
theorem Scans.nil_iff : Scans scanner cursor [] after ↔ cursor = after := by
  constructor
  · intro scans
    cases scans
    rfl
  · rintro rfl
    exact .nil cursor

/-- The first token is read first. -/
theorem Scans.cons_iff :
    Scans scanner cursor (token :: tokens) after ↔
      ∃ between, scanner cursor = .ok (token, between) ∧ Scans scanner between tokens after := by
  constructor
  · intro scans
    cases scans with
    | cons first others => exact ⟨_, first, others⟩
  · rintro ⟨between, first, others⟩
    exact .cons first others

/-- Tokens are read in two parts wherever they are split. -/
theorem Scans.append_iff :
    Scans scanner cursor (tokens ++ more) after ↔
      ∃ between, Scans scanner cursor tokens between ∧ Scans scanner between more after := by
  constructor
  · intro scans
    induction tokens generalizing cursor with
    | nil => exact ⟨cursor, .nil cursor, scans⟩
    | cons token tokens ih =>
      obtain ⟨next, first, others⟩ := Scans.cons_iff.mp scans
      obtain ⟨between, front, back⟩ := ih others
      exact ⟨between, .cons first front, back⟩
  · rintro ⟨between, front, back⟩
    exact front.append back

/-- A reader that runs out of its bound where another does not, and otherwise does the same. -/
def Within (exhausted : ε) (reader more : Reading α ε β) : Prop :=
  ∀ cursor, reader cursor = .error exhausted ∨ reader cursor = more cursor

variable {exhausted : ε}

/-- A reader is within itself. -/
theorem Within.refl (reader : Reading α ε β) : Within exhausted reader reader :=
  fun _ => .inr rfl

/-- A reader that has run out of its bound is within every other. -/
theorem Within.out (more : Reading α ε β) :
    Within exhausted (Reading.fail fun _ => exhausted) more :=
  fun _ => .inl rfl

/-- Readers in a row are within others that they are within one by one. -/
theorem Within.bind {reader more : Reading α ε β} {f other : β → Reading α ε γ}
    (first : Within exhausted reader more)
    (second : ∀ value, Within exhausted (f value) (other value)) :
    Within exhausted (reader >>= f) (more >>= other) := by
  intro cursor
  rw [bind_eq, bind_eq]
  rcases first cursor with out | same
  · exact .inl (by rw [out])
  · rw [← same]
    cases reader cursor with
    | error error => exact .inr rfl
    | ok result => exact second result.1 result.2

/-- A loop is within another when its turns are. -/
theorem Within.loop {step more : σ → Reading α ε σ}
    (turn : ∀ state, Within exhausted (step state) (more state)) (count : Nat) (state : σ) :
    Within exhausted (loop step count state) (Reading.loop more count state) := by
  -- The state after a turn is the same on both sides.
  induction count generalizing state with
  | zero => exact .refl _
  | succ count ih => exact (turn state).bind ih

/-- A loop up to a symbol is within another with more turns when its turns are. -/
theorem Within.loopUntil [DecidableEq α] {last : α} {step more : σ → Option α → Reading α ε σ}
    (turn : ∀ state symbol, Within exhausted (step state symbol) (more state symbol))
    {bound larger : Nat} (le : bound ≤ larger) (state : σ) :
    Within exhausted (loopUntil exhausted last step bound state)
      (Reading.loopUntil exhausted last more larger state) := by
  -- The bound that ends first is the one on the left.
  induction bound generalizing larger state with
  | zero => exact .out _
  | succ bound ih =>
    obtain ⟨larger, rfl⟩ := Nat.exists_eq_succ_of_ne_zero (Nat.ne_zero_of_lt le)
    refine (Within.refl next).bind fun current => ?_
    by_cases ends : current = some last
    · rw [if_pos ends, if_pos ends]
      exact .refl _
    · rw [if_neg ends, if_neg ends]
      exact (turn state current).bind fun state => ih (Nat.le_of_succ_le_succ le) state

/-- What a reader does without running out of its bound is what the other one does. -/
theorem Within.eq {reader more : Reading α ε β} (within : Within exhausted reader more)
    {cursor : Cursor α} (enough : reader cursor ≠ .error exhausted) :
    reader cursor = more cursor :=
  (within cursor).resolve_left enough

end Reading
