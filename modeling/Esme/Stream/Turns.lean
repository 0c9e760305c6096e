import Mathlib.Logic.Relation
import Esme.Stream.Cursor

/-! Readers that take turns until one of them ends the reading. -/

universe u v

namespace Reading

variable {α σ β γ : Type u} {ε : Type v}

/-- The first symbol that is not skipped, and where it was found. -/
def skipFrom (skipped : α → Bool) : Nat → List α → Option α × Cursor α
  | asked, [] => (none, ⟨asked + 1, []⟩)
  | asked, symbol :: rest =>
    if skipped symbol then skipFrom skipped (asked + 1) rest else (some symbol, ⟨asked + 1, rest⟩)

/-- Ask for symbols up to the first one that is not skipped. -/
def skipWhile (skipped : α → Bool) : Reading α ε (Option α) := fun cursor =>
  .ok (skipFrom skipped cursor.asked cursor.rest)

/-- What is found is in front of what is left. -/
theorem skipFrom_left (skipped : α → Bool) (asked : Nat) (symbols : List α) :
    (∀ symbol, (skipFrom skipped asked symbols).1 = some symbol →
        (skipFrom skipped asked symbols).2.rest.length < symbols.length) ∧
      ((skipFrom skipped asked symbols).1 = none →
        (skipFrom skipped asked symbols).2.rest = []) := by
  induction symbols generalizing asked with
  | nil => exact ⟨nofun, fun _ => rfl⟩
  | cons symbol rest ih =>
    rw [skipFrom]
    split
    · obtain ⟨found, ended⟩ := ih (asked + 1)
      exact ⟨fun current same => Nat.lt_succ_of_lt (found current same), ended⟩
    · exact ⟨fun _ _ => Nat.lt_succ_self _, nofun⟩

/-- A reader that goes on with the first symbol that is not skipped. -/
theorem Upholds.skip {skipped : α → Bool} {f : Option α → Reading α ε β} {left : Nat}
    {thrown : ε → Prop} {good : β → Nat → Prop}
    (going : ∀ symbol less, less < left →
      Upholds (fun _ _ => True) thrown less (f (some symbol)) good)
    (ended : Upholds (fun _ _ => True) thrown 0 (f none) good) :
    Upholds (fun _ _ => True) thrown left (skipWhile skipped >>= f) good := by
  -- What is skipped is taken first, and then one symbol is asked for or the input ends.
  intro cursor _ rest
  obtain ⟨found, none_⟩ := skipFrom_left skipped cursor.asked cursor.rest
  have step : (skipWhile skipped : Reading α ε (Option α)) cursor =
      .ok (skipFrom skipped cursor.asked cursor.rest) := rfl
  rw [bind_eq, step]
  cases current : (skipFrom skipped cursor.asked cursor.rest).1 with
  | none =>
    have kept := ended _ trivial (congrArg List.length (none_ current))
    rw [← current] at kept
    exact kept
  | some symbol =>
    have kept := going symbol _ (rest ▸ found symbol current) _ trivial rfl
    rw [← current] at kept
    exact kept

/-- Some turns at most, each of which goes on with a state or returns a value. -/
def turns (exhausted : ε) (turn : σ → Reading α ε (σ ⊕ β)) : Nat → σ → Reading α ε β
  | 0, _ => fail fun _ => exhausted
  | bound + 1, state => do
    match ← turn state with
    | .inl next => turns exhausted turn bound next
    | .inr value => pure value

/-- As many turns as the state and the symbols that are left give weight. -/
def repeated (exhausted : ε) (weight : σ → Nat → Nat) (turn : σ → Reading α ε (σ ⊕ β))
    (state : σ) : Reading α ε β := fun cursor =>
  turns exhausted turn (weight state cursor.rest.length + 1) state cursor

/-- What one turn does first when there are more to come. -/
theorem turns_succ (exhausted : ε) (turn : σ → Reading α ε (σ ⊕ β)) (bound : Nat) (state : σ)
    (cursor : Cursor α) :
    turns exhausted turn (bound + 1) state cursor =
      match turn state cursor with
      | .ok (.inl next, after) => turns exhausted turn bound next after
      | .ok (.inr value, after) => .ok (value, after)
      | .error error => .error error := by
  rw [turns, bind_eq]
  cases turn state cursor with
  | error error => rfl
  | ok result =>
    obtain ⟨next, after⟩ := result
    cases next <;> rfl

/-- What a turn keeps and leaves. -/
def TurnUpholds (weight : σ → Nat → Nat) (good : σ → Nat → Prop) (ended : β → Nat → Prop)
    (state : σ) (left : Nat) (result : σ ⊕ β) (less : Nat) : Prop :=
  match result with
  | .inl next => weight next less < weight state left ∧ good next less
  | .inr value => ended value less

/-- Turns keep what each of them keeps, and never run out. -/
theorem Upholds.repeated {counted : Nat → Nat → Prop} {thrown : ε → Prop} {exhausted : ε}
    {weight : σ → Nat → Nat} {turn : σ → Reading α ε (σ ⊕ β)} (good : σ → Nat → Prop)
    {ended : β → Nat → Prop}
    (each : ∀ state left, good state left →
      Upholds counted thrown left (turn state) (TurnUpholds weight good ended state left))
    {state : σ} {left : Nat} (start : good state left) :
    Upholds counted thrown left (repeated exhausted weight turn state) ended := by
  -- Any bound above the weight will do, so that the induction can be on the bound.
  have bounded : ∀ bound state left, weight state left < bound → good state left →
      Upholds counted thrown left (turns exhausted turn bound state) ended := by
    intro bound
    induction bound with
    | zero => intro state left enough; omega
    | succ bound ih =>
      intro state left enough holds
      rw [turns]
      refine (each state left holds).bind fun result less kept => ?_
      cases result with
      | inl next => exact ih next less (by have := kept.1; omega) kept.2
      | inr value => exact .pure kept
  intro cursor count rest
  exact bounded _ state left (by rw [rest]; exact Nat.lt_succ_self _) start cursor count rest

/-- A turn leads from a state and a cursor to others. -/
def Turned (turn : σ → Reading α ε (σ ⊕ β)) (before after : σ × Cursor α) : Prop :=
  turn before.1 before.2 = .ok (.inl after.1, after.2)

/-- Some turns lead from a state and a cursor to others. -/
abbrev Reaches (turn : σ → Reading α ε (σ ⊕ β)) : σ × Cursor α → σ × Cursor α → Prop :=
  Relation.ReflTransGen (Turned turn)

/-- One turn, and then some more. -/
theorem reaches_turn {turn : σ → Reading α ε (σ ⊕ β)} {state next : σ} {cursor between : Cursor α}
    {last : σ × Cursor α} (first : turn state cursor = .ok (.inl next, between))
    (others : Reaches turn (next, between) last) : Reaches turn (state, cursor) last :=
  .head (b := (next, between)) first others

section

variable {exhausted : ε} {weight : σ → Nat → Nat} {turn : σ → Reading α ε (σ ⊕ β)}
  {thrown : ε → Prop} {ended : β → Nat → Prop}

/-- A turn that leads on takes weight away and keeps what is good. -/
theorem Upholds.turned {good : σ → Nat → Prop} {state next : σ} {cursor after : Cursor α}
    (each : ∀ state left, good state left →
      Upholds (fun _ _ => True) thrown left (turn state) (TurnUpholds weight good ended state left))
    (start : good state cursor.rest.length) (turned : turn state cursor = .ok (.inl next, after)) :
    weight next after.rest.length < weight state cursor.rest.length ∧
      good next after.rest.length := by
  have kept := each state _ start cursor trivial rfl
  rw [turned] at kept
  exact kept.2

/-- Turns beyond the weight are not taken. -/
theorem Upholds.turns_eq {good : σ → Nat → Prop}
    (each : ∀ state left, good state left →
      Upholds (fun _ _ => True) thrown left (turn state) (TurnUpholds weight good ended state left))
    {bound larger : Nat} {state : σ} {cursor : Cursor α} (start : good state cursor.rest.length)
    (enough : weight state cursor.rest.length < bound) (le : bound ≤ larger) :
    turns exhausted turn bound state cursor = turns exhausted turn larger state cursor := by
  -- The weight goes down along with the bound.
  induction bound generalizing larger state cursor with
  | zero => omega
  | succ bound ih =>
    obtain ⟨larger, rfl⟩ := Nat.exists_eq_succ_of_ne_zero (Nat.ne_zero_of_lt le)
    rw [turns_succ, turns_succ]
    cases taken : turn state cursor with
    | error error => rfl
    | ok result =>
      obtain ⟨next, after⟩ := result
      cases next with
      | inl next =>
        have kept := Upholds.turned each start taken
        exact ih kept.2 (by omega) (Nat.le_of_succ_le_succ le)
      | inr value => rfl

/-- Taking the turns goes on alike wherever some of them lead. -/
theorem Upholds.repeated_reaches (good : σ → Nat → Prop)
    (each : ∀ state left, good state left →
      Upholds (fun _ _ => True) thrown left (turn state) (TurnUpholds weight good ended state left))
    {before after : σ × Cursor α} (start : good before.1 before.2.rest.length)
    (reaches : Reaches turn before after) :
    Reading.repeated exhausted weight turn before.1 before.2 =
      Reading.repeated exhausted weight turn after.1 after.2 := by
  -- The turns are taken from the front, where the state is known to be good.
  induction reaches using Relation.ReflTransGen.head_induction_on with
  | refl => rfl
  | head turned _ ih =>
    have kept := Upholds.turned each start turned
    rw [← ih kept.2, Reading.repeated, Reading.repeated, turns_succ, turned]
    exact (Upholds.turns_eq each kept.2 (Nat.lt_succ_self _) kept.1).symm

/-- Taking the turns is over where one of them returns a value. -/
theorem Upholds.repeated_done (good : σ → Nat → Prop)
    (each : ∀ state left, good state left →
      Upholds (fun _ _ => True) thrown left (turn state) (TurnUpholds weight good ended state left))
    {state next : σ} {cursor between after : Cursor α} {value : β}
    (start : good state cursor.rest.length)
    (reaches : Reaches turn (state, cursor) (next, between))
    (done : turn next between = .ok (.inr value, after)) :
    Reading.repeated exhausted weight turn state cursor = .ok (value, after) := by
  -- The last turn is the only one that is left to take.
  have run : Reading.repeated exhausted weight turn state cursor =
      Reading.repeated exhausted weight turn next between :=
    Upholds.repeated_reaches good each start reaches
  rw [run, Reading.repeated, turns_succ, done]

end

/-- What every turn keeps holds at the end. -/
theorem Ensures.repeated {exhausted : ε} {weight : σ → Nat → Nat}
    {turn : σ → Reading α ε (σ ⊕ β)} (holds : σ → Cursor α → Prop)
    {post : β → Cursor α → Prop}
    (each : ∀ state cursor, holds state cursor →
      Ensures (turn state) cursor fun result after =>
        match result with
        | .inl next => holds next after
        | .inr value => post value after)
    {state : σ} {cursor : Cursor α} (start : holds state cursor) :
    Ensures (repeated exhausted weight turn state) cursor post := by
  -- Nothing is said of a run that is out of turns, so the bound may be any.
  have bounded : ∀ bound state cursor, holds state cursor →
      Ensures (turns exhausted turn bound state) cursor post := by
    intro bound
    induction bound with
    | zero => exact fun _ _ _ => .fail
    | succ bound ih =>
      intro state cursor held
      rw [turns]
      refine (each state cursor held).bind fun result after next => ?_
      cases result with
      | inl next_ => exact ih next_ after next
      | inr value => exact .pure next
  exact bounded _ state cursor start

end Reading
