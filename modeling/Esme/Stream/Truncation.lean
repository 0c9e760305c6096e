import Esme.Stream.Framing
import Mathlib.Computability.Language

/-! Messages sent one after another, some of them cut short, and when that can be seen. -/

namespace Framing

open Computability

variable {α β : Type*}

/--
A language of messages in which a truncated message shows.

Behind whole messages, a front of a message is a row of messages again only if nothing is missing.
-/
def TruncationShows (messages : Language α) : Prop :=
  -- The front may be all of the message, and then nothing is missing.
  ∀ before ∈ messages∗, ∀ message ∈ messages, ∀ front, front <+: message →
    before ++ front ∈ messages∗ → front = [] ∨ front = message

/-- A front of a message is a message itself only if nothing is missing. -/
theorem TruncationShows.whole_iff {messages : Language α} (shows : TruncationShows messages)
    {message front : List α} (member : message ∈ messages) (part : front <+: message) :
    front = [] ∨ front ∈ messages ↔ front = [] ∨ front = message := by
  -- Only one direction needs the language, the other is about the message alone.
  constructor
  · intro named
    rcases named with nothing | other
    · exact .inl nothing
    · -- A single message is a row of messages behind nothing.
      apply shows [] (Language.nil_mem_kstar messages) message member front part
      rw [List.nil_append]
      exact Language.mem_kstar.mpr ⟨[front], by simp, by simpa using other⟩
  · intro named
    rcases named with nothing | all
    · exact .inl nothing
    · exact .inr (all ▸ member)

/-- Whole messages with nothing between them are a row of messages. -/
theorem flatMap_mem_kstar {messages : Language α} {items : List β} {taken : β → List α}
    (whole : ∀ item ∈ items, taken item = [] ∨ taken item ∈ messages) :
    items.flatMap taken ∈ messages∗ := by
  -- Each item adds nothing to the row, or one message in front of it.
  induction items with
  | nil => exact Language.nil_mem_kstar messages
  | cons item rest ih =>
    obtain ⟨first, others⟩ := List.forall_mem_cons.mp whole
    rw [List.flatMap_cons]
    rcases first with nothing | all
    · rw [nothing]
      exact ih others
    · have step : messages * messages∗ ≤ messages∗ := mul_kstar_le_kstar
      exact step (Language.append_mem_mul all (ih others))

/--
Fronts of messages make a row of messages at every point exactly when none is cut short.

Each item is a front of some message, and the points are those between two items.
-/
theorem row_iff_whole {messages : Language α} (shows : TruncationShows messages)
    {items : List β} {taken : β → List α}
    (fronts : ∀ item ∈ items, taken item = [] ∨ ∃ message ∈ messages, taken item <+: message) :
    (∀ front, front <+: items → front.flatMap taken ∈ messages∗) ↔
      ∀ item ∈ items, taken item = [] ∨ taken item ∈ messages := by
  -- One direction looks at the points around an item, the other puts the items together.
  constructor
  · intro row item member
    rcases fronts item member with nothing | ⟨message, named, front⟩
    · exact .inl nothing
    · -- The item ends at one such point and starts at another.
      obtain ⟨before, after, rfl⟩ := List.append_of_mem member
      have start := row before (List.prefix_append _ _)
      have stop := row (before ++ [item]) ⟨after, by simp⟩
      rw [List.flatMap_append, List.flatMap_cons, List.flatMap_nil, List.append_nil] at stop
      rcases shows _ start message named _ front stop with nothing | all
      · exact .inl nothing
      · exact .inr (all ▸ named)
  · intro whole front part
    exact flatMap_mem_kstar fun item member => whole item (part.subset member)

/-- A row of lines is empty or ends with a newline. -/
theorem getLast_lines {newline : α} {lines : Language α}
    (ends : ∀ line ∈ lines, ∃ text, newline ∉ text ∧ line = text ++ [newline])
    {bytes : List α} (row : bytes ∈ lines∗) : bytes = [] ∨ bytes.getLast? = some newline := by
  -- The last line of the row ends it, so the induction takes the lines from the end.
  obtain ⟨pieces, rfl, members⟩ := Language.mem_kstar.mp row
  induction pieces using List.reverseRecOn with
  | nil => exact .inl rfl
  | append_singleton before last ih =>
    obtain ⟨text, -, rfl⟩ := ends last (members last (by simp))
    exact .inr (by simp)

/-- A line cut short shows, since a newline stands only at its end. -/
theorem lines_truncationShows {newline : α} {lines : Language α}
    (ends : ∀ line ∈ lines, ∃ text, newline ∉ text ∧ line = text ++ [newline]) :
    TruncationShows lines := by
  intro before row line member front part after
  obtain ⟨text, inside, rfl⟩ := ends line member
  rcases List.prefix_concat_iff.mp part with whole | cut
  · exact .inr whole
  · apply Or.inl
    by_contra nonempty
    -- The row ends with the last symbol of the front, which would have to be a newline.
    rcases getLast_lines ends after with empty | last
    · exact nonempty (List.append_eq_nil_iff.mp empty).2
    · rw [List.getLast?_append_of_ne_nil _ nonempty] at last
      exact inside (cut.subset (List.mem_of_getLast? last))

namespace Stuffing

variable [DecidableEq α] (framing : Stuffing α)

/-- A stuffed payload holds no end symbol. -/
theorem count_stuffed (payload : List α) :
    (payload.flatMap framing.escape).count framing.fin = 0 := by
  -- A payload symbol is sent as a pair without an end symbol, or as itself if it is none.
  rw [List.count_eq_zero, List.mem_flatMap]
  intro member
  obtain ⟨symbol, -, inside⟩ := member
  unfold escape at inside
  split at inside
  · simp [framing.esc_ne_fin.symm, framing.escFin_ne_fin.symm] at inside
  split at inside
  · simp [framing.esc_ne_fin.symm, framing.escEsc_ne_fin.symm] at inside
  · rename_i other _
    exact other (List.mem_singleton.mp inside).symm

/-- A row of frames holds an even number of end symbols. -/
theorem even_count {frames : Language α} (stuffed : ∀ frame ∈ frames, ∃ payload,
    frame = framing.encode payload) {bytes : List α} (row : bytes ∈ frames∗) :
    2 ∣ bytes.count framing.fin := by
  -- Each frame brings its two end symbols, and its payload brings none.
  obtain ⟨pieces, rfl, members⟩ := Language.mem_kstar.mp row
  induction pieces with
  | nil => simp
  | cons frame rest ih =>
    obtain ⟨first, others⟩ := List.forall_mem_cons.mp members
    obtain ⟨payload, rfl⟩ := stuffed frame first
    have tail := ih others (Language.join_mem_kstar others)
    rw [List.flatten_cons, List.count_append, encode, List.count_cons_self, List.count_append,
      count_stuffed]
    simp only [List.count_singleton_self]
    omega

/-- A frame cut short shows, since it holds one end symbol where a row of frames holds pairs. -/
theorem frames_truncationShows {frames : Language α} (stuffed : ∀ frame ∈ frames, ∃ payload,
    frame = framing.encode payload) : TruncationShows frames := by
  -- A front that misses something has lost at least the end symbol of its frame.
  intro before row frame member front part after
  obtain ⟨payload, rfl⟩ := stuffed frame member
  rw [encode, ← List.cons_append] at part
  rcases List.prefix_concat_iff.mp part with whole | cut
  · exact .inr whole
  · apply Or.inl
    by_contra nonempty
    obtain ⟨symbol, rest, rfl⟩ := List.exists_cons_of_ne_nil nonempty
    obtain ⟨rfl, inside⟩ := List.cons_prefix_cons.mp cut
    have none : rest.count framing.fin = 0 := by
      have fewer := inside.sublist.count_le framing.fin
      rw [count_stuffed] at fewer
      omega
    have parity := framing.even_count stuffed after
    rw [List.count_append, List.count_cons_self, none] at parity
    have first := framing.even_count stuffed row
    omega

end Stuffing

end Framing
