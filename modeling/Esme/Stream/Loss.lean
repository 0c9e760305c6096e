import Mathlib.Data.List.Chain
import Esme.Stream.Reassembly

/-! What an assembler hands on of an endless stream of windows of which packets are lost. -/

namespace Reassembly

variable {π : Type*} {number : π → Nat} {last : Nat} {sent : Nat → π}

/-- The packets of the stream are numbered from zero to `last`, window after window. -/
def Counts (number : π → Nat) (last : Nat) (sent : Nat → π) : Prop :=
  ∀ position, number (sent position) = position % (last + 1)

/-- One window of the stream. -/
def windowAt (last : Nat) (sent : Nat → π) (index : Nat) : List π :=
  (List.range (last + 1)).map fun offset => sent (index * (last + 1) + offset)

/-- A packet arrives after another one, and less than a whole window is lost between the two. -/
def Follows (last position next : Nat) : Prop :=
  position < next ∧ next ≤ position + (last + 1)

/-- What is collected are the first packets of a window up to those that are due next. -/
def Gathers (last : Nat) (sent : Nat → π) (due : Nat) : Option (List π) → Prop
  -- A waiting assembler has nothing that could be mixed up.
  | none => True
  | some collected => collected.length ≤ last ∧ ∃ index,
      index * (last + 1) + collected.length = due ∧
      collected = (List.range collected.length).map fun offset => sent (index * (last + 1) + offset)

/-- The packet that is due extends what is collected, or completes it to a window. -/
theorem extend_gathers {collected : List π} {due : Nat}
    (gathers : Gathers last sent due (some collected)) :
    Gathers last sent (due + 1) (extend last collected (sent due)).1 ∧
      ((extend last collected (sent due)).2 = [] ∨ ∃ index, index * (last + 1) + last = due ∧
        (extend last collected (sent due)).2 = [windowAt last sent index]) := by
  obtain ⟨short, index, place, content⟩ := gathers
  -- The packets with the new one are again the first of their window.
  have longer : collected ++ [sent due] =
      (List.range (collected.length + 1)).map fun offset =>
        sent (index * (last + 1) + offset) := by
    rw [List.range_succ, List.map_append, ← content, List.map_singleton, place]
  unfold extend
  split
  · rename_i full
    refine ⟨⟨Nat.zero_le _, index + 1, ?_, rfl⟩, .inr ⟨index, by omega, ?_⟩⟩
    · rw [Nat.succ_mul, List.length_nil]
      omega
    · rw [longer, full]
      rfl
  · rename_i part
    refine ⟨⟨?_, index, ?_, ?_⟩, .inl rfl⟩
    · rw [List.length_append, List.length_singleton]
      omega
    · rw [List.length_append, List.length_singleton]
      omega
    · rw [List.length_append, List.length_singleton]
      exact longer

/-- A packet before which less than a window is lost continues its own window or none. -/
theorem step_gathers (counts : Counts number last sent) {state : Option (List π)} {due next : Nat}
    (gathers : Gathers last sent due state) (after : due ≤ next ∧ next ≤ due + last) :
    Gathers last sent (next + 1) ((assembler number last).step state (sent next)).1 ∧
      (((assembler number last).step state (sent next)).2 = [] ∨
        ∃ index, index * (last + 1) + last = next ∧
          ((assembler number last).step state (sent next)).2 = [windowAt last sent index]) := by
  -- Less than a window was lost, so the number of the packet tells whether one is missing.
  have counter := counts next
  cases state with
  | none =>
    simp only [assembler]
    split
    · -- The first packet of a window is due whenever nothing is collected.
      rename_i zero
      rw [counter] at zero
      refine extend_gathers ⟨Nat.zero_le _, next / (last + 1), ?_, rfl⟩
      rw [List.length_nil, Nat.add_zero]
      exact Nat.div_mul_cancel (Nat.dvd_of_mod_eq_zero zero)
    · exact ⟨trivial, .inl rfl⟩
  | some collected =>
    simp only [assembler]
    split
    · rename_i expected
      obtain ⟨short, index, place, content⟩ := gathers
      -- Of the packets up to a window ahead only the one that is due has this number.
      have same : next = due := by
        rw [counter] at expected
        have position : due % (last + 1) = collected.length := by
          rw [← place, Nat.mul_comm, Nat.mul_add_mod, Nat.mod_eq_of_lt (by omega)]
        have apart := Nat.sub_mod_eq_zero_of_mod_eq (expected.trans position.symm)
        rw [Nat.mod_eq_of_lt (by omega)] at apart
        omega
      subst same
      exact extend_gathers ⟨short, index, place, content⟩
    · exact ⟨trivial, .inl rfl⟩

/-- Windows are handed on in their order, and none is mixed up of two. -/
theorem output_gathers (counts : Counts number last sent) {state : Option (List π)} {due : Nat}
    (gathers : Gathers last sent due state) {positions : List Nat}
    (first : ∀ position ∈ positions.head?, due ≤ position ∧ position ≤ due + last)
    (chain : positions.IsChain (Follows last)) :
    ∃ indices : List Nat, indices.Pairwise (· < ·) ∧
      (∀ index ∈ indices, due ≤ index * (last + 1) + last) ∧
      (assembler number last).output state (positions.map sent) =
        indices.map (windowAt last sent) := by
  -- The induction is on the positions, and what a step gathers is what the next one starts from.
  induction positions generalizing state due with
  | nil => exact ⟨[], List.Pairwise.nil, by simp, rfl⟩
  | cons position rest ih =>
    obtain ⟨after, others⟩ := List.isChain_cons.mp chain
    obtain ⟨soon, late⟩ := first position rfl
    obtain ⟨moved, handed⟩ := step_gathers counts gathers ⟨soon, late⟩
    obtain ⟨indices, ascending, behind, output⟩ := ih moved (fun next head => by
      obtain ⟨more, less⟩ := after next head
      exact ⟨more, by omega⟩) others
    rw [List.map_cons, Transducer.output_cons, output]
    rcases handed with nothing | ⟨index, ends, window⟩
    · refine ⟨indices, ascending, fun index member => ?_, by rw [nothing, List.nil_append]⟩
      have bound := behind index member
      omega
    · refine ⟨index :: indices, List.pairwise_cons.mpr ⟨fun other member => ?_, ascending⟩, ?_, ?_⟩
      · -- The windows behind it end later.
        have bound := behind other member
        have scaled : index * (last + 1) < other * (last + 1) := by omega
        exact Nat.lt_of_mul_lt_mul_right scaled
      · refine List.forall_mem_cons.mpr ⟨by omega, fun other member => ?_⟩
        have bound := behind other member
        omega
      · rw [window, List.singleton_append, List.map_cons]

/--
If less than a window is lost between any two packets that arrive, what is handed on are windows of
the stream, in their order.
-/
theorem output_thinned (counts : Counts number last sent) {positions : List Nat}
    (chain : positions.IsChain (Follows last)) :
    ∃ indices : List Nat, indices.Pairwise (· < ·) ∧
      (assembler number last).output none (positions.map sent) =
        indices.map (windowAt last sent) := by
  -- A waiting assembler may begin with any packet.
  have waiting : Gathers last sent (positions.headD 0) none := trivial
  obtain ⟨indices, ascending, -, output⟩ := output_gathers counts waiting (by
    intro position head
    rw [Option.mem_def] at head
    rw [List.headD_eq_head?_getD, head, Option.getD_some]
    omega) chain
  exact ⟨indices, ascending, output⟩

/-- A ready assembler hands on a window that arrives whole, and is ready again. -/
theorem ready_window {packets : List π} (numbered : Numbered number packets)
    (full : packets.length = last + 1) {state : Option (List π)}
    (ready : state = none ∨ state = some []) :
    (assembler number last).output state packets = [packets] ∧
      (assembler number last).final state packets = some [] := by
  -- The last packet is the one with which the window is handed on.
  rcases packets.eq_nil_or_concat' with rfl | ⟨front, packet, rfl⟩
  · simp at full
  rw [List.length_append, List.length_singleton, Nat.add_right_cancel_iff] at full
  obtain ⟨silent, handed⟩ := intact_handed ready numbered full
  have member : front ++ [packet] ∈ ((assembler number last).step
      ((assembler number last).final state front) packet).2 := by simp [handed]
  obtain ⟨-, -, -, fresh⟩ := run_window ready member
  constructor
  · rw [Transducer.output_append, silent, Transducer.output_cons, handed, Transducer.output_nil]
    rfl
  · rw [Transducer.final_append, Transducer.final_cons, fresh, Transducer.final_nil]

/-- A window that arrives whole leaves the assembler ready for the next one. -/
theorem ready_behind {packets : List π} (numbered : Numbered number packets)
    (full : packets.length = last + 1) (state : Option (List π)) :
    (assembler number last).final state packets = none ∨
      (assembler number last).final state packets = some [] := by
  match state with
  | none => exact .inr (ready_window numbered full (.inl rfl)).2
  | some [] => exact .inr (ready_window numbered full (.inr rfl)).2
  | some (_ :: _) =>
    cases packets with
    | nil => simp at full
    | cons packet rest =>
      -- The first packet breaks off what is collected, and the others do not start a window.
      have zero : number packet = 0 := numbered.head
      obtain ⟨waiting, -⟩ := run_waiting last numbered.tail_ne_zero
      left
      rw [Transducer.final_cons]
      simpa [assembler, zero] using waiting

/-- The windows of the stream are numbered. -/
theorem windowAt_numbered (counts : Counts number last sent) (index : Nat) :
    Numbered number (windowAt last sent index) := by
  unfold Numbered windowAt
  rw [List.length_map, List.length_range, List.map_map]
  refine (List.map_congr_left fun offset inside => ?_).trans (List.map_id _)
  have short := List.mem_range.mp inside
  rw [Function.comp_apply, counts, Nat.mul_comm, Nat.mul_add_mod, Nat.mod_eq_of_lt short]
  rfl

/-- The positions of two windows that follow one another. -/
theorem map_positions (index : Nat) :
    (List.range' (index * (last + 1)) (2 * (last + 1))).map sent =
      windowAt last sent index ++ windowAt last sent (index + 1) := by
  rw [Nat.two_mul, ← List.range'_append_1, List.map_append, List.range'_eq_map_range,
    List.range'_eq_map_range, List.map_map, List.map_map, ← Nat.succ_mul]
  rfl

/-- Ascending numbers among which there are some consecutive ones, and none before, begin so. -/
theorem consecutive_front {positions : List Nat} (ascending : positions.Pairwise (· < ·))
    {start count : Nat} (none : ∀ position ∈ positions, start ≤ position)
    (all : ∀ offset < count, start + offset ∈ positions) :
    List.range' start count <+: positions := by
  -- The induction is on how many consecutive numbers there are.
  induction count generalizing start positions with
  | zero => exact List.nil_prefix
  | succ count ih =>
    cases positions with
    | nil => exact absurd (all 0 (Nat.succ_pos count)) List.not_mem_nil
    | cons position rest =>
      obtain ⟨before, others⟩ := List.pairwise_cons.mp ascending
      -- The least of the numbers is the one at which the consecutive ones start.
      have least : position = start := by
        rcases List.mem_cons.mp (all 0 (Nat.succ_pos count)) with same | later
        · exact same.symm
        · have less := before _ later
          have more := none position List.mem_cons_self
          omega
      subst least
      rw [List.range'_succ, List.prefix_cons_inj]
      refine ih others (fun other member => before other member) fun offset inside => ?_
      have member := all (offset + 1) (Nat.succ_lt_succ inside)
      rcases List.mem_cons.mp member with same | later
      · omega
      · rwa [Nat.add_right_comm, Nat.add_assoc]

/-- Ascending numbers among which there are some consecutive ones have them side by side. -/
theorem consecutive_inside {positions : List Nat} (ascending : positions.Pairwise (· < ·))
    {start count : Nat} (all : ∀ offset < count, start + offset ∈ positions) :
    List.range' start count <:+: positions := by
  -- The induction is on the numbers, up to the first of the consecutive ones.
  induction positions with
  | nil => exact (consecutive_front ascending (List.forall_mem_nil _) all).isInfix
  | cons position rest ih =>
    obtain ⟨before, others⟩ := List.pairwise_cons.mp ascending
    -- Numbers in front of the consecutive ones are passed over.
    by_cases early : position < start
    · refine List.infix_cons (ih others fun offset inside => ?_)
      rcases List.mem_cons.mp (all offset inside) with same | later
      · omega
      · exact later
    · refine (consecutive_front ascending (List.forall_mem_cons.mpr ⟨by omega, ?_⟩) all).isInfix
      intro other member
      have less := before other member
      omega

/-- A window behind one that has arrived whole is handed on if it arrives whole, too. -/
theorem mem_output_thinned (counts : Counts number last sent) {positions : List Nat}
    (ascending : positions.Pairwise (· < ·)) {index : Nat}
    (whole : ∀ offset < 2 * (last + 1), index * (last + 1) + offset ∈ positions) :
    windowAt last sent (index + 1) ∈ (assembler number last).output none (positions.map sent) := by
  obtain ⟨before, after, rfl⟩ := consecutive_inside ascending whole
  have full : ∀ index, (windowAt last sent index).length = last + 1 := by simp [windowAt]
  have numbered := windowAt_numbered counts
  -- The first of the two windows makes the assembler ready for the second.
  have ready := ready_behind (numbered index) (full index)
    ((assembler number last).final none (before.map sent))
  obtain ⟨handed, -⟩ := ready_window (numbered (index + 1)) (full (index + 1)) ready
  rw [List.map_append, List.map_append, map_positions, Transducer.output_append,
    Transducer.output_append, Transducer.output_append, handed]
  simp

end Reassembly
