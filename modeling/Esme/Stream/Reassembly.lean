import Esme.Stream.Transducer
import Mathlib.Data.List.Infix

/-! In-order reassembly: numbered packets are collected from zero and handed on as whole windows. -/

namespace Reassembly

variable {π κ : Type*}

/-- Add the next packet of a window, handing the window on when it is the last one. -/
def extend (last : Nat) (collected : List π) (packet : π) : Option (List π) × List (List π) :=
  -- The window that is handed on leaves an empty one in the making behind.
  if collected.length = last then (some [], [collected ++ [packet]])
  else (some (collected ++ [packet]), [])

/--
The assembler of windows numbered from zero to `last`.

Without a window it waits for a packet numbered zero, and with one it takes the next number only.
-/
def assembler (number : π → Nat) (last : Nat) :
    Transducer (Option (List π)) π (List π) where
  -- A packet out of order drops the window, and even a packet numbered zero does not start one
  -- then.
  step
    | none, packet => if number packet = 0 then extend last [] packet else (none, [])
    | some collected, packet =>
      if number packet = collected.length then extend last collected packet else (none, [])

/-- Packets numbered from zero upwards, in order. -/
def Numbered (number : π → Nat) (window : List π) : Prop :=
  -- The numbers of the window are the positions in it.
  window.map number = List.range window.length

/-- Packets that all carry one tag. -/
def Uniform (tag : π → κ) (window : List π) : Prop :=
  ∃ common, ∀ packet ∈ window, tag packet = common

variable {number : π → Nat} {tag : π → κ} {last : Nat}

/-- The packet after a numbered list carries the length of the list. -/
theorem numbered_concat (collected : List π) (packet : π) :
    Numbered number (collected ++ [packet]) ↔
      Numbered number collected ∧ number packet = collected.length := by
  simp only [Numbered, List.map_append, List.map_cons, List.map_nil, List.length_append,
    List.length_singleton, List.range_succ]
  -- Both sides end in one element, so the equation splits into the front and that element.
  constructor
  · intro same
    obtain ⟨front, back⟩ := List.append_inj same (by simp)
    exact ⟨front, by simpa using back⟩
  · intro parts
    obtain ⟨front, back⟩ := parts
    rw [front, back]

/-- Every prefix of a numbered list is numbered. -/
theorem Numbered.front {front back : List π} (numbered : Numbered number (front ++ back)) :
    Numbered number front := by
  -- The back is taken away from its end, one packet at a time.
  induction back using List.reverseRecOn with
  | nil => simpa using numbered
  | append_singleton back packet ih =>
    rw [← List.append_assoc, numbered_concat] at numbered
    exact ih numbered.1

/-- The first packet of a numbered list is numbered zero. -/
theorem Numbered.head {packet : π} {rest : List π} (numbered : Numbered number (packet :: rest)) :
    number packet = 0 := by
  -- The first packet alone is a front of the list.
  have first : Numbered number [packet] := Numbered.front numbered
  simpa [Numbered] using first

/-- No packet after the first of a numbered list is numbered zero. -/
theorem Numbered.tail_ne_zero {packet : π} {rest : List π}
    (numbered : Numbered number (packet :: rest)) : ∀ other ∈ rest, number other ≠ 0 := by
  -- The numbers of the tail are those of the range shifted by one.
  simp only [Numbered, List.map_cons, List.length_cons, List.range_succ_eq_map,
    List.cons.injEq] at numbered
  intro other member zero
  have inside : number other ∈ rest.map number := List.mem_map_of_mem member
  rw [numbered.2, zero] at inside
  simp at inside

/-- A window in the making is short, numbered from zero, and the end of what was received. -/
def Collected (number : π → Nat) (last : Nat) (received : List π) : Option (List π) → Prop
  -- Waiting for a window is always possible, and it says nothing about what was received.
  | none => True
  | some collected =>
    collected.length ≤ last ∧ Numbered number collected ∧ collected <:+ received

/-- Extending a window keeps it the end of what was received. -/
theorem extend_collected {received collected : List π} {packet : π}
    (inv : Collected number last received (some collected))
    (next : number packet = collected.length) :
    Collected number last (received ++ [packet]) (extend last collected packet).1 := by
  -- The window either starts over, or grows by the packet just received.
  obtain ⟨short, numbered, suffix⟩ := inv
  unfold extend
  split
  · exact ⟨Nat.zero_le _, rfl, List.nil_suffix⟩
  · refine ⟨?_, (numbered_concat _ _).mpr ⟨numbered, next⟩, ?_⟩
    · simp only [List.length_append, List.length_singleton]
      omega
    · exact (List.suffix_append_self_iff).mpr suffix

/-- One packet keeps the window in the making the end of what was received. -/
theorem step_collected {received : List π} {state : Option (List π)}
    (inv : Collected number last received state) (packet : π) :
    Collected number last (received ++ [packet])
      ((assembler number last).step state packet).1 := by
  -- Every branch that keeps a window extends it by the packet numbered next.
  cases state with
  | none =>
    simp only [assembler]
    split
    · rename_i zero
      have fresh : Collected number last received (some []) :=
        ⟨Nat.zero_le _, rfl, List.nil_suffix⟩
      exact extend_collected fresh zero
    · trivial
  | some collected =>
    simp only [assembler]
    split
    · rename_i next
      exact extend_collected inv next
    · trivial

/-- After any run the window in the making is the end of what was received. -/
theorem final_collected {received : List π} {state : Option (List π)}
    (inv : Collected number last received state) (packets : List π) :
    Collected number last (received ++ packets) ((assembler number last).final state packets) := by
  -- What was received grows with the run, so it stays quantified over.
  induction packets generalizing received state with
  | nil => simpa using inv
  | cons packet rest ih =>
    have moved := ih (step_collected inv packet)
    simpa using moved

/-- A window handed on is the numbered end of everything received, of full length. -/
theorem step_window {received : List π} {state : Option (List π)}
    (inv : Collected number last received state) {packet : π} {window : List π}
    (handed : window ∈ ((assembler number last).step state packet).2) :
    window.length = last + 1 ∧ Numbered number window ∧ window <:+ received ++ [packet] ∧
      ((assembler number last).step state packet).1 = some [] := by
  -- Only an extension that completes the window hands anything on.
  have extends_window : ∀ collected : List π, Collected number last received (some collected) →
      number packet = collected.length → window ∈ (extend last collected packet).2 →
      window.length = last + 1 ∧ Numbered number window ∧ window <:+ received ++ [packet] ∧
        (extend last collected packet).1 = some [] := by
    intro collected inv next handed
    obtain ⟨_, numbered, suffix⟩ := inv
    unfold extend at handed ⊢
    split at handed
    · rename_i full
      simp only [List.mem_singleton] at handed
      subst handed
      refine ⟨by simp [full], (numbered_concat _ _).mpr ⟨numbered, next⟩, ?_, by simp [full]⟩
      exact (List.suffix_append_self_iff).mpr suffix
    · simp at handed
  cases state with
  | none =>
    simp only [assembler] at handed ⊢
    split at handed
    · rename_i zero
      rw [if_pos zero]
      exact extends_window [] ⟨Nat.zero_le _, rfl, List.nil_suffix⟩ zero handed
    · simp at handed
  | some collected =>
    simp only [assembler] at handed ⊢
    split at handed
    · rename_i next
      rw [if_pos next]
      exact extends_window collected inv next handed
    · simp at handed

/-- Every window of a run consists of the last packets received when it is handed on. -/
theorem run_window {state : Option (List π)} (start : state = none ∨ state = some [])
    {history : List π} {packet : π} {window : List π}
    (handed : window ∈ ((assembler number last).step
      ((assembler number last).final state history) packet).2) :
    window.length = last + 1 ∧ Numbered number window ∧ window <:+ history ++ [packet] ∧
      ((assembler number last).step
        ((assembler number last).final state history) packet).1 = some [] := by
  -- Before the run nothing was received, and the window in the making agrees with that.
  have inv : Collected number last [] state := by
    rcases start with rfl | rfl
    · trivial
    · exact ⟨Nat.zero_le _, rfl, List.nil_suffix⟩
  have reached := final_collected inv history
  rw [List.nil_append] at reached
  exact step_window reached handed

/-- Two windows of one run share no packet: a whole window is received between them. -/
theorem run_windows_disjoint {history between : List π} {first second : π}
    {early late : List π}
    (handedFirst : early ∈ ((assembler number last).step
      ((assembler number last).final none history) first).2)
    (handedSecond : late ∈ ((assembler number last).step
      ((assembler number last).final none (history ++ first :: between)) second).2) :
    late <:+ between ++ [second] := by
  -- After the first window the assembler starts over, knowing nothing of earlier packets.
  have restarted := (run_window (.inl rfl) handedFirst).2.2.2
  rw [Transducer.final_append, Transducer.final_cons, restarted] at handedSecond
  exact (run_window (.inr rfl) handedSecond).2.2.1

/-- A window in the making takes consecutive packets without handing anything on. -/
theorem run_consecutive (last : Nat) (collected packets : List π)
    (numbered : Numbered number (collected ++ packets))
    (short : collected.length + packets.length ≤ last) :
    (assembler number last).final (some collected) packets = some (collected ++ packets) ∧
      (assembler number last).output (some collected) packets = [] := by
  -- The window grows by each packet, and stays too short to be handed on.
  induction packets generalizing collected with
  | nil => simp
  | cons packet rest ih =>
    have whole : collected ++ packet :: rest = (collected ++ [packet]) ++ rest := by simp
    rw [whole] at numbered
    have next : number packet = collected.length := ((numbered_concat _ _).mp numbered.front).2
    simp only [List.length_cons] at short
    have step : (assembler number last).step (some collected) packet =
        (some (collected ++ [packet]), []) := by
      simp only [assembler, if_pos next, extend, if_neg (show collected.length ≠ last by omega)]
    obtain ⟨moved, silent⟩ := ih (collected ++ [packet]) numbered (by simp; omega)
    rw [Transducer.final_cons, Transducer.output_cons, step, moved, silent, whole]
    exact ⟨rfl, rfl⟩

/-- A waiting assembler treats a packet numbered zero as a fresh one does. -/
theorem step_waiting {packet : π} (zero : number packet = 0) :
    (assembler number last).step none packet = (assembler number last).step (some []) packet := by
  simp [assembler, zero]

/-- Before or between windows, the start of a window is collected whole. -/
theorem ready_collects {state : Option (List π)} (ready : state = none ∨ state = some [])
    {first : π} {rest : List π} (numbered : Numbered number (first :: rest))
    (short : rest.length + 1 ≤ last) :
    (assembler number last).final state (first :: rest) = some (first :: rest) := by
  -- Waiting and fresh assemblers differ at the first packet only, which is numbered zero.
  have fresh := (run_consecutive last [] (first :: rest) (by simpa using numbered)
    (by simpa using short)).1
  rcases ready with rfl | rfl
  · rw [Transducer.final_cons, step_waiting numbered.head]
    exact fresh
  · exact fresh

/-- Before or between windows, nothing is handed on while a window is incomplete. -/
theorem ready_silent {state : Option (List π)} (ready : state = none ∨ state = some [])
    {packets : List π} (numbered : Numbered number packets) (short : packets.length ≤ last) :
    (assembler number last).output state packets = [] := by
  have fresh := (run_consecutive last [] packets (by simpa using numbered)
    (by simpa using short)).2
  rcases ready with rfl | rfl
  · cases packets with
    | nil => rfl
    | cons first rest =>
      rw [Transducer.output_cons, step_waiting numbered.head]
      exact fresh
  · exact fresh

/-- While no packet is numbered zero, a waiting assembler goes on waiting. -/
theorem run_waiting (last : Nat) {packets : List π}
    (nonzero : ∀ packet ∈ packets, number packet ≠ 0) :
    (assembler number last).final none packets = none ∧
      (assembler number last).output none packets = [] := by
  -- Each packet is refused by a waiting assembler, which then still waits.
  induction packets with
  | nil => simp
  | cons packet rest ih =>
    have step : (assembler number last).step none packet = (none, []) := by
      simp [assembler, nonzero packet (by simp)]
    obtain ⟨moved, silent⟩ := ih (fun other member => nonzero other (by simp [member]))
    rw [Transducer.final_cons, Transducer.output_cons, step, moved, silent]
    exact ⟨rfl, rfl⟩

/-- A fresh assembler hands on an intact window with its last packet, and nothing before it. -/
theorem fresh_hands_on {front : List π} {packet : π}
    (numbered : Numbered number (front ++ [packet])) (full : front.length = last) :
    (assembler number last).output (some []) front = [] ∧
      ((assembler number last).step ((assembler number last).final (some []) front) packet).2 =
        [front ++ [packet]] := by
  -- All packets but the last are collected, and the last one fills the window.
  have next : number packet = front.length := ((numbered_concat _ _).mp numbered).2
  obtain ⟨moved, silent⟩ := run_consecutive last [] front
    (by simpa using numbered.front) (by simp [full])
  refine ⟨silent, ?_⟩
  rw [moved]
  simp [assembler, next, extend, full]

/-- An assembler between two windows, or waiting for one, hands on an intact window. -/
theorem intact_handed {state : Option (List π)} (ready : state = none ∨ state = some [])
    {front : List π} {packet : π} (numbered : Numbered number (front ++ [packet]))
    (full : front.length = last) :
    (assembler number last).output state front = [] ∧
      ((assembler number last).step ((assembler number last).final state front) packet).2 =
        [front ++ [packet]] := by
  have fresh := fresh_hands_on numbered full
  rcases ready with rfl | rfl
  · -- The first packet is numbered zero, so waiting for it and being fresh come to the same.
    cases front with
    | nil =>
      have zero : number packet = 0 := ((numbered_concat [] packet).mp numbered).2
      simpa [step_waiting zero] using fresh
    | cons first rest =>
      have zero : number first = 0 := numbered.front.head
      simpa [step_waiting zero] using fresh
  · exact fresh

/-- An assembler in the middle of a window refuses an intact window from its first packet on. -/
theorem intact_refused (last : Nat) {collected : List π} (occupied : collected ≠ [])
    {front : List π} {packet : π} (numbered : Numbered number (front ++ [packet])) :
    (assembler number last).output (some collected) front = [] ∧
      ((assembler number last).step
        ((assembler number last).final (some collected) front) packet).2 = [] := by
  -- The first packet is not the one that is due, and behind it nothing is collected.
  have begun : collected.length ≠ 0 := by simpa using occupied
  have next : number packet = front.length := ((numbered_concat _ _).mp numbered).2
  cases front with
  | nil =>
    have refused : number packet ≠ collected.length := by
      rw [next]; exact fun same => begun same.symm
    simp [assembler, refused]
  | cons first rest =>
    -- The packet numbered zero is refused, and no later one restarts the assembler.
    have zero : number first = 0 := numbered.front.head
    have refused : (assembler number last).step (some collected) first = (none, []) := by
      simp [assembler, zero, Ne.symm begun]
    obtain ⟨waiting, silent⟩ := run_waiting last numbered.front.tail_ne_zero
    have nonzero : number packet ≠ 0 := by rw [next]; simp
    rw [Transducer.output_cons, Transducer.final_cons, refused, waiting, silent]
    simp [assembler, nonzero]

/-- A packet added to a nonempty window in the making carries the tag of its last packet. -/
def Continues (number : π → Nat) (tag : π → κ) : Option (List π) → π → Prop
  -- Nothing is asked of the packet that starts a window, or of one that is refused.
  | none, _ => True
  | some collected, packet =>
    number packet = collected.length → ∀ previous ∈ collected.getLast?, tag packet = tag previous

/-- A uniform window stays uniform under a packet with the tag of its last one. -/
theorem uniform_concat {collected : List π} {packet : π} (uniform : Uniform tag collected)
    (same : ∀ previous ∈ collected.getLast?, tag packet = tag previous) :
    Uniform tag (collected ++ [packet]) := by
  -- The last packet ties the new one to the tag of all the others.
  obtain ⟨common, all⟩ := uniform
  cases collected using List.reverseRecOn with
  | nil => exact ⟨tag packet, by simp⟩
  | append_singleton front previous =>
    have agrees : tag packet = common := by
      rw [same previous (by simp)]
      exact all previous (by simp)
    refine ⟨common, fun other member => ?_⟩
    rcases List.mem_append.mp member with inside | new
    · exact all other inside
    · simp only [List.mem_singleton] at new
      rw [new, agrees]

/-- The window in the making carries one tag. -/
def Tagged (tag : π → κ) : Option (List π) → Prop
  -- Without a window there is nothing that could be mixed.
  | none => True
  | some collected => Uniform tag collected

/-- A packet that continues a window keeps it uniform, and a window it completes is uniform. -/
theorem step_tagged {state : Option (List π)} {packet : π} (tagged : Tagged tag state)
    (continues : Continues number tag state packet) :
    Tagged tag ((assembler number last).step state packet).1 ∧
      ∀ window ∈ ((assembler number last).step state packet).2, Uniform tag window := by
  -- Both ways of extending a window need only that the extended window is uniform.
  have extends_window : ∀ collected : List π, Uniform tag (collected ++ [packet]) →
      Tagged tag (extend last collected packet).1 ∧
        ∀ window ∈ (extend last collected packet).2, Uniform tag window := by
    intro collected uniform
    unfold extend
    split
    · exact ⟨⟨tag packet, by simp⟩, by simpa using uniform⟩
    · exact ⟨uniform, by simp⟩
  cases state with
  | none =>
    simp only [assembler]
    split
    · exact extends_window [] ⟨tag packet, by simp⟩
    · exact ⟨trivial, by simp⟩
  | some collected =>
    simp only [assembler]
    split
    · rename_i next
      exact extends_window collected (uniform_concat tagged (continues next))
    · exact ⟨trivial, by simp⟩

end Reassembly
