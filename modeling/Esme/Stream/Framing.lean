import Esme.Stream.Transducer
import Mathlib.Data.List.Chain

/-! Two ways of cutting a stream of symbols into pieces: byte stuffing and delimited lines. -/

namespace Framing

/-- A piece is handed on unless it is empty. -/
def flush {α : Type*} (piece : List α) : List (List α) :=
  -- Two end symbols in a row have nothing between them that could be handed on.
  match piece with
  | [] => []
  | _ :: _ => [piece]

@[simp] theorem flush_nil {α : Type*} : flush ([] : List α) = [] := rfl

@[simp] theorem flush_cons {α : Type*} (symbol : α) (rest : List α) :
    flush (symbol :: rest) = [symbol :: rest] := rfl

/-- A nonempty piece is handed on. -/
theorem flush_nonempty {α : Type*} {piece : List α} (nonempty : piece ≠ []) :
    flush piece = [piece] := by
  -- The piece starts with some symbol, and is then handed on by definition.
  cases piece with
  | nil => exact absurd rfl nonempty
  | cons symbol rest => rfl

/-- Flushing a piece leaves it or leaves it out. -/
theorem flush_sublist {α : Type*} (piece : List α) : (flush piece).Sublist [piece] := by
  -- An empty piece is left out, and any other is kept as it is.
  cases piece with
  | nil => exact List.nil_sublist _
  | cons symbol rest => exact List.Sublist.refl _

/-- Flushing every piece keeps exactly the nonempty ones. -/
theorem flatMap_flush {α : Type*} (pieces : List (List α)) :
    pieces.flatMap flush = pieces.filter (fun piece => !piece.isEmpty) := by
  -- Each piece is decided on its own, by whether it is empty.
  induction pieces with
  | nil => rfl
  | cons piece rest ih => cases piece <;> simp [ih]

/--
The four symbols of a byte-stuffing frame.

`fin` ends a packet, and `esc` followed by `escFin` or `escEsc` stands for a `fin` or an `esc`
inside it.
-/
structure Stuffing (α : Type*) where
  fin : α
  esc : α
  escFin : α
  escEsc : α
  esc_ne_fin : esc ≠ fin
  escFin_ne_fin : escFin ≠ fin
  escFin_ne_esc : escFin ≠ esc
  escEsc_ne_fin : escEsc ≠ fin
  escEsc_ne_esc : escEsc ≠ esc
  escEsc_ne_escFin : escEsc ≠ escFin

namespace Stuffing

variable {α : Type*} [DecidableEq α]

/-- How one payload symbol is sent. -/
def escape (framing : Stuffing α) (symbol : α) : List α :=
  -- Only the two symbols with a meaning of their own are sent as pairs.
  if symbol = framing.fin then [framing.esc, framing.escFin]
  else if symbol = framing.esc then [framing.esc, framing.escEsc]
  else [symbol]

/-- Every payload symbol is sent as something. -/
theorem escape_ne_nil (framing : Stuffing α) (symbol : α) : framing.escape symbol ≠ [] := by
  unfold escape
  split_ifs <;> simp

/-- A payload on the wire, with an end symbol on both sides. -/
def encode (framing : Stuffing α) (payload : List α) : List α :=
  -- The end symbol in front clears whatever noise the receiver has collected before.
  framing.fin :: (payload.flatMap framing.escape ++ [framing.fin])

/-- What the receiver keeps between two symbols. -/
structure Decoder (α : Type*) where
  /-- The packet received so far. -/
  packet : List α
  /-- The last symbol was an escape. -/
  escaped : Bool
  deriving DecidableEq

/-- The receiver before it has seen anything, and after every end symbol. -/
def Decoder.fresh : Decoder α := ⟨[], false⟩

/-- What a symbol following an escape stands for; a symbol that stands for nothing is dropped. -/
def unescape (framing : Stuffing α) (symbol : α) : List α :=
  -- An escape before any other symbol loses both, and the packet goes on.
  if symbol = framing.escFin then [framing.fin]
  else if symbol = framing.escEsc then [framing.esc]
  else []

/-- The receiver, handing on a packet at every end symbol that follows one. -/
def decoder (framing : Stuffing α) : Transducer (Decoder α) α (List α) where
  -- An escape is remembered only until the next symbol, whatever that is.
  step state symbol :=
    if symbol = framing.esc then ({ state with escaped := true }, [])
    else if symbol = framing.fin then (.fresh, flush state.packet)
    else if state.escaped then (⟨state.packet ++ framing.unescape symbol, false⟩, [])
    else (⟨state.packet ++ [symbol], false⟩, [])

/-- An end symbol hands on what was received and leaves the receiver fresh. -/
theorem decoder_step_fin (framing : Stuffing α) (state : Decoder α) :
    framing.decoder.step state framing.fin = (.fresh, flush state.packet) := by
  simp [decoder, Ne.symm framing.esc_ne_fin]

/-- The symbols one payload symbol is sent as append that symbol to the packet. -/
theorem decoder_escape (framing : Stuffing α) (packet : List α) (symbol : α) :
    framing.decoder.final ⟨packet, false⟩ (framing.escape symbol) = ⟨packet ++ [symbol], false⟩ ∧
      framing.decoder.output ⟨packet, false⟩ (framing.escape symbol) = [] := by
  -- An end or escape symbol travels as a pair, and every other symbol as itself.
  by_cases ends : symbol = framing.fin
  · simp [escape, ends, decoder, unescape, framing.escFin_ne_fin, framing.escFin_ne_esc]
  by_cases escapes : symbol = framing.esc
  · simp [escape, escapes, framing.esc_ne_fin, decoder, unescape, framing.escEsc_ne_fin,
      framing.escEsc_ne_esc, framing.escEsc_ne_escFin]
  · simp [escape, ends, escapes, decoder]

/-- A stuffed payload appends the payload to the packet and hands nothing on. -/
theorem decoder_stuffed (framing : Stuffing α) (packet payload : List α) :
    framing.decoder.final ⟨packet, false⟩ (payload.flatMap framing.escape) =
        ⟨packet ++ payload, false⟩ ∧
      framing.decoder.output ⟨packet, false⟩ (payload.flatMap framing.escape) = [] := by
  -- The packet grows by one symbol a step, so it stays quantified over.
  induction payload generalizing packet with
  | nil => simp
  | cons symbol rest ih =>
    obtain ⟨moved, silent⟩ := decoder_escape framing packet symbol
    obtain ⟨movedRest, silentRest⟩ := ih (packet ++ [symbol])
    rw [List.flatMap_cons, Transducer.final_append, Transducer.output_append, moved, silent]
    exact ⟨by rw [movedRest, List.append_assoc]; rfl, by rw [silentRest]; rfl⟩

/-- One frame first hands on what was left before it, then its own payload. -/
theorem decoder_encode (framing : Stuffing α) (state : Decoder α) (payload : List α) :
    framing.decoder.final state (framing.encode payload) = .fresh ∧
      framing.decoder.output state (framing.encode payload) =
        flush state.packet ++ flush payload := by
  -- The opening end symbol clears any leftover packet and any pending escape.
  obtain ⟨moved, silent⟩ := decoder_stuffed framing [] payload
  simp only [encode, Transducer.final_cons, Transducer.output_cons, decoder_step_fin,
    Transducer.final_append, Transducer.output_append]
  simp only [Decoder.fresh, moved, silent, List.nil_append, Transducer.final_nil,
    Transducer.output_nil, List.append_nil, and_self]

/-- A list of frames hands on what was left before it, then the nonempty payloads in order. -/
theorem decoder_frames (framing : Stuffing α) (state : Decoder α) {payloads : List (List α)}
    (nonempty : payloads ≠ []) :
    framing.decoder.final state (payloads.flatMap framing.encode) = .fresh ∧
      framing.decoder.output state (payloads.flatMap framing.encode) =
        flush state.packet ++ payloads.flatMap flush := by
  -- After the first frame the receiver is fresh, and there is nothing left to hand on.
  induction payloads generalizing state with
  | nil => exact absurd rfl nonempty
  | cons payload rest ih =>
    obtain ⟨moved, written⟩ := decoder_encode framing state payload
    rw [List.flatMap_cons, Transducer.final_append, Transducer.output_append, moved, written]
    cases rest with
    | nil => simp
    | cons next others =>
      obtain ⟨movedRest, writtenRest⟩ := ih .fresh (List.cons_ne_nil next others)
      exact ⟨movedRest, by rw [writtenRest]; simp [Decoder.fresh]⟩

end Stuffing

/-- The reader of lines, holding the unfinished line and handing on the nonempty ones. -/
def lineReader {α : Type*} [DecidableEq α] (newline : α) : Transducer (List α) α (List α) where
  -- An empty line is dropped without a trace.
  step line symbol :=
    if symbol = newline then ([], flush line) else (line ++ [symbol], [])

namespace LineReader

variable {α : Type*} [DecidableEq α] {newline : α}

/-- Symbols without a newline among them extend the unfinished line. -/
theorem reads_open (line : List α) {symbols : List α} (inside : newline ∉ symbols) :
    (lineReader newline).final line symbols = line ++ symbols ∧
      (lineReader newline).output line symbols = [] := by
  -- No symbol here ends the line, so each of them is appended.
  induction symbols generalizing line with
  | nil => simp
  | cons symbol rest ih =>
    have other : symbol ≠ newline := fun same => inside (by simp [same])
    obtain ⟨moved, silent⟩ := ih (line ++ [symbol]) (fun later => inside (by simp [later]))
    simp only [lineReader] at moved silent ⊢
    simp [other, moved, silent]

/-- A line and its newline are handed on after whatever was unfinished before them. -/
theorem reads_line (line : List α) {symbols : List α} (inside : newline ∉ symbols) :
    (lineReader newline).final line (symbols ++ [newline]) = [] ∧
      (lineReader newline).output line (symbols ++ [newline]) = flush (line ++ symbols) := by
  -- The symbols of the line stay open until the newline behind them hands them on.
  obtain ⟨moved, silent⟩ := reads_open line inside
  rw [Transducer.final_append, Transducer.output_append, moved, silent]
  simp [lineReader]

omit [DecidableEq α] in
/-- Symbols read in a row without a newline between them were all kept or all left out. -/
theorem uniformly_kept {front : List (α × Bool)} {last : α × Bool}
    (inside : newline ∉ front.map Prod.fst)
    (aligned : (front ++ [last]).IsChain fun read next => read.1 = newline ∨ read.2 = next.2) :
    ∀ read ∈ front ++ [last], read.2 = last.2 := by
  -- The induction goes forward; neighbours without a newline between them agree, so all do.
  induction front with
  | nil => simp
  | cons read rest ih =>
    simp only [List.map_cons, List.mem_cons, not_or] at inside
    obtain ⟨next, others, rest_eq⟩ : ∃ next others, rest ++ [last] = next :: others :=
      List.exists_cons_of_ne_nil (by simp)
    have same := ih inside.2 (by
      rw [List.cons_append] at aligned
      exact aligned.tail)
    rw [List.cons_append, rest_eq] at aligned
    rw [List.cons_append, List.forall_mem_cons]
    refine ⟨?_, same⟩
    rcases (List.isChain_cons_cons.mp aligned).1 with ended | equal
    · exact absurd ended.symm inside.1
    · exact equal.trans (same next (by rw [rest_eq]; simp))

/--
A reader that is given only part of what was written still sees whole lines.

What is left out may start and stop only behind a newline.
-/
theorem kept_lines {lines : List (List α)} (inside : ∀ line ∈ lines, newline ∉ line)
    {reads : List (α × Bool)}
    (within : reads.map Prod.fst <+: lines.flatMap (· ++ [newline]))
    (aligned : reads.IsChain fun read next => read.1 = newline ∨ read.2 = next.2) :
    ((lineReader newline).output [] ((reads.filter Prod.snd).map Prod.fst)).Sublist lines := by
  -- The induction is on the lines written, each of them kept or left out as a whole.
  induction lines generalizing reads with
  | nil =>
    rw [List.flatMap_nil, List.prefix_nil, List.map_eq_nil_iff] at within
    rw [within]
    exact List.nil_sublist _
  | cons line rest ih =>
    obtain ⟨first, others⟩ := List.forall_mem_cons.mp inside
    rw [List.flatMap_cons] at within
    by_cases short : reads.length ≤ line.length
    · -- The reads end inside the first line, so no line is complete.
      have front : reads.map Prod.fst <+: line := List.prefix_of_prefix_length_le within
        ((List.prefix_append line _).trans (List.prefix_append _ _)) (by simpa using short)
      have none : newline ∉ (reads.filter Prod.snd).map Prod.fst := fun member =>
        first (front.subset (List.map_subset Prod.fst List.filter_sublist.subset member))
      rw [(reads_open [] none).2]
      exact List.nil_sublist _
    · -- The reads go on behind the first line, which was kept or left out as a whole.
      have whole : line ++ [newline] <+: reads.map Prod.fst :=
        List.prefix_of_prefix_length_le (List.prefix_append _ _) within (by simp; omega)
      obtain ⟨back, reads_eq⟩ := whole
      obtain ⟨front, later, rfl, front_eq, rfl⟩ := List.map_eq_append_iff.mp reads_eq.symm
      obtain ⟨symbols, ended, rfl, rfl, ended_eq⟩ := List.map_eq_append_iff.mp front_eq
      obtain ⟨last, rfl, rfl⟩ := List.map_eq_singleton_iff.mp ended_eq
      have same := uniformly_kept first aligned.left_of_append
      have further := ih others
        (by rwa [List.map_append, front_eq, List.prefix_append_right_inj] at within)
        aligned.right_of_append
      rw [List.filter_append, List.map_append]
      cases kept : last.2 with
      | false =>
        rw [List.filter_eq_nil_iff.mpr fun read member => by simp [same read member, kept]]
        exact further.trans (List.sublist_cons_self _ _)
      | true =>
        obtain ⟨moved, written⟩ := reads_line [] first
        rw [List.filter_eq_self.mpr fun read member => by simp [same read member, kept],
          front_eq, Transducer.output_append, moved, written, List.nil_append]
        refine List.Sublist.trans (List.Sublist.append_left further _) ?_
        exact List.Sublist.append_right (flush_sublist _) _

end LineReader

end Framing
