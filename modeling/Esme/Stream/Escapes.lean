import Esme.Stream.Framing

/-! What a byte-stuffing receiver makes of symbols that no sender stuffs that way. -/

namespace Framing.Stuffing

variable {α : Type*} [DecidableEq α]

/--
The symbols of a packet without the escapes that stand for nothing.

An escape before another escape and one at the end are left out, and one before any other symbol
that it cannot be followed by is left out with that symbol. The flag says that an escape was read
just before.
-/
def dropMalformed (framing : Stuffing α) : Bool → List α → List α
  | _, [] => []
  | escaped, symbol :: rest =>
    if symbol = framing.esc then framing.dropMalformed true rest
    else if escaped then
      -- Only here is the escape known to stand for something.
      if symbol = framing.escFin ∨ symbol = framing.escEsc then
        framing.esc :: symbol :: framing.dropMalformed false rest
      else framing.dropMalformed false rest
    else symbol :: framing.dropMalformed false rest

/-- The symbols between two end symbols are received as a payload that is sent as what is left of
them without malformed escapes. -/
theorem decoder_open (framing : Stuffing α) {symbols : List α} (inside : framing.fin ∉ symbols)
    (packet : List α) (escaped : Bool) :
    framing.decoder.output ⟨packet, escaped⟩ symbols = [] ∧
      ∃ payload, (framing.decoder.final ⟨packet, escaped⟩ symbols).packet = packet ++ payload ∧
        payload.flatMap framing.escape = framing.dropMalformed escaped symbols := by
  -- The induction is on the symbols, with what the decoder has remembered of them so far.
  induction symbols generalizing packet escaped with
  | nil => exact ⟨rfl, [], by simp, rfl⟩
  | cons symbol rest ih =>
    simp only [List.mem_cons, not_or] at inside
    obtain ⟨notFin, others⟩ := inside
    have ends : symbol ≠ framing.fin := Ne.symm notFin
    rw [Transducer.output_cons, Transducer.final_cons, dropMalformed]
    by_cases escapes : symbol = framing.esc
    · -- An escape is only remembered.
      simpa [decoder, escapes] using ih others packet true
    by_cases pending : escaped = true
    · obtain ⟨silent, payload, moved, sent⟩ := ih others (packet ++ framing.unescape symbol) false
      simp only [decoder, if_neg escapes, if_neg ends, if_pos pending, List.nil_append] at moved ⊢
      refine ⟨silent, framing.unescape symbol ++ payload, by rw [moved, List.append_assoc], ?_⟩
      -- What a symbol stands for is sent as an escape and that symbol.
      rw [List.flatMap_append, sent, unescape]
      by_cases standsFin : symbol = framing.escFin
      · simp [standsFin, escape]
      by_cases standsEsc : symbol = framing.escEsc
      · simp [standsEsc, escape, framing.esc_ne_fin, framing.escEsc_ne_escFin]
      · simp [standsFin, standsEsc]
    · obtain ⟨silent, payload, moved, sent⟩ := ih others (packet ++ [symbol]) false
      simp only [decoder, if_neg escapes, if_neg ends, if_neg pending, List.nil_append] at moved ⊢
      refine ⟨silent, symbol :: payload, by rw [moved, List.append_assoc]; rfl, ?_⟩
      rw [List.flatMap_cons, sent, escape, if_neg ends, if_neg escapes]
      rfl

/-- A stuffed payload has no malformed escapes. -/
theorem dropMalformed_stuffed (framing : Stuffing α) (payload : List α) :
    framing.dropMalformed false (payload.flatMap framing.escape) =
      payload.flatMap framing.escape := by
  induction payload with
  | nil => rfl
  | cons symbol rest ih =>
    rw [List.flatMap_cons]
    -- Each symbol is sent as itself or as one of the two pairs.
    by_cases ends : symbol = framing.fin
    · simp [escape, ends, dropMalformed, framing.escFin_ne_esc, ih]
    by_cases escapes : symbol = framing.esc
    · simp [escape, escapes, framing.esc_ne_fin, dropMalformed, framing.escEsc_ne_esc, ih]
    · simp [escape, ends, escapes, dropMalformed, ih]

/-- Nothing is malformed exactly in what some payload is sent as. -/
theorem dropMalformed_eq_iff (framing : Stuffing α) {symbols : List α}
    (inside : framing.fin ∉ symbols) :
    framing.dropMalformed false symbols = symbols ↔
      ∃ payload : List α, symbols = payload.flatMap framing.escape := by
  constructor
  · intro kept
    -- The payload is what a receiver would make of the symbols.
    obtain ⟨-, payload, -, sent⟩ := framing.decoder_open inside [] false
    exact ⟨payload, by rw [sent, kept]⟩
  · rintro ⟨payload, rfl⟩
    exact framing.dropMalformed_stuffed payload

/--
From an empty packet, what is received between two end symbols is handed on as one packet at most,
which is sent as the symbols without malformed escapes.
-/
theorem decoder_between (framing : Stuffing α) {symbols : List α}
    (inside : framing.fin ∉ symbols) {state : Decoder α} (empty : state.packet = []) :
    ∃ payload, framing.decoder.output state (framing.fin :: (symbols ++ [framing.fin])) =
        flush payload ∧
      payload.flatMap framing.escape = framing.dropMalformed false symbols := by
  obtain ⟨silent, payload, moved, sent⟩ := framing.decoder_open inside [] false
  refine ⟨payload, ?_, sent⟩
  rw [Transducer.output_cons, decoder_step_fin, empty, Transducer.output_append]
  simp only [Decoder.fresh, silent, Transducer.output_cons, decoder_step_fin, moved,
    Transducer.output_nil, flush_nil, List.nil_append, List.append_nil]

end Framing.Stuffing
