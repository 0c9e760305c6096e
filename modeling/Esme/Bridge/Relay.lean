import Esme.Bridge.Lines
import Esme.Json.Exchange

/-! What the two sides of the bridge read of what the other side wrote. -/

namespace Esme

open Framing Transducer

/-- `json.hpp` as it is embedded, beside `strtod` and the digits of floating-point numbers. -/
def JsonLibrary.embedded (containers : Containers) (strtod : List UInt8 → UInt64)
    (grisu2 : UInt64 → Decimal) : JsonLibrary where
  fromCbor data := (Esme.fromCbor containers data).mapError ReadError.toException
  parse text := (Esme.parse strtod text).mapError ReadError.toException
  toCbor := Esme.toCbor
  dumpFloat := Esme.dumpFloat grisu2
  dumpFloat_no_newline := newline_not_mem_dumpFloat grisu2

variable {containers : Containers} {strtod : List UInt8 → UInt64} {grisu2 : UInt64 → Decimal}
  {host : Host} {v : BridgeVars}

/-- The value of a package that was read, or null. -/
theorem processPackage_embedded (packet : List UInt8) :
    processPackage (.embedded containers strtod grisu2) packet = .null ∨
      fromCbor containers packet =
        .ok (processPackage (.embedded containers strtod grisu2) packet) := by
  rw [processPackage]
  split
  · cases read : fromCbor containers packet with
    | ok value =>
      refine .inr ?_
      simp only [JsonLibrary.embedded, read]
      rfl
    | error error =>
      refine .inl ?_
      simp only [JsonLibrary.embedded, read]
      rfl
  · exact .inl rfl

/-- The text of a package is parsed as the value of the package. -/
theorem parse_package {packet text : List UInt8}
    (done : dump (dumpFloat grisu2)
      (processPackage (.embedded containers strtod grisu2) packet) = .ok text)
    (floats : (processPackage (.embedded containers strtod grisu2) packet).all
      (Json.floatText grisu2 strtod) = true) {rest : List UInt8} (ending : Ending rest) :
    parse strtod (text ++ rest) =
      .ok (processPackage (.embedded containers strtod grisu2) packet).readText := by
  -- A packet that cannot be read becomes the value `null`.
  rcases @processPackage_embedded containers strtod grisu2 packet with null | read
  · rw [null] at done floats ⊢
    exact (written_dump done rfl floats).parse_eq ending
  · exact parse_dump_fromCbor containers grisu2 strtod read done floats ending

/-- What is parsed is not empty. -/
theorem ne_nil_of_parse {text : List UInt8} {value : Json}
    (parsed : parse strtod text = .ok value) : text ≠ [] := by
  rintro rfl
  have failed : parse strtod [] = .error (.parseError 101 1) := rfl
  rw [failed] at parsed
  cases parsed

/-- What is read from CBOR is not empty. -/
theorem ne_nil_of_fromCbor {data : List UInt8} {value : Json}
    (read : fromCbor containers data = .ok value) : data ≠ [] := by
  rintro rfl
  have failed : fromCbor containers [] = .error (.parseError 110 1) := rfl
  rw [failed] at read
  cases read

/-- The line of a package is read as the value of the package, if there is one. -/
theorem reads_misoLine (json : host.json = .embedded containers strtod grisu2)
    {packet : List UInt8} (floats : (processPackage host.json packet).all
      (Json.floatText grisu2 strtod) = true) :
    (lineReader newline).final [] (misoLine host packet).flatten = [] ∧
      ((lineReader newline).output [] (misoLine host packet).flatten).map (parse strtod) =
        if (processPackage host.json packet).textsValid then
          [.ok (processPackage host.json packet).readText] else [] := by
  -- The line is the text of the value with a newline behind it, or nothing at all.
  have dumps := dump_isOk host.json.dumpFloat (processPackage host.json packet)
  rw [misoLine]
  cases done : dump host.json.dumpFloat (processPackage host.json packet) with
  -- A value that cannot be dumped is not written.
  | error error =>
    rw [done] at dumps
    rw [← dumps]
    exact ⟨rfl, rfl⟩
  | ok text =>
    rw [done] at dumps
    -- No text holds a newline, so the line ends where it was ended.
    have free := dump_no_newline host.json.dumpFloat_no_newline _ _ done
    rw [json] at done floats ⊢
    rw [json] at dumps
    have read := parse_package done floats .nil
    rw [List.append_nil] at read
    obtain ⟨moved, written⟩ := LineReader.reads_line [] free
    rw [List.flatten_singleton, ← dumps, written, List.nil_append,
      flush_nonempty (ne_nil_of_parse read), List.map_singleton, read]
    exact ⟨moved, rfl⟩

/-- The frame of a line is read as the value of the line, if there is one. -/
theorem reads_clientFrame (json : host.json = .embedded containers strtod grisu2)
    {line : List UInt8} (fit : containers.Fit line.length) :
    slip.decoder.final .fresh (clientFrame host line).flatten = .fresh ∧
      (slip.decoder.output .fresh (clientFrame host line).flatten).map (fromCbor containers) =
        if (parse strtod line).isOk then [(parse strtod line).map Json.readText] else [] := by
  rw [clientFrame, json]
  simp only [JsonLibrary.embedded]
  cases parsed : parse strtod line with
  -- A line that is no text of a value is not sent on.
  | error error => exact ⟨rfl, rfl⟩
  | ok value =>
    -- The frame is decoded as the encoding of the value.
    have read := fromCbor_toCbor_parse containers strtod parsed fit
    obtain ⟨moved, written⟩ := Stuffing.decoder_encode slip .fresh (toCbor value)
    simp only [Except.mapError, List.flatten_singleton, slipEncoding_eq]
    rw [written, flush_nonempty (ne_nil_of_fromCbor read)]
    exact ⟨moved, congrArg (· :: []) read⟩

/-- The lines of packages are read as the values of those that can be dumped. -/
theorem reads_misoLines (json : host.json = .embedded containers strtod grisu2)
    {packets : List (List UInt8)} (floats : ∀ packet ∈ packets,
      (processPackage host.json packet).all (Json.floatText grisu2 strtod) = true) :
    ((lineReader newline).output [] (packets.flatMap (misoLine host)).flatten).map
        (parse strtod) =
      (packets.filter fun packet => (processPackage host.json packet).textsValid).map
        fun packet => .ok (processPackage host.json packet).readText := by
  -- The reader of lines is empty again behind the line of each package.
  induction packets with
  | nil => rfl
  | cons packet rest ih =>
    obtain ⟨first, others⟩ := List.forall_mem_cons.mp floats
    obtain ⟨moved, read⟩ := reads_misoLine json first
    rw [List.flatMap_cons, List.flatten_append, output_append, moved, List.map_append, read,
      ih others, List.filter_cons]
    split <;> rfl

/-- The frames of lines are read as the values of those that parse. -/
theorem reads_clientFrames (json : host.json = .embedded containers strtod grisu2)
    {lines : List (List UInt8)} (fit : ∀ line ∈ lines, containers.Fit line.length) :
    (slip.decoder.output .fresh (lines.flatMap (clientFrame host)).flatten).map
        (fromCbor containers) =
      (lines.filter fun line => (parse strtod line).isOk).map
        fun line => (parse strtod line).map Json.readText := by
  -- The decoder is fresh again behind the frame of each line.
  induction lines with
  | nil => rfl
  | cons line rest ih =>
    obtain ⟨first, others⟩ := List.forall_mem_cons.mp fit
    obtain ⟨moved, read⟩ := reads_clientFrame json first
    rw [List.flatMap_cons, List.flatten_append, output_append, moved, List.map_append, read,
      ih others, List.filter_cons]
    split <;> rfl

/-- The frames of values are decoded as their encodings. -/
theorem decodes_values {values : List Json} {value : Json → Json}
    (package : ∀ sent ∈ values, fromCbor containers (toCbor sent) = .ok (value sent)) :
    slip.decoder.output .fresh (values.flatMap fun sent => slipEncoding (toCbor sent)) =
      values.map toCbor := by
  -- The decoder is fresh again behind the frame of each value.
  induction values with
  | nil => rfl
  | cons sent rest ih =>
    obtain ⟨first, others⟩ := List.forall_mem_cons.mp package
    obtain ⟨moved, written⟩ := Stuffing.decoder_encode slip .fresh (toCbor sent)
    rw [List.flatMap_cons, output_append, slipEncoding_eq, moved, written, ih others,
      flush_nonempty (ne_nil_of_fromCbor first)]
    rfl

/-- A bridge beside the embedded library, where every float is written as 1.5. -/
def Host.embedded : Host :=
  { Host.small with
    json := .embedded .lp64 (fun _ => 0x3ff8000000000000) (fun _ => textDecimal) }

/-- A value with a number in each notation. -/
def relayedValue : Json :=
  .array [.numberInteger 7, .numberFloat 0x3ff8000000000000, .string [0x61]]

/-- A client that sends a value, which edgesoft sends back. -/
def relayedEvents : List EpollEvent :=
  [acceptEvent Host.embedded 8,
    dataEvent 8 {
      bytes := slipEncoding (toCbor relayedValue)
      nonempty := by decide +kernel
      fits := by decide +kernel },
    dataEvent 4 { bytes := ascii ['[', '7', ',', '1', '.', '5', ',', '"', 'a', '"', ']', '\n'] }]

/--
What edgesoft reads, when miso takes every write whole, are the values of the packages.

This holds of every run, also of one that ends with an exception: a package that cannot be dumped
leaves nothing behind.
-/
theorem edgesoft_reads (json : host.json = .embedded containers strtod grisu2)
    (boundary : v.AtBoundary) {events : List EpollEvent}
    (whole : ∀ action ∈ (eventLoop host).output (.ok v) events, action.Whole .miso)
    (floats : ∀ packet ∈ ((eventLoop host).output (.ok v) events).flatMap Action.packets,
      (processPackage host.json packet).all (Json.floatText grisu2 strtod) = true) :
    ((lineReader newline).output []
        (((eventLoop host).output (.ok v) events).flatMap (Action.taken .miso))).map
        (parse strtod) =
      ((((eventLoop host).output (.ok v) events).flatMap Action.packets).filter fun packet =>
        (processPackage host.json packet).textsValid).map fun packet =>
          .ok (processPackage host.json packet).readText := by
  -- What miso takes are the lines of the packages.
  rw [taken_whole whole, eventLoop_wrote_miso host boundary events]
  exact reads_misoLines json floats

/-- A client that sends one value, which edgesoft reads as one line. -/
theorem edgesoft_reads_one :
    ((lineReader newline).output []
        (((eventLoop Host.embedded).output (.ok .initial) relayedEvents).flatMap
          (Action.taken .miso))).map (parse fun _ => 0x3ff8000000000000) =
      ((((eventLoop Host.embedded).output (.ok .initial) relayedEvents).flatMap
        Action.packets).filter fun packet =>
          (processPackage Host.embedded.json packet).textsValid).map fun packet =>
            .ok (processPackage Host.embedded.json packet).readText :=
  edgesoft_reads rfl BridgeVars.initial_boundary (by decide +kernel) (by decide +kernel)

/--
What a client reads, when it takes every write whole, are the values of the lines that parse.

This holds of every run and of any lines that are no longer than what the containers hold.
-/
theorem client_reads (json : host.json = .embedded containers strtod grisu2)
    (boundary : v.AtBoundary) {events : List EpollEvent}
    (whole : ∀ action ∈ (eventLoop host).output (.ok v) events, action.Whole .client)
    (fit : ∀ line ∈ ((eventLoop host).output (.ok v) events).flatMap Action.lines,
      containers.Fit line.length) :
    (slip.decoder.output .fresh
        (((eventLoop host).output (.ok v) events).flatMap (Action.taken .client))).map
        (fromCbor containers) =
      ((((eventLoop host).output (.ok v) events).flatMap Action.lines).filter fun line =>
        (parse strtod line).isOk).map fun line => (parse strtod line).map Json.readText := by
  -- What the client takes are the frames of the lines.
  rw [taken_whole whole, eventLoop_wrote_client host boundary events]
  exact reads_clientFrames json fit

/-- One line of edgesoft, which the client reads as one value. -/
theorem client_reads_one :
    (slip.decoder.output .fresh
        (((eventLoop Host.embedded).output (.ok .initial) relayedEvents).flatMap
          (Action.taken .client))).map (fromCbor .lp64) =
      ((((eventLoop Host.embedded).output (.ok .initial) relayedEvents).flatMap
        Action.lines).filter fun line =>
          (parse (fun _ => 0x3ff8000000000000) line).isOk).map fun line =>
            (parse (fun _ => 0x3ff8000000000000) line).map Json.readText :=
  client_reads rfl BridgeVars.initial_boundary (by decide +kernel) (by decide +kernel)

/--
A client whose values edgesoft echoes reads them back, in the order it has sent them.

The client sends a frame for each value, and edgesoft writes to mosi the bytes that it reads from
miso. Each value comes back as what a text keeps of it, and the bridge goes on.
-/
theorem echo_reads (json : host.json = .embedded containers strtod grisu2)
    {events : List EpollEvent} {values : List Json}
    (sent : ((eventLoop host).output (.ok .initial) events).flatMap Action.clientBytes =
      values.flatMap fun value => slipEncoding (toCbor value))
    (echoed : ((eventLoop host).output (.ok .initial) events).flatMap Action.mosiKept =
      ((eventLoop host).output (.ok .initial) events).flatMap (Action.taken .miso))
    (whole : ∀ peer, ∀ action ∈ (eventLoop host).output (.ok .initial) events, action.Whole peer)
    (stored : ∀ value ∈ values, value.all (Json.stored containers) = true)
    (untagged : ∀ value ∈ values, value.all Json.untagged = true)
    (valid : ∀ value ∈ values, value.textsValid = true)
    (floats : ∀ value ∈ values, value.all (Json.floatText grisu2 strtod) = true)
    (fit : ∀ line ∈ ((eventLoop host).output (.ok .initial) events).flatMap Action.lines,
      containers.Fit line.length) :
    (∃ last, (eventLoop host).final (.ok .initial) events = .ok last) ∧
      (slip.decoder.output .fresh
        (((eventLoop host).output (.ok .initial) events).flatMap (Action.taken .client))).map
          (fromCbor containers) = values.map fun value => .ok value.readText := by
  have boundary := BridgeVars.initial_boundary
  -- The packets are the encodings of the values, and each is read as its value.
  have package : ∀ value ∈ values, fromCbor containers (toCbor value) = .ok value.readBack :=
    fun value inside => fromCbor_written (stored value inside) (untagged value inside)
  have processed : ∀ value ∈ values,
      processPackage host.json (toCbor value) = value.readBack := fun value inside => by
    have some_ := List.length_pos_of_ne_nil (ne_nil_of_fromCbor (package value inside))
    rw [processPackage, if_pos some_, json]
    simp only [JsonLibrary.embedded, package value inside]
    rfl
  have decoded : slip.decoder.output BridgeVars.initial.decoder
      (((eventLoop host).output (.ok .initial) events).flatMap Action.clientBytes) =
        values.map toCbor := by
    rw [sent]
    exact decodes_values package
  have packets := eventLoop_packets host boundary events
  -- Whatever has been handed on so far is the encoding of one of the values.
  have handed : ∀ packet ∈ ((eventLoop host).output (.ok .initial) events).flatMap Action.packets,
      ∃ value ∈ values, packet = toCbor value := fun packet member => by
    obtain ⟨value, inside, rfl⟩ := List.mem_map.mp (decoded ▸ packets.front.subset member)
    exact ⟨value, inside, rfl⟩
  -- What edgesoft reads of miso are the values of those packages.
  have read := @reads_misoLines _ _ _ _ json
    (((eventLoop host).output (.ok .initial) events).flatMap Action.packets)
    fun packet member => by
      obtain ⟨value, inside, rfl⟩ := handed packet member
      rw [processed value inside]
      exact floatText_readBack (floats value inside)
  rw [← eventLoop_wrote_miso host boundary events, ← taken_whole (whole .miso)] at read
  -- Neither a package nor a line ends the run.
  have going : ∃ last, (eventLoop host).final (.ok .initial) events = .ok last := by
    refine (eventLoop_going_iff host boundary events).mpr ⟨fun packet member => ?_,
      fun line member => ?_⟩
    · obtain ⟨value, inside, rfl⟩ := List.mem_map.mp (decoded ▸ member)
      rw [processed value inside]
      exact textsValid_readBack (valid value inside)
    · rw [echoed] at member
      have parsed := List.mem_map_of_mem (f := parse strtod) member
      rw [show BridgeVars.initial.txPacket = [] from rfl, read] at parsed
      obtain ⟨packet, -, same⟩ := List.mem_map.mp parsed
      rw [json]
      simp only [JsonLibrary.embedded, ← same]
      rfl
  refine ⟨going, ?_⟩
  -- In a run that goes on no package and no line is missing.
  obtain ⟨last, reached⟩ := going
  have fresh : BridgeVars.initial.txPacket = [] := rfl
  have lines := ((eventLoop_lines host boundary events).going last reached).2
  rw [echoed, fresh] at lines
  rw [(packets.going last reached).2, decoded, ← lines] at read
  -- What edgesoft reads is what the texts of the values keep of them.
  have parsed : (((eventLoop host).output (.ok .initial) events).flatMap Action.lines).map
      (parse strtod) = values.map fun value => .ok value.readText := by
    rw [read, List.filter_eq_self.mpr, List.map_map]
    · refine List.map_congr_left fun value inside => ?_
      show Except.ok (processPackage host.json (toCbor value)).readText = _
      rw [processed value inside, readText_readBack]
    · refine List.forall_mem_map.mpr fun value inside => ?_
      rw [processed value inside]
      exact textsValid_readBack (valid value inside)
  -- Lines that do not parse may be left out before or after the others are parsed.
  have through : ∀ texts : List (List UInt8),
      (texts.filter fun line => (parse strtod line).isOk).map
          (fun line => (parse strtod line).map Json.readText) =
        ((texts.map (parse strtod)).filter Except.isOk).map (Except.map Json.readText) :=
    fun texts => by rw [List.filter_map, List.map_map]; rfl
  rw [taken_whole (whole .client), eventLoop_wrote_client host boundary events,
    reads_clientFrames json fit, through, parsed, List.filter_eq_self.mpr, List.map_map]
  · exact List.map_congr_left fun value _ => congrArg Except.ok (readText_readText value)
  · exact List.forall_mem_map.mpr fun _ _ => rfl

/-- A value with a number in each notation comes back to its client. -/
theorem echo_reads_one :
    (∃ last, (eventLoop Host.embedded).final (.ok .initial) relayedEvents = .ok last) ∧
      (slip.decoder.output .fresh
        (((eventLoop Host.embedded).output (.ok .initial) relayedEvents).flatMap
          (Action.taken .client))).map (fromCbor .lp64) =
        [relayedValue].map fun value => .ok value.readText :=
  echo_reads rfl (by decide +kernel) (by decide +kernel)
    (by intro peer; cases peer <;> decide +kernel)
    (by decide +kernel) (by decide +kernel) (by decide +kernel) (by decide +kernel)
    (by decide +kernel)

end Esme
