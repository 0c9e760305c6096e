import Esme.Bridge.Packets

/-! What becomes of the lines edgesoft writes: cutting them, parsing them, and going on. -/

namespace Esme

open Framing Transducer

variable (host : Host) {v : BridgeVars}

/--
The run goes on, and the client takes the frames of exactly the lines that parse.

The lines are those completed by the bytes read from mosi while a client is connected.
-/
def SurvivesLines (v : BridgeVars) (events : List EpollEvent) : Prop :=
  let trace := (eventLoop host).output (.ok v) events
  let frames := ((lineReader newline).output v.txPacket
    (trace.flatMap Action.mosiKept)).flatMap (clientFrame host)
  (∃ last, (eventLoop host).final (.ok v) events = .ok last) ∧
    trace.flatMap (Action.messages .client) = frames ∧
    trace.flatMap (Action.taken .client) = frames.flatten

/--
Lines are survived exactly when they parse.

The other way for a run to end is a packet of a client that does not dump.
-/
theorem survives_lines_iff (boundary : v.AtBoundary) {events : List EpollEvent}
    (whole : ∀ action ∈ (eventLoop host).output (.ok v) events, action.Whole .client) :
    SurvivesLines host v events ↔
      (∀ packet ∈ slip.decoder.output v.decoder
        (((eventLoop host).output (.ok v) events).flatMap Action.clientBytes),
        (processPackage host.json packet).textsValid = true) ∧
      ∀ line ∈ (lineReader newline).output v.txPacket
        (((eventLoop host).output (.ok v) events).flatMap Action.mosiKept),
        (host.json.parse line).isOk = true := by
  rw [← eventLoop_going_iff host boundary events]
  apply and_iff_left_of_imp
  intro running
  obtain ⟨last, reached⟩ := running
  -- A run that goes on has passed on every line, and each of them was sent.
  rw [taken_whole whole, eventLoop_wrote_client host boundary events,
    ((eventLoop_lines host boundary events).going last reached).2]
  exact ⟨rfl, rfl⟩

/-- Lines that are cut anywhere, the first of them begun before, beside a packet of the client. -/
theorem survives_lines_iff_several : SurvivesLines Host.small .busy
    [dataEvent 4 { bytes := ascii ['l', 'l', '\n', '\n', 't', 'r'] },
      dataEvent 8 { bytes := [0xc0, 0x62, 0x61, 0x62, 0xc0] },
      dataEvent 4 { bytes := ascii ['u', 'e', '\n', 'f', 'a', 'l', 's', 'e', '\n', 'n'] }] :=
  (survives_lines_iff Host.small BridgeVars.busy_boundary (by decide +kernel)).mpr
    (by decide +kernel)

/-- A line that does not parse ends the process, though the client takes every write. -/
theorem line_ends_process :
    let events := [acceptEvent Host.small 8,
      dataEvent 4 { bytes := [0x78, newline] }]
    (∀ action ∈ (eventLoop Host.small).output (.ok .initial) events, action.Whole .client) ∧
      ¬SurvivesLines Host.small .initial events := by
  -- No write takes place at all, since parsing comes first.
  refine ⟨by decide +kernel, ?_⟩
  intro survives
  obtain ⟨⟨last, reached⟩, -⟩ := survives
  have stopped : ((eventLoop Host.small).final (.ok .initial) [acceptEvent Host.small 8,
      dataEvent 4 { bytes := [0x78, newline] }]).isOk = false := by
    decide +kernel
  rw [reached] at stopped
  cases stopped

/-- Bytes read one after the other are both kept or both left out, unless a newline is between. -/
def KeptLineByLine (reads : List (UInt8 × Bool)) : Prop :=
  reads.IsChain fun read next => read.1 = newline ∨ read.2 = next.2

/-- While clients come and go only between lines, only whole lines are parsed, each at most once. -/
theorem whole_lines_parsed {lines : List (List UInt8)} (inside : ∀ line ∈ lines, newline ∉ line)
    {events : List EpollEvent}
    (written : (((eventLoop host).output (.ok .initial) events).flatMap Action.mosiBytes).map
      Prod.fst <+: lines.flatMap (· ++ [newline]))
    (aligned : KeptLineByLine
      (((eventLoop host).output (.ok .initial) events).flatMap Action.mosiBytes)) :
    (((eventLoop host).output (.ok .initial) events).flatMap Action.lines).Sublist lines := by
  -- The lines passed on are a front of those the kept bytes are cut into.
  have front := (eventLoop_lines host BridgeVars.initial_boundary events).front
  rw [mosiKept_eq] at front
  exact front.sublist.trans (LineReader.kept_lines inside written aligned)

/-- A client that leaves between two lines costs the line it does not see. -/
theorem whole_lines_parsed_twice :
    (((eventLoop Host.small).output (.ok .initial) [acceptEvent Host.small 8,
      dataEvent 4 { bytes := ascii ['n', 'u', 'l', 'l'] ++ [newline] },
      hangupEvent 8, dataEvent 4 { bytes := [0x78, newline] }]).flatMap
        Action.lines).Sublist [ascii ['n', 'u', 'l', 'l'], [0x78]] :=
  whole_lines_parsed Host.small (by decide) (by decide +kernel)
    (show List.IsChain _ _ by decide +kernel)

/-- A client that leaves inside one line and comes back inside another has two lines spliced. -/
theorem lines_spliced :
    let events := [acceptEvent Host.small 8,
      dataEvent 4 { bytes := ascii ['a', 'b'] },
      hangupEvent 8,
      dataEvent 4 { bytes := ascii ['c'] ++ newline :: ascii ['d', 'e'] },
      acceptEvent Host.small 8,
      dataEvent 4 { bytes := ascii ['f'] ++ [newline] }]
    let lines := [ascii ['a', 'b', 'c'], ascii ['d', 'e', 'f']]
    (((eventLoop Host.small).output (.ok .initial) events).flatMap Action.mosiBytes).map
        Prod.fst = lines.flatMap (· ++ [newline]) ∧
      ¬∀ text ∈ ((eventLoop Host.small).output (.ok .initial) events).flatMap Action.lines,
        text ∈ lines := by
  -- The text passed on is the front of the first line and the end of the second.
  decide +kernel

end Esme
