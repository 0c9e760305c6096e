import Esme.Bridge.Packets

/-! Which descriptors are open: the bridge closes each socket it accepts once, and nothing else. -/

namespace Esme

open Framing Transducer

namespace Action

/-- The descriptor a new client is accepted on. -/
def acceptedFd : Action → List Int
  | .accepted _ fd => [fd]
  | _ => []

/-- The descriptor added to those that epoll watches. -/
def registeredFd : Action → List Int
  | .registered fd _ => [fd]
  | _ => []

/-- The descriptor that is closed. -/
def closedFd : Action → List Int
  | .closed fd => [fd]
  | _ => []

/-- What is read from or written to a client goes over one descriptor, and none comes or goes. -/
def OnlyOn (fd : Int) : Action → Prop
  | .accepted _ _ => False
  | .closed _ => False
  | .registered _ _ => False
  | .received _ other _ => other = fd
  | .wrote _ .client _ other _ _ _ => other = fd
  | _ => True

end Action

/--
A table of descriptors, with those that some actions add at its end.

Closing a descriptor takes it out of every table; its number is free again then.
-/
def descriptorTable (added : Action → List Int) : Transducer (List Int) Action Unit where
  step
    | table, .closed fd => (table.erase fd, [])
    | table, action => (table ++ added action, [])

/-- The descriptors that are open. -/
def openTable : Transducer (List Int) Action Unit := descriptorTable Action.acceptedFd

/-- The descriptors that epoll watches. -/
def interestTable : Transducer (List Int) Action Unit := descriptorTable Action.registeredFd

/-- The descriptor that is held, if it is valid. -/
def FileDescriptor.held (descriptor : FileDescriptor) : List Int :=
  if descriptor.valid then [descriptor.fd] else []

/-- The descriptors of the process before the loop; `rest` are those of other files and `epfd`. -/
def Host.descriptors (host : Host) (rest : List Int) : List Int :=
  [host.serverFd, host.fifoMosi, host.fifoMiso, host.fifoPassive] ++ rest

/-- The descriptors that are registered before the loop. -/
def Host.registered (host : Host) : List Int := [host.serverFd, host.fifoMosi, host.fifoPassive]

/-- The descriptor that `accept` returns at an event, if it is called and succeeds. -/
def acceptResult (host : Host) (event : EpollEvent) : List Int :=
  if event.fd = host.serverFd ∧ 0 ≤ event.accept then [event.accept] else []

/-- `accept` returns a descriptor that is not open when it is called. -/
def AcceptsFresh (host : Host) (table : List Int) (v : BridgeVars) (events : List EpollEvent) :
    Prop :=
  ∀ before event after, events = before ++ event :: after → event.fd = host.serverFd →
    0 ≤ event.accept →
    event.accept ∉ openTable.final table ((eventLoop host).output (.ok v) before)

/-- Only an open client socket is closed, and clients are served on the one that is open. -/
def OwnedBy (others table : List Int) : Action → Prop
  | .closed fd => fd ∈ table ∧ fd ∉ others
  | .received _ fd _ => table = others ++ [fd]
  | .wrote _ .client _ fd _ _ _ => table = others ++ [fd]
  | _ => True

/-- What is done with the sockets on the way from one set of variables to the next. -/
structure Sockets (host : Host) (rest : List Int) (v : BridgeVars) (result : Outcome)
    (actions : List Action) : Prop where
  owned : openTable.Along (OwnedBy (host.descriptors rest))
    (host.descriptors rest ++ v.clientFd.held) actions
  opened : ∀ last, result = .ok last →
    openTable.final (host.descriptors rest ++ v.clientFd.held) actions =
      host.descriptors rest ++ last.clientFd.held
  watched : ∀ last, result = .ok last →
    interestTable.final (host.registered ++ v.clientFd.held) actions =
      host.registered ++ last.clientFd.held
  closes : ∀ last, result = .ok last →
    v.clientFd.held ++ actions.flatMap Action.acceptedFd =
      actions.flatMap Action.closedFd ++ last.clientFd.held
  foreign : ∀ last, result = .ok last → ∀ fd ∈ last.clientFd.held, fd ∉ host.descriptors rest

/-- A valid descriptor is held. -/
theorem FileDescriptor.held_valid {descriptor : FileDescriptor} (valid : descriptor.valid = true) :
    descriptor.held = [descriptor.fd] := if_pos valid

/-- What is held is what `reset` closes. -/
theorem FileDescriptor.close_eq (descriptor : FileDescriptor) :
    descriptor.close = descriptor.held.map Action.closed := by
  unfold close held
  split <;> rfl

/-- Serving a client changes no table. -/
theorem final_onlyOn {added : Action → List Int} {fd : Int}
    (silent : ∀ action, action.OnlyOn fd → added action = []) (table : List Int)
    {actions : List Action} (only : ∀ action ∈ actions, action.OnlyOn fd) :
    (descriptorTable added).final table actions = table := by
  -- Nothing is closed, and what is added for each action is nothing.
  induction actions with
  | nil => rfl
  | cons action rest ih =>
    obtain ⟨first, others⟩ := List.forall_mem_cons.mp only
    have none := silent action first
    have step : ((descriptorTable added).step table action).1 = table := by
      cases action with
      | closed other => cases first
      | _ => simp [descriptorTable, none]
    rw [final_cons, step]
    exact ih others

/-- Actions that only serve a client neither accept, register nor close a descriptor. -/
theorem Action.OnlyOn.silent {action : Action} {fd : Int} (only : action.OnlyOn fd) :
    action.acceptedFd = [] ∧ action.registeredFd = [] ∧ action.closedFd = [] := by
  cases action with
  | accepted _ _ | closed _ | registered _ _ => cases only
  | _ => exact ⟨rfl, rfl, rfl⟩

/-- Serving a client needs only the socket that is open. -/
theorem owned_onlyOn {others : List Int} {fd : Int} {actions : List Action}
    (only : ∀ action ∈ actions, action.OnlyOn fd) :
    openTable.Along (OwnedBy others) (others ++ [fd]) actions := by
  -- Such actions leave the table alone, so the socket is open at each of them.
  intro before action after split
  rw [split] at only
  -- The table is still the same where an action is done.
  have same := final_onlyOn (fun _ only => only.silent.1) (others ++ [fd])
    (fun action member => only action (List.mem_append_left _ member))
  have here := only action (by simp)
  rw [openTable, same]
  cases action with
  | accepted _ _ | closed _ | registered _ _ => cases here
  | received _ other _ =>
    cases here
    rfl
  | wrote _ peer _ other _ _ _ =>
    cases peer with
    | miso => trivial
    | client =>
      cases here
      rfl
  | _ => trivial

/-- Actions that only serve a client leave its socket open, and all others alone. -/
theorem sockets_kept {host : Host} {rest : List Int} {v : BridgeVars} {result : Outcome}
    {actions : List Action} {fd : Int}
    (owned : openTable.Along (OwnedBy (host.descriptors rest))
      (host.descriptors rest ++ v.clientFd.held) actions)
    (foreign : ∀ fd ∈ v.clientFd.held, fd ∉ host.descriptors rest)
    (only : ∀ action ∈ actions, action.OnlyOn fd)
    (kept : ∀ last, result = .ok last → last.clientFd = v.clientFd) :
    Sockets host rest v result actions := by
  have accepted : actions.flatMap Action.acceptedFd = [] :=
    flatMap_silent only fun _ only => only.silent.1
  have closed : actions.flatMap Action.closedFd = [] :=
    flatMap_silent only fun _ only => only.silent.2.2
  refine ⟨owned, ?_, ?_, ?_, ?_⟩ <;> (intro last going; rw [kept last going])
  · exact final_onlyOn (fun _ only => only.silent.1) _ only
  · exact final_onlyOn (fun _ only => only.silent.2.1) _ only
  · rw [accepted, closed, List.append_nil, List.nil_append]
  · exact foreign

/-- Serving the client that is held is done on its socket. -/
theorem sockets_served {host : Host} {rest : List Int} {v : BridgeVars} {result : Outcome}
    {actions : List Action} (valid : v.clientFd.valid = true)
    (foreign : ∀ fd ∈ v.clientFd.held, fd ∉ host.descriptors rest)
    (only : ∀ action ∈ actions, action.OnlyOn v.clientFd.fd)
    (kept : ∀ last, result = .ok last → last.clientFd = v.clientFd) :
    Sockets host rest v result actions := by
  refine sockets_kept ?_ foreign only kept
  rw [v.clientFd.held_valid valid]
  exact owned_onlyOn only

/-- Reading and throwing away is done without any socket. -/
theorem sockets_idle {host : Host} {rest : List Int} {v last : BridgeVars} {actions : List Action}
    (foreign : ∀ fd ∈ v.clientFd.held, fd ∉ host.descriptors rest)
    (idle : ∀ action ∈ actions, ∃ bytes,
      action = .readPassive bytes ∨ action = .readMosi false bytes)
    (kept : last.clientFd = v.clientFd) : Sockets host rest v (.ok last) actions := by
  have only : ∀ action ∈ actions, action.OnlyOn (-1) := by
    intro action member
    obtain ⟨bytes, rfl | rfl⟩ := idle action member <;> trivial
  refine sockets_kept ?_ foreign only fun next going => by cases going; exact kept
  intro before action after split
  obtain ⟨bytes, rfl | rfl⟩ := idle action (by rw [split]; simp) <;> trivial

/-- Closing what is held leaves the other descriptors in each table. -/
theorem final_close (added : Action → List Int) {others : List Int} {descriptor : FileDescriptor}
    (foreign : ∀ fd ∈ descriptor.held, fd ∉ others) (more : List Int) :
    (descriptorTable added).final (others ++ descriptor.held ++ more) descriptor.close =
      others ++ more := by
  rw [descriptor.close_eq]
  unfold FileDescriptor.held at foreign ⊢
  split
  · -- The descriptor is found behind the others.
    rename_i valid
    rw [if_pos valid] at foreign
    have other := foreign descriptor.fd (List.mem_singleton_self _)
    rw [List.append_assoc, List.map_singleton, final_cons, final_nil]
    simp [descriptorTable, List.erase_append_right _ other]
  · simp

/-- What is held may be closed. -/
theorem owned_close {others : List Int} {descriptor : FileDescriptor}
    (foreign : ∀ fd ∈ descriptor.held, fd ∉ others) (more : List Int) :
    openTable.Along (OwnedBy others) (others ++ descriptor.held ++ more) descriptor.close := by
  rw [descriptor.close_eq]
  unfold FileDescriptor.held at foreign ⊢
  split
  · rename_i valid
    rw [if_pos valid] at foreign
    exact along_cons.mpr ⟨⟨by simp, foreign _ (List.mem_singleton_self _)⟩, along_nil _ _ _⟩
  · exact along_nil _ _ _

/-- Closing accepts nothing and closes what is held. -/
theorem close_fds (descriptor : FileDescriptor) :
    descriptor.close.flatMap Action.acceptedFd = [] ∧
      descriptor.close.flatMap Action.closedFd = descriptor.held := by
  rw [descriptor.close_eq, List.flatMap_map, List.flatMap_map]
  exact ⟨by simp [Action.acceptedFd], by simp [Action.closedFd]⟩

/-- A descriptor that is none of the process's own is not watched as one of them. -/
theorem not_registered {host : Host} {rest : List Int} {fd : Int}
    (foreign : fd ∉ host.descriptors rest) : fd ∉ host.registered := by
  intro registered
  apply foreign
  simp only [Host.registered, Host.descriptors, List.mem_cons, List.mem_append] at registered ⊢
  tauto

/-- Dropping the client closes its socket, if there is one. -/
theorem sockets_dropped {host : Host} {rest : List Int} {v : BridgeVars}
    (foreign : ∀ fd ∈ v.clientFd.held, fd ∉ host.descriptors rest) :
    Sockets host rest v (dropClient v).1 (dropClient v).2 := by
  -- Of the tables only the place of the client changes.
  have watched : ∀ fd ∈ v.clientFd.held, fd ∉ host.registered :=
    fun fd held => not_registered (foreign fd held)
  obtain ⟨accepted, closed⟩ := close_fds v.clientFd
  have owned := owned_close foreign []
  have opened := final_close Action.acceptedFd foreign []
  have interest := final_close Action.registeredFd watched []
  simp only [List.append_nil] at owned opened interest
  -- The invalid descriptor that is stored instead is not held.
  refine ⟨owned, ?_, ?_, ?_, ?_⟩ <;> (intro last going; cases going)
  · exact opened.trans (List.append_nil _).symm
  · exact interest.trans (List.append_nil _).symm
  · rw [dropClient, accepted, closed]
    rfl
  · intro fd held
    cases held

/-- Accepting a client closes the socket of the one before, and registers the new one. -/
theorem sockets_accepted {host : Host} {rest : List Int} {v : BridgeVars} {newfd : Int}
    (foreign : ∀ fd ∈ v.clientFd.held, fd ∉ host.descriptors rest) (valid : 0 ≤ newfd)
    (fresh : newfd ∉ host.descriptors rest ++ v.clientFd.held) :
    Sockets host rest v (acceptClient v newfd).1 (acceptClient v newfd).2 := by
  -- The new socket is opened, the old one closed and the new one registered; the tables follow.
  have watched : ∀ fd ∈ v.clientFd.held, fd ∉ host.registered :=
    fun fd held => not_registered (foreign fd held)
  have held : (FileDescriptor.mk newfd).held = [newfd] :=
    FileDescriptor.held_valid (by simpa [FileDescriptor.valid] using valid)
  obtain ⟨accepted, closed⟩ := close_fds v.clientFd
  rw [acceptClient, if_pos valid]
  refine ⟨?_, ?_, ?_, ?_, ?_⟩
  · -- The new socket is open beside the old one until this is closed.
    rw [List.cons_append, along_cons, along_append]
    exact ⟨trivial, owned_close foreign [newfd],
      along_cons.mpr ⟨trivial, along_nil _ _ _⟩⟩
  all_goals (intro last going; cases going)
  · have opened := final_close Action.acceptedFd foreign [newfd]
    rw [held, List.cons_append, final_cons, final_append]
    simp only [openTable, descriptorTable, Action.acceptedFd] at opened ⊢
    rw [opened]
    simp
  · have interest := final_close Action.registeredFd watched []
    rw [List.append_nil, List.append_nil] at interest
    rw [held, List.cons_append, final_cons, final_append]
    simp only [interestTable, descriptorTable, Action.registeredFd, List.append_nil] at interest ⊢
    rw [interest]
    simp
  · simp [accepted, closed, held, Action.acceptedFd, Action.closedFd]
  · intro fd member
    rw [held, List.mem_singleton] at member
    rw [member]
    exact fun own => fresh (List.mem_append_left _ own)

/-- A line for the client is written to the descriptor that is held. -/
theorem mosiByte_onlyOn (host : Host) (v : BridgeVars) (byte : UInt8) :
    ∀ action ∈ (mosiByte host v byte).2, action.OnlyOn v.clientFd.fd := by
  rcases mosiByte_cases host v byte with
    ⟨line, step, -⟩ | ⟨-, ⟨error, -, step⟩ | ⟨j, -, step⟩⟩
  · simp [step]
  · simp [step, Action.OnlyOn]
  · simp [step, Action.OnlyOn, wroteClient, writeMessage]

/-- Everything that is done with bytes from mosi is done on the descriptor that is held. -/
theorem mosiLoop_onlyOn (host : Host) (v : BridgeVars) (bytes : List UInt8) :
    ∀ action ∈ (mosiLoop host).output (.ok v) bytes, action.OnlyOn v.clientFd.fd := by
  -- The descriptor is the same at every byte.
  refine @forall_mem_going _ _ _ _ (mosiByte host) (fun state => state.clientFd = v.clientFd) _
    (fun state byte next same going => ?_) (fun state byte same => ?_) v rfl bytes
  · exact ((mosiByte_consumes host state byte).frame next going).1.trans same
  · rw [← same]
    exact mosiByte_onlyOn host state byte

/-- A message to miso is not for the client. -/
theorem Action.FromClient.onlyOn {connection : Nat} {action : Action}
    (origin : action.FromClient connection) (fd : Int) : action.OnlyOn fd := by
  cases action with
  | processed _ _ => trivial
  | wrote _ peer _ _ _ _ _ =>
    obtain ⟨rfl, -⟩ := origin
    trivial
  | _ => cases origin

/-- A chunk from mosi is passed on over the descriptor that is held, if there is one. -/
theorem mosiChunk_onlyOn (host : Host) (v : BridgeVars) (chunk : Chunk) :
    ∀ action ∈ (mosiChunk host v chunk).2, action.OnlyOn v.clientFd.fd := by
  unfold mosiChunk
  split
  · rw [List.forall_mem_cons]
    exact ⟨trivial, mosiLoop_onlyOn host (readInto v chunk) _⟩
  · simp [Action.OnlyOn]

/-- What an event makes the bridge know of new clients is what `accept` returns at it. -/
theorem handleEvent_accepted {host : Host} {v : BridgeVars} (boundary : v.AtBoundary)
    (event : EpollEvent) :
    (handleEvent host v event).2.flatMap Action.acceptedFd = acceptResult host event := by
  -- Only the branch for the server socket calls `accept`, and the others know no new client.
  unfold acceptResult
  by_cases server : event.fd = host.serverFd
  · rw [handleEvent, if_pos server, acceptClient]
    by_cases valid : 0 ≤ event.accept
    · rw [if_pos valid, if_pos ⟨server, valid⟩]
      simp [(close_fds v.clientFd).1, Action.acceptedFd]
    · rw [if_neg valid, if_neg fun both => valid both.2]
      rfl
  rw [if_neg fun both => server both.1]
  -- No other branch has to do with new clients.
  rcases handleEvent_cases host v event with
    ⟨buffer, actions, step, rfl | ⟨bytes, rfl⟩⟩ | ⟨here, -, -⟩ | step | ⟨chunk, -, step⟩ |
      ⟨chunk, -, -, step⟩
  · rw [step]
    rfl
  · rw [step]
    rfl
  · exact absurd here server
  · rw [step]
    exact (close_fds v.clientFd).1
  · rw [step]
    exact flatMap_silent (mosiChunk_onlyOn host v chunk) fun _ only => only.silent.1
  · obtain ⟨result, actions, same, consumes, -⟩ := receiveChunk_consumes host boundary chunk
    rw [step, same]
    show actions.flatMap Action.acceptedFd = []
    exact flatMap_silent consumes.origin fun _ origin =>
      (Action.FromClient.onlyOn origin v.clientFd.fd).silent.1

/-- A run that goes on knows of exactly the clients that `accept` has returned. -/
theorem eventLoop_accepted {host : Host} {v last : BridgeVars} (boundary : v.AtBoundary)
    {events : List EpollEvent} (going : (eventLoop host).final (.ok v) events = .ok last) :
    ((eventLoop host).output (.ok v) events).flatMap Action.acceptedFd =
      events.flatMap (acceptResult host) := by
  -- No event of such a run ends the process, so each is handled.
  induction events generalizing v with
  | nil => rfl
  | cons event events ih =>
    have first := @handleEvent_accepted host v boundary event
    rw [eventLoop, final_cons, stopping_step_ok] at going
    rw [eventLoop, output_cons, stopping_step_ok, List.flatMap_append, first, List.flatMap_cons]
    cases result : (handleEvent host v event).1 with
    | error error =>
      rw [result, stopping_final_error] at going
      cases going
    | ok next =>
      rw [result] at going
      exact congrArg _ (ih (handleEvent_boundary host v event next boundary result) going)

/-- Every event keeps the sockets in order, as long as a new one is none of those that are open. -/
theorem handleEvent_sockets {host : Host} {rest : List Int} {v : BridgeVars} {event : EpollEvent}
    (boundary : v.AtBoundary) (foreign : ∀ fd ∈ v.clientFd.held, fd ∉ host.descriptors rest)
    (fresh : event.fd = host.serverFd → 0 ≤ event.accept →
      event.accept ∉ host.descriptors rest ++ v.clientFd.held) :
    Sockets host rest v (handleEvent host v event).1 (handleEvent host v event).2 := by
  -- One case for each thing that an event can do, each with a lemma about its actions.
  rcases handleEvent_cases host v event with
    ⟨buffer, actions, step, passive⟩ | ⟨server, newfd, step⟩ | step |
      ⟨chunk, -, step⟩ | ⟨chunk, -, valid, step⟩
  · rw [step]
    refine sockets_idle foreign ?_ rfl
    rcases passive with rfl | ⟨bytes, rfl⟩ <;> simp
  · rw [step]
    exact sockets_accepted foreign newfd (fresh server newfd)
  · rw [step]
    exact sockets_dropped foreign
  · rw [step]
    by_cases valid : v.clientFd.valid = true
    · obtain ⟨result, actions, same, consumes, -⟩ := mosiChunk_consumes host boundary valid chunk
      have only := mosiChunk_onlyOn host v chunk
      rw [same] at only ⊢
      exact sockets_served valid foreign only fun last going => (consumes.frame last going).1
    · -- Without a client the bytes are thrown away.
      rw [mosiChunk, if_neg valid]
      exact sockets_idle foreign (by simp) rfl
  · obtain ⟨result, actions, same, consumes, -⟩ := receiveChunk_consumes host boundary chunk
    rw [step, same]
    refine sockets_served valid foreign ?_ fun last going => (consumes.frame last going).1
    rw [List.forall_mem_cons]
    exact ⟨rfl, fun action member => (consumes.origin action member).onlyOn _⟩

/-- Every run keeps the sockets in order, as long as new ones are none of those that are open. -/
theorem eventLoop_sockets {host : Host} {rest : List Int} {v : BridgeVars}
    {events : List EpollEvent} (boundary : v.AtBoundary)
    (foreign : ∀ fd ∈ v.clientFd.held, fd ∉ host.descriptors rest)
    (fresh : AcceptsFresh host (host.descriptors rest ++ v.clientFd.held) v events) :
    Sockets host rest v ((eventLoop host).final (.ok v) events)
      ((eventLoop host).output (.ok v) events) := by
  -- The induction is on the events; what the first one leaves open is what the rest begin with.
  induction events generalizing v with
  | nil =>
    refine ⟨along_nil _ _ _, ?_, ?_, ?_, ?_⟩ <;> (intro last going; cases going)
    · rfl
    · rfl
    · simp
    · exact foreign
  | cons event events ih =>
    have first := handleEvent_sockets boundary foreign (fresh [] event events rfl)
    rw [eventLoop, final_cons, output_cons, stopping_step_ok]
    cases result : (handleEvent host v event).1 with
    | error error =>
      -- A run that has stopped has no last variables.
      rw [result] at first
      rw [stopping_final_error, stopping_output_error, List.append_nil]
      exact ⟨first.owned, by simp, by simp, by simp, by simp⟩
    | ok next =>
      have opened := first.opened next result
      have others := ih (handleEvent_boundary host v event next boundary result)
        (first.foreign next result) (by
          intro before later after split server valid
          have new := fresh (event :: before) later after (by rw [split]; rfl) server valid
          rw [eventLoop, output_cons, stopping_step_ok, result, final_append, opened] at new
          exact new)
      refine ⟨?_, fun last going => ?_, fun last going => ?_, fun last going => ?_,
        fun last going => others.foreign last going⟩
      · rw [along_append, opened]
        exact ⟨first.owned, others.owned⟩
      · rw [final_append, opened]
        exact others.opened last going
      · rw [final_append, first.watched next result]
        exact others.watched last going
      · rw [List.flatMap_append, List.flatMap_append, ← List.append_assoc,
          first.closes next result, List.append_assoc, List.append_assoc]
        exact congrArg _ (others.closes last going)

/--
The bridge owns its descriptors exactly, whatever events there are in whatever batches.

Behind every event the client socket that is open, and watched by epoll, is the one that is held;
all others that `accept` has returned have been closed, each once and in order. Only client
sockets are closed, and clients are served on the one that is open.
-/
theorem descriptors_owned (host : Host) (rest : List Int) (events : List EpollEvent)
    (fresh : AcceptsFresh host (host.descriptors rest) .initial events) :
    let actions := (eventLoop host).output (.ok .initial) events
    (∀ last, (eventLoop host).final (.ok .initial) events = .ok last →
      openTable.final (host.descriptors rest) actions =
          host.descriptors rest ++ last.clientFd.held ∧
        interestTable.final host.registered actions = host.registered ++ last.clientFd.held ∧
        actions.flatMap Action.acceptedFd = events.flatMap (acceptResult host) ∧
        events.flatMap (acceptResult host) =
          actions.flatMap Action.closedFd ++ last.clientFd.held) ∧
      openTable.Along (OwnedBy (host.descriptors rest)) (host.descriptors rest) actions := by
  intro actions
  -- There is no client at the start.
  have none : BridgeVars.initial.clientFd.held = [] := rfl
  have sockets : Sockets host rest .initial _ _ :=
    eventLoop_sockets BridgeVars.initial_boundary (by simp [none])
      (by rw [none, List.append_nil]; exact fresh)
  obtain ⟨owned, opened, watched, closes, -⟩ := sockets
  simp only [none, List.append_nil, List.nil_append] at owned opened watched closes
  refine ⟨fun last going => ?_, owned⟩
  have accepted := eventLoop_accepted BridgeVars.initial_boundary going
  exact ⟨opened last going, watched last going, accepted, accepted.symm.trans (closes last going)⟩

/-- A client comes, goes, and another one comes on the same descriptor. -/
theorem descriptors_owned_reused :
    let events := [acceptEvent Host.small 8, hangupEvent 8, acceptEvent Host.small 8]
    let actions := (eventLoop Host.small).output (.ok .initial) events
    (∀ last, (eventLoop Host.small).final (.ok .initial) events = .ok last →
      openTable.final (Host.small.descriptors [7]) actions =
          Host.small.descriptors [7] ++ last.clientFd.held ∧
        interestTable.final Host.small.registered actions =
          Host.small.registered ++ last.clientFd.held ∧
        actions.flatMap Action.acceptedFd = events.flatMap (acceptResult Host.small) ∧
        events.flatMap (acceptResult Host.small) =
          actions.flatMap Action.closedFd ++ last.clientFd.held) ∧
      openTable.Along (OwnedBy (Host.small.descriptors [7])) (Host.small.descriptors [7])
        actions := by
  refine descriptors_owned Host.small [7] _ fun before event after split server _ => ?_
  -- The second client is accepted behind the hang-up of the first one.
  match before with
  | [] =>
    cases split
    decide
  | [_] =>
    cases split
    cases server
  | [_, _] =>
    cases split
    decide +kernel
  | _ :: _ :: _ :: _ => simp at split

end Esme
