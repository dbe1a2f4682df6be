import Doradus.Runtime.MonitorConsistency

/-!
# Requested closes

A relay looks for the request to close its flow only in the `select!` of a half that waits for
octets; the event of the request wakes it there and nowhere else. An observed connection looks when
it is read or polled again, which the request does not cause. A read that fails makes its caller
give the connection up, but the record stays until the last holder of the connection has gone, or
one of them has closed it.
-/

namespace Doradus

/-- A half of the relay in `copy_counted`. -/
inductive CopyPhase where
  /-- In the `select!`, where the subscription of `wait_for_close` may have heard of the flow. -/
  | reading (heard : Bool)
  | writing
  | shuttingDown
  | done

inductive CopyEvent where
  | received
  | ended
  | written (count : ℕ)
  | shutDown

namespace CopyPhase

/-- After a write the `select!` subscribes anew. -/
def next : CopyEvent → CopyPhase → CopyPhase
  | .received, .reading _ => .writing
  | .ended, .reading _ => .shuttingDown
  | .written _, .writing => .reading false
  | .shutDown, .shuttingDown => .done
  | _, phase => phase

def hear (told : Bool) : CopyPhase → CopyPhase
  | .reading heard => .reading (heard || told)
  | phase => phase

end CopyPhase

/-- The holder of an observed connection that reads from it. -/
inductive ReaderState where
  | idle
  | pending
  | failed
  | released

inductive FlowCarrier where
  /-- `relay_counted_with_prefix_and_buffer`, in the write of the prefix. -/
  | writingPrefix
  | copying (halves : FlowDirection → CopyPhase)
  /-- An `ObservedStream` or an `ObservedDatagram`, with its holders beside the reader. -/
  | observed (isStream : Bool) (reader : ReaderState) (others : ℕ)
  | gone

structure MonitoredFlow where
  monitor : Monitor
  flow : FlowKey
  carrier : FlowCarrier

inductive MonitoredFlowInput where
  | prefixWritten
  | copy (direction : FlowDirection) (event : CopyEvent)
  /-- The task of the relay runs. -/
  | poll
  | failed
  /-- The reader calls `poll_read` or `recv_from`. -/
  | read
  /-- The inner connection has something to read. -/
  | arrived
  /-- The reader drops the connection after a failed read. -/
  | release
  | otherDrops
  /-- A holder calls `close` on an observed datagram. -/
  | close
  | requestClose (ids : List Text)

namespace MonitoredFlow

variable (s : MonitoredFlow)

def requested : Bool := s.flow ∈ s.monitor.state.closeRequests

def drop : MonitoredFlow :=
  { s with monitor := s.monitor.step (.closed s.flow), carrier := .gone }

/-- `wait_for_close` is ready. -/
def waitForClose (heard : Bool) : Bool := s.requested || heard

/-- A half returns the error of its `select!`. -/
def aborts : CopyPhase → Bool
  | .reading heard => s.waitForClose heard
  | .writing | .shuttingDown | .done => false

/-- `try_join!` polls both halves, and returns with an error or when both are done. -/
def tryJoin (halves : FlowDirection → CopyPhase) : MonitoredFlow :=
  if s.aborts (halves .upload) || s.aborts (halves .download) then s.drop
  else match halves .upload, halves .download with
    | .done, .done => s.drop
    | _, _ => { s with carrier := .copying halves }

/-- `request_close` sends an event for a flow that was not in the list before. -/
def requestClose (ids : List Text) : MonitoredFlow :=
  let monitor := s.monitor.step (.requestClose ids)
  let told := !s.requested && decide (s.flow ∈ monitor.state.closeRequests)
  { s with
    monitor
    carrier := match s.carrier with
      | .copying halves => .copying fun direction => (halves direction).hear told
      | carrier => carrier }

def step : MonitoredFlowInput → MonitoredFlow
  | .prefixWritten =>
    match s.carrier with
    | .writingPrefix => s.tryJoin fun _ => .reading false
    | _ => s
  | .copy direction event =>
    match s.carrier with
    | .copying halves =>
      let halves' := Function.update halves direction ((halves direction).next event)
      match event, halves direction with
      | .written count, .writing =>
        { s with monitor := s.monitor.step (.bytes s.flow direction count) }.tryJoin halves'
      | _, _ => s.tryJoin halves'
    | _ => s
  | .poll =>
    match s.carrier with
    | .copying halves => s.tryJoin halves
    | _ => s
  | .failed => s.drop
  | .read =>
    match s.carrier with
    | .observed isStream .idle others =>
      { s with carrier := .observed isStream (if s.requested then .failed else .pending) others }
    | _ => s
  | .arrived =>
    match s.carrier with
    -- `poll_read` looks again, `recv_from` does not.
    | .observed true .pending others =>
      { s with carrier := .observed true (if s.requested then .failed else .idle) others }
    | .observed false .pending others => { s with carrier := .observed false .idle others }
    | _ => s
  | .release =>
    match s.carrier with
    | .observed _ .failed 0 => s.drop
    | .observed isStream .failed others => { s with carrier := .observed isStream .released others }
    | _ => s
  | .otherDrops =>
    match s.carrier with
    | .observed _ .released 1 => s.drop
    | .observed isStream reader others =>
      { s with carrier := .observed isStream reader (others - 1) }
    | _ => s
  | .close =>
    match s.carrier with
    | .observed false _ _ => { s with monitor := s.monitor.step (.closed s.flow) }
    | _ => s
  | .requestClose ids => s.requestClose ids

/-- What happens without the peers and without other holders: an event has woken the relay, the next
read is made, or the reader drops the connection after a failed one. -/
def Alone : MonitoredFlowInput → Prop
  | .poll => ∃ halves direction, s.carrier = .copying halves ∧ halves direction = .reading true
  | .read => ∃ isStream others, s.carrier = .observed isStream .idle others
  | .release => ∃ isStream others, s.carrier = .observed isStream .failed others
  | _ => False

variable {s}

end MonitoredFlow

end Doradus
