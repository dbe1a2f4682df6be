import Doradus.Lib.AssocMap
import Doradus.Lib.Run
import Doradus.Tun.Packet
import Doradus.Types.Flow

/-!
# The outputs of the TCP proxy tasks

All tasks send into one bounded channel. `process_proxy_outputs` flushes what is
pending, drains the channel up to the first output that is not accepted whole,
and reaps finished tasks. Tasks run beside it, so a call is cut into steps
between which they may send and terminate: one flow flushed, one output handled,
one task reaped. The outputs of UDP, ICMP and process lookups do not touch the
state of TCP flows. `log` records what happens at the borders of the runtime.

The state of the runtime as one flow sees it is a machine of its own: other
flows only decide when its turn comes.
-/

namespace Doradus

abbrev TunFlowKey := FlowKey

def loopbackFlow (port : UInt16) : TunFlowKey := ⟨.tcp, .v4 .localhost port, .v4 .localhost 80⟩

inductive ProxyOutput where
  | tcpData (flow : TunFlowKey) (payload : Octets)
  | tcpClosed (flow : TunFlowKey)
  | other
  deriving DecidableEq

/-- How far the task of a flow has come: it relays, it has sent `TcpClosed` and is
about to return, or it has returned. -/
inductive ProxyTask where
  | running
  | closed
  | finished
  deriving DecidableEq

structure TcpTaskManager where
  tasks : AssocMap TunFlowKey ProxyTask
  pendingToTun : AssocMap TunFlowKey (List Octets)
  pendingCloses : AssocMap TunFlowKey Unit

namespace TcpTaskManager

def removeTask (m : TcpTaskManager) (flow : TunFlowKey) : TcpTaskManager :=
  { m with tasks := m.tasks.erase flow }

def clearPendingOutput (m : TcpTaskManager) (flow : TunFlowKey) : TcpTaskManager :=
  { m with
    pendingToTun := m.pendingToTun.erase flow
    pendingCloses := m.pendingCloses.erase flow }

def abortFlow (m : TcpTaskManager) (flow : TunFlowKey) : TcpTaskManager :=
  (m.removeTask flow).clearPendingOutput flow

def spawn (m : TcpTaskManager) (flow : TunFlowKey) : TcpTaskManager :=
  { m.abortFlow flow with tasks := (m.abortFlow flow).tasks.insert flow .running }

def finishedFlows (ord : AssocMap.IterOrder) (m : TcpTaskManager) : List TunFlowKey :=
  (ord (m.tasks.retain fun _ task => task = .finished).entries).map Prod.fst

def takeFinished (m : TcpTaskManager) (flow : TunFlowKey) : Option TcpTaskManager :=
  if m.tasks.get? flow = some .finished then some (m.removeTask flow) else none

def pendingFlows (ord : AssocMap.IterOrder) (m : TcpTaskManager) : List TunFlowKey :=
  (ord m.pendingToTun.entries).map Prod.fst

def popPendingOutput (m : TcpTaskManager) (flow : TunFlowKey) : Option (Octets × TcpTaskManager) :=
  match m.pendingToTun.get? flow with
  | some (payload :: pending) =>
    some (payload, { m with pendingToTun := m.pendingToTun.insert flow pending })
  | _ => none

def pending (m : TcpTaskManager) (flow : TunFlowKey) : List Octets :=
  (m.pendingToTun.get? flow).getD []

def queuePendingOutput (m : TcpTaskManager) (flow : TunFlowKey) (payload : Octets) :
    TcpTaskManager :=
  { m with pendingToTun := m.pendingToTun.insert flow (m.pending flow ++ [payload]) }

def requeuePendingOutput (m : TcpTaskManager) (flow : TunFlowKey) (payload : Octets) :
    TcpTaskManager :=
  { m with pendingToTun := m.pendingToTun.insert flow (payload :: m.pending flow) }

def hasPendingOutput (m : TcpTaskManager) (flow : TunFlowKey) : Bool :=
  match m.pendingToTun.get? flow with
  | some pending => !pending.isEmpty
  | none => false

def pendingCloseRequested (m : TcpTaskManager) (flow : TunFlowKey) : Bool :=
  m.pendingCloses.contains flow

def requestPendingClose (m : TcpTaskManager) (flow : TunFlowKey) : TcpTaskManager :=
  { m with pendingCloses := m.pendingCloses.insert flow () }

end TcpTaskManager

/-- The flows whose socket is open, with the room in its send buffer. -/
structure TunDispatcher where
  sockets : AssocMap TunFlowKey ℕ

namespace TunDispatcher

/-- The number of octets that the socket takes; `none` is an error. -/
def writeTcp (d : TunDispatcher) (flow : TunFlowKey) (payload : Octets) :
    Option ℕ × TunDispatcher :=
  match d.sockets.get? flow with
  | none => (none, d)
  | some room => (some (min room payload.length), ⟨d.sockets.insert flow (room - payload.length)⟩)

def closeTcp (d : TunDispatcher) (flow : TunFlowKey) : TunDispatcher := ⟨d.sockets.erase flow⟩

end TunDispatcher

inductive OutputPhase where
  | idle
  | flush (flows : List TunFlowKey)
  | drain
  | drained
  | reap (flows : List TunFlowKey)
  deriving DecidableEq

/-- Flows are opened and removed between two calls, and by the outputs of process
lookups. -/
def OutputPhase.changesFlows : OutputPhase → Bool
  | .idle => true
  | .drain => true
  | _ => false

inductive TunEvent where
  | opened (flow : TunFlowKey)
  | removed (flow : TunFlowKey)
  | sent (flow : TunFlowKey) (payload : Octets)
  | handled (flow : TunFlowKey) (payload : Octets)
  | accepted (flow : TunFlowKey) (octets : Octets)
  | closed (flow : TunFlowKey)
  deriving DecidableEq

structure TunProxyRuntime where
  tasks : TcpTaskManager
  pendingProxyOutput : Option ProxyOutput
  proxyOutputRx : List ProxyOutput
  channelCapacity : ℕ
  dispatcher : TunDispatcher
  phase : OutputPhase
  log : List TunEvent

namespace TunProxyRuntime

def new (channelCapacity : ℕ) : TunProxyRuntime :=
  ⟨⟨∅, ∅, ∅⟩, none, [], channelCapacity, ⟨∅⟩, .idle, []⟩

def finishTcpClose (s : TunProxyRuntime) (flow : TunFlowKey) : TunProxyRuntime :=
  { s with
    dispatcher := s.dispatcher.closeTcp flow
    tasks := (s.tasks.removeTask flow).clearPendingOutput flow
    log := s.log ++ [.closed flow] }

structure FlushResult where
  drained : Bool
  failed : Bool
  state : TunProxyRuntime

/-- The inner loop; every round takes one payload out of the queue. -/
def flushPending (flow : TunFlowKey) : ℕ → Bool → TunProxyRuntime → FlushResult
  | 0, drained, s => ⟨drained, false, s⟩
  | rounds + 1, drained, s =>
    match s.tasks.popPendingOutput flow with
    | none => ⟨drained, false, s⟩
    | some (payload, tasks) =>
      match s.dispatcher.writeTcp flow payload with
      | (some written, dispatcher) =>
        let s := { s with
          tasks := tasks
          dispatcher := dispatcher
          log := s.log ++ [TunEvent.accepted flow (payload.take written)] }
        if written = payload.length then flushPending flow rounds true s
        else
          ⟨drained, false,
            { s with tasks := s.tasks.requeuePendingOutput flow (payload.drop written) }⟩
      | (none, dispatcher) =>
        let s := { s with tasks := tasks, dispatcher := dispatcher }
        if s.tasks.pendingCloseRequested flow then ⟨drained, true, s⟩
        else ⟨drained, false, { s with tasks := s.tasks.requeuePendingOutput flow payload }⟩

def flushFlow (s : TunProxyRuntime) (flow : TunFlowKey) : TunProxyRuntime :=
  let result := flushPending flow (s.tasks.pending flow).length false s
  let s := result.state
  if result.failed then s.finishTcpClose flow
  else if result.drained = true ∧ s.tasks.hasPendingOutput flow = false then
    let closeRequested := s.tasks.pendingCloseRequested flow
    let s := { s with tasks := s.tasks.clearPendingOutput flow }
    if closeRequested then s.finishTcpClose flow else s
  else s

/-- Handle one output; `false` leaves the queue blocked. -/
def handleProxyOutput (s : TunProxyRuntime) : ProxyOutput → Bool × TunProxyRuntime
  | .tcpData flow payload =>
    let s := { s with log := s.log ++ [TunEvent.handled flow payload] }
    match s.dispatcher.writeTcp flow payload with
    | (some written, dispatcher) =>
      let s := { s with
        dispatcher := dispatcher
        log := s.log ++ [TunEvent.accepted flow (payload.take written)] }
      if written = payload.length then (true, s)
      else
        (false, { s with tasks := s.tasks.queuePendingOutput flow (payload.drop written) })
    | (none, dispatcher) =>
      (false, { s with
        dispatcher := dispatcher
        tasks := s.tasks.queuePendingOutput flow payload })
  | .tcpClosed flow =>
    if s.tasks.hasPendingOutput flow then
      (true, { s with tasks := s.tasks.requestPendingClose flow })
    else (true, s.finishTcpClose flow)
  | .other => (true, s)

/-- `pending_proxy_output.take().or_else(|| proxy_output_rx.try_recv().ok())`. -/
def takeOutput (s : TunProxyRuntime) : Option (ProxyOutput × TunProxyRuntime) :=
  match s.pendingProxyOutput with
  | some output => some (output, { s with pendingProxyOutput := none })
  | none =>
    match s.proxyOutputRx with
    | [] => none
    | output :: rest => some (output, { s with proxyOutputRx := rest })

def reapFlow (s : TunProxyRuntime) (flow : TunFlowKey) : TunProxyRuntime :=
  if s.tasks.hasPendingOutput flow then { s with tasks := s.tasks.requestPendingClose flow }
  else
    match s.tasks.takeFinished flow with
    | none => s
    | some tasks => { s with tasks := tasks }.finishTcpClose flow

def work (ord : AssocMap.IterOrder) (s : TunProxyRuntime) : TunProxyRuntime :=
  match s.phase with
  | .idle => { s with phase := .flush (s.tasks.pendingFlows ord) }
  | .flush [] => { s with phase := .drain }
  | .flush (flow :: flows) => { s.flushFlow flow with phase := .flush flows }
  | .drain =>
    match s.takeOutput with
    | none => { s with phase := .drained }
    | some (output, s) =>
      match s.handleProxyOutput output with
      | (true, s) => s
      | (false, s) => { s with phase := .drained }
  | .drained => { s with phase := .reap (s.tasks.finishedFlows ord) }
  | .reap [] => { s with phase := .idle }
  | .reap (flow :: flows) => { s.reapFlow flow with phase := .reap flows }

/-- A task puts an output into the channel, unless it is full. -/
def send (s : TunProxyRuntime) (flow : TunFlowKey) (output : ProxyOutput) (task : ProxyTask)
    (payload : Octets) : TunProxyRuntime :=
  if s.tasks.tasks.get? flow = some .running ∧ s.proxyOutputRx.length < s.channelCapacity then
    { s with
      tasks := { s.tasks with tasks := s.tasks.tasks.insert flow task }
      proxyOutputRx := s.proxyOutputRx ++ [output]
      log := s.log ++ [.sent flow payload] }
  else s

end TunProxyRuntime

/-- What can happen next: a flow is opened with a fresh socket or removed by the TUN
side, its task sends or returns, the loop of the runtime waits for an output, the
send buffer of a socket changes, or the call goes on. -/
inductive TunAction where
  | opened (flow : TunFlowKey) (room : ℕ)
  | removed (flow : TunFlowKey)
  | sendData (flow : TunFlowKey) (payload : Octets)
  | sendClosed (flow : TunFlowKey)
  | terminate (flow : TunFlowKey)
  | waitForOutput
  | room (flow : TunFlowKey) (room : ℕ)
  | work (ord : AssocMap.IterOrder)

def TunProxyRuntime.step (s : TunProxyRuntime) : TunAction → TunProxyRuntime
  | .opened flow room =>
    if s.phase.changesFlows then
      { s with
        tasks := s.tasks.spawn flow
        dispatcher := ⟨s.dispatcher.sockets.insert flow room⟩
        log := s.log ++ [.opened flow] }
    else s
  | .removed flow =>
    if s.phase.changesFlows then
      { s with
        tasks := s.tasks.abortFlow flow
        dispatcher := s.dispatcher.closeTcp flow
        log := s.log ++ [.removed flow] }
    else s
  | .sendData flow payload => s.send flow (.tcpData flow payload) .running payload
  | .sendClosed flow => s.send flow (.tcpClosed flow) .closed []
  | .terminate flow =>
    { s with tasks := { s.tasks with tasks := s.tasks.tasks.modify flow fun _ => .finished } }
  | .waitForOutput =>
    match s.phase, s.pendingProxyOutput, s.proxyOutputRx with
    | .idle, none, output :: rest =>
      { s with pendingProxyOutput := some output, proxyOutputRx := rest }
    | _, _, _ => s
  | .room flow room => { s with dispatcher := ⟨s.dispatcher.sockets.modify flow fun _ => room⟩ }
  | .work ord => s.work ord

open List AssocMap

inductive FlowOutput where
  | data (payload : Octets)
  | closed
  deriving DecidableEq

inductive FlowEvent where
  | opened
  | removed
  | sent (payload : Octets)
  | handled (payload : Octets)
  | accepted (octets : Octets)
  | closed
  deriving DecidableEq

/-- What has passed since the flow was opened or removed, and whether its output has
been cleared. -/
structure Ledger where
  sent : Octets
  handled : Octets
  accepted : Octets
  cleared : Bool

def Ledger.record (ledger : Ledger) : FlowEvent → Ledger
  | .opened => ⟨[], [], [], false⟩
  | .removed => ⟨[], [], [], true⟩
  | .sent payload => { ledger with sent := ledger.sent ++ payload }
  | .handled payload => { ledger with handled := ledger.handled ++ payload }
  | .accepted octets => { ledger with accepted := ledger.accepted ++ octets }
  | .closed => { ledger with cleared := true }

def Ledger.ofLog (log : List FlowEvent) : Ledger := log.foldl record ⟨[], [], [], true⟩

@[simp] theorem Ledger.ofLog_concat (log : List FlowEvent) (event : FlowEvent) :
    ofLog (log ++ [event]) = (ofLog log).record event :=
  foldl_concat ..

@[ext] structure FlowState where
  task : Option ProxyTask
  pending : List Octets
  closing : Bool
  socket : Option ℕ
  queue : List FlowOutput
  log : List FlowEvent
  /-- The call has passed the flush of the flow and has not ended its drain. -/
  turn : Bool

namespace FlowState

def finish (v : FlowState) : FlowState :=
  { v with
    task := none
    pending := []
    closing := false
    socket := none
    log := v.log ++ [.closed] }

structure Flushed where
  drained : Bool
  failed : Bool
  state : FlowState

/-- The inner loop of the flush over the pending payloads. -/
def flushLoop : List Octets → Bool → FlowState → Flushed
  | [], drained, v => ⟨drained, false, v⟩
  | payload :: rest, drained, v =>
    match v.socket with
    | some room =>
      let v := { v with
        pending := rest
        socket := some (room - payload.length)
        log := v.log ++ [FlowEvent.accepted (payload.take (min room payload.length))] }
      if min room payload.length = payload.length then flushLoop rest true v
      else
        ⟨drained, false, { v with pending := payload.drop (min room payload.length) :: rest }⟩
    | none =>
      if v.closing then ⟨drained, true, { v with pending := rest }⟩
      else ⟨drained, false, { v with pending := payload :: rest }⟩

def flush (v : FlowState) : FlowState :=
  let result := flushLoop v.pending false v
  let v := result.state
  if result.failed then v.finish
  else if result.drained = true ∧ v.pending = [] then
    if v.closing then v.finish else { v with pending := [], closing := false }
  else v

def handleData (v : FlowState) (payload : Octets) : Bool × FlowState :=
  let v := { v with log := v.log ++ [FlowEvent.handled payload] }
  match v.socket with
  | some room =>
    let v := { v with
      socket := some (room - payload.length)
      log := v.log ++ [FlowEvent.accepted (payload.take (min room payload.length))] }
    if min room payload.length = payload.length then (true, v)
    else
      (false, { v with pending := v.pending ++ [payload.drop (min room payload.length)] })
  | none => (false, { v with pending := v.pending ++ [payload] })

def handleClosed (v : FlowState) : FlowState :=
  if v.pending ≠ [] then { v with closing := true } else v.finish

def handle (v : FlowState) : FlowState :=
  match v.queue with
  | [] => v
  | .data payload :: rest => ({ v with queue := rest }.handleData payload).2
  | .closed :: rest => { v with queue := rest }.handleClosed

def reap (v : FlowState) : FlowState :=
  if v.pending ≠ [] then { v with closing := true }
  else if v.task = some .finished then v.finish
  else v

end FlowState

inductive FlowAction where
  | opened (room : ℕ)
  | removed
  | sendData (payload : Octets)
  | sendClosed
  | terminate
  | room (room : ℕ)
  | enter
  | flush
  | handle
  | leave
  | reap

namespace FlowState

def act (v : FlowState) : FlowAction → FlowState
  | .opened room =>
    { v with
      task := some .running
      pending := []
      closing := false
      socket := some room
      log := v.log ++ [.opened] }
  | .removed =>
    { v with
      task := none
      pending := []
      closing := false
      socket := none
      log := v.log ++ [.removed] }
  | .sendData payload =>
    { v with
      task := some .running
      queue := v.queue ++ [.data payload]
      log := v.log ++ [.sent payload] }
  | .sendClosed =>
    { v with
      task := some .closed
      queue := v.queue ++ [.closed]
      log := v.log ++ [.sent []] }
  | .terminate => { v with task := v.task.map fun _ => .finished }
  | .room room => { v with socket := v.socket.map fun _ => room }
  | .enter => { v with turn := true }
  | .flush => { v.flush with turn := true }
  | .handle => v.handle
  | .leave => { v with turn := false }
  | .reap => v.reap

theorem task_flushLoop (p : List Octets) (d : Bool) (v : FlowState) :
    (flushLoop p d v).state.task = v.task := by
  induction p generalizing d v with
  | nil => rfl
  | cons _ _ ih =>
    unfold flushLoop
    split
    · split_ifs
      · exact ih _ _
      · rfl
    · split_ifs
      · rfl
      · rfl

theorem task_act {v : FlowState} {a : FlowAction} (ho : ∀ room, a ≠ .opened room)
    (hs : ∀ payload, a ≠ .sendData payload) (h : v.task ≠ some .running) :
    (v.act a).task ≠ some .running := by
  cases a with
  | opened room => exact absurd rfl (ho room)
  | removed | sendClosed => exact nofun
  | sendData payload => exact absurd rfl (hs payload)
  | terminate =>
    rw [act]
    cases v.task with
    | none | some => exact nofun
  | room | enter | leave => exact h
  | flush =>
    have ht := task_flushLoop v.pending false v
    rw [act, flush]
    split_ifs
    · exact nofun
    · exact nofun
    · rwa [ht]
    · rwa [ht]
  | handle =>
    rw [act, handle]
    split
    · exact h
    · unfold handleData
      dsimp only
      split
      · split_ifs
        · exact h
        · exact h
      · exact h
    · unfold handleClosed
      split_ifs
      · exact h
      · exact nofun
  | reap =>
    rw [act, reap]
    split_ifs
    · exact h
    · exact nofun
    · exact h

theorem turn_reap (v : FlowState) : v.reap.turn = v.turn := by
  unfold reap
  split_ifs
  · rfl
  · rfl
  · rfl

end FlowState

variable (flow : TunFlowKey)

/-- The output as the flow sees it, if it is one of the flow. -/
def ProxyOutput.ofFlow : ProxyOutput → Option FlowOutput
  | .tcpData g payload => if g = flow then some (.data payload) else none
  | .tcpClosed g => if g = flow then some .closed else none
  | .other => none

def TunEvent.ofFlow : TunEvent → Option FlowEvent
  | .opened g => if g = flow then some .opened else none
  | .removed g => if g = flow then some .removed else none
  | .sent g payload => if g = flow then some (.sent payload) else none
  | .handled g payload => if g = flow then some (.handled payload) else none
  | .accepted g octets => if g = flow then some (.accepted octets) else none
  | .closed g => if g = flow then some .closed else none

def OutputPhase.isTurn : OutputPhase → Bool
  | .flush flows => flow ∉ flows
  | .drain => true
  | _ => false

namespace TunProxyRuntime

def queue (s : TunProxyRuntime) : List ProxyOutput := s.pendingProxyOutput.toList ++ s.proxyOutputRx

def ofFlow (s : TunProxyRuntime) : FlowState where
  task := s.tasks.tasks.get? flow
  pending := s.tasks.pending flow
  closing := s.tasks.pendingCloseRequested flow
  socket := s.dispatcher.sockets.get? flow
  queue := s.queue.filterMap (ProxyOutput.ofFlow flow)
  log := s.log.filterMap (TunEvent.ofFlow flow)
  turn := s.phase.isTurn flow

def ledger (log : List TunEvent) : Ledger := Ledger.ofLog (log.filterMap (TunEvent.ofFlow flow))

def actionsOf (s : TunProxyRuntime) : TunAction → List FlowAction
  | .opened g room => if g = flow ∧ s.phase.changesFlows then [.opened room] else []
  | .removed g => if g = flow ∧ s.phase.changesFlows then [.removed] else []
  | .sendData g payload =>
    if g = flow ∧ s.tasks.tasks.get? g = some .running ∧
      s.proxyOutputRx.length < s.channelCapacity then [.sendData payload] else []
  | .sendClosed g =>
    if g = flow ∧ s.tasks.tasks.get? g = some .running ∧
      s.proxyOutputRx.length < s.channelCapacity then [.sendClosed] else []
  | .terminate g => if g = flow then [.terminate] else []
  | .waitForOutput => []
  | .room g room => if g = flow then [.room room] else []
  | .work ord =>
    match s.phase with
    | .idle => if flow ∈ s.tasks.pendingFlows ord then [] else [.enter]
    | .flush [] => []
    | .flush (g :: flows) =>
      if g = flow then if flow ∈ flows then [.flush, .leave] else [.flush] else []
    | .drain =>
      match s.takeOutput with
      | none => [.leave]
      | some (output, s') =>
        (if (output.ofFlow flow).isSome then [FlowAction.handle] else []) ++
          if (s'.handleProxyOutput output).1 then [] else [.leave]
    | .drained => []
    | .reap [] => []
    | .reap (g :: _) => if g = flow then [.reap] else []

/-- What is known when a step of the runtime is this action for the flow. -/
def Cause (s : TunProxyRuntime) (a : TunAction) : FlowAction → Prop
  | .opened room => a = .opened flow room ∧ s.phase.changesFlows = true
  | .sendData _ => s.tasks.tasks.get? flow = some .running
  | .sendClosed => s.tasks.tasks.get? flow = some .running
  | .room room => a = .room flow room
  | .enter => s.tasks.pending flow = []
  | .handle => s.phase = .drain
  | .reap => ∃ flows ord, s.phase = .reap (flow :: flows) ∧ a = .work ord
  | _ => True

end TunProxyRuntime

namespace TcpTaskManager

variable (m : TcpTaskManager) (f g : TunFlowKey) (payload : Octets) {ord : IterOrder}

@[simp] theorem pending_of_insert (p : List Octets) :
    ({ m with pendingToTun := m.pendingToTun.insert f p } : TcpTaskManager).pending g =
      if g = f then p else m.pending g := by
  unfold TcpTaskManager.pending
  rw [get?_insert]
  split_ifs with h
  · rfl
  · rfl

@[simp] theorem pending_clearPendingOutput :
    (m.clearPendingOutput f).pending g = if g = f then [] else m.pending g := by
  unfold TcpTaskManager.pending clearPendingOutput
  rw [get?_erase]
  split_ifs with h
  · rfl
  · rfl

@[simp] theorem tasks_clearPendingOutput : (m.clearPendingOutput f).tasks = m.tasks := rfl

@[simp] theorem pending_removeTask : (m.removeTask f).pending g = m.pending g := rfl

@[simp] theorem pending_requestPendingClose :
    (m.requestPendingClose f).pending g = m.pending g := rfl

@[simp] theorem tasks_requestPendingClose : (m.requestPendingClose f).tasks = m.tasks := rfl

@[simp] theorem pendingCloseRequested_removeTask :
    (m.removeTask f).pendingCloseRequested g = m.pendingCloseRequested g := rfl

@[simp] theorem pending_of_tasks (tasks : AssocMap TunFlowKey ProxyTask) :
    ({ m with tasks := tasks } : TcpTaskManager).pending g = m.pending g := rfl

@[simp] theorem pendingCloseRequested_of_tasks (tasks : AssocMap TunFlowKey ProxyTask) :
    ({ m with tasks := tasks } : TcpTaskManager).pendingCloseRequested g =
      m.pendingCloseRequested g := rfl

@[simp] theorem pendingCloseRequested_of_insert (p : List Octets) :
    ({ m with pendingToTun := m.pendingToTun.insert f p } : TcpTaskManager).pendingCloseRequested
      g = m.pendingCloseRequested g := rfl

@[simp] theorem pendingCloseRequested_clearPendingOutput :
    (m.clearPendingOutput f).pendingCloseRequested g =
      if g = f then false else m.pendingCloseRequested g := by
  unfold pendingCloseRequested clearPendingOutput AssocMap.contains
  rw [get?_erase]
  split_ifs with h
  · rfl
  · rfl

@[simp] theorem pendingCloseRequested_requestPendingClose :
    (m.requestPendingClose f).pendingCloseRequested g =
      if g = f then true else m.pendingCloseRequested g := by
  unfold pendingCloseRequested requestPendingClose AssocMap.contains
  rw [get?_insert]
  split_ifs with h
  · rfl
  · rfl

@[simp] theorem get?_removeTask :
    (m.removeTask f).tasks.get? g = if g = f then none else m.tasks.get? g :=
  get?_erase ..

theorem hasPendingOutput_eq : m.hasPendingOutput f = decide (m.pending f ≠ []) := by
  unfold hasPendingOutput TcpTaskManager.pending
  cases m.pendingToTun.get? f with
  | none => rfl
  | some p =>
    cases p with
    | nil | cons => rfl

theorem popPendingOutput_eq_none (h : m.pending f = []) : m.popPendingOutput f = none := by
  unfold TcpTaskManager.pending at h
  unfold popPendingOutput
  cases hg : m.pendingToTun.get? f with
  | none => rfl
  | some =>
    rw [hg] at h
    cases h
    rfl

theorem popPendingOutput_eq_some {rest : List Octets} (h : m.pending f = payload :: rest) :
    m.popPendingOutput f =
      some (payload, { m with pendingToTun := m.pendingToTun.insert f rest }) := by
  unfold TcpTaskManager.pending at h
  unfold popPendingOutput
  cases hg : m.pendingToTun.get? f with
  | none =>
    rw [hg] at h
    cases h
  | some =>
    rw [hg] at h
    cases h
    rfl

theorem pending_of_notMem_pendingFlows (h : f ∉ m.pendingFlows ord) : m.pending f = [] := by
  have hn : m.pendingToTun.get? f = none := by
    rw [get?_eq_none_iff]
    intro hk
    apply h
    obtain ⟨x, he, rfl⟩ := mem_map.mp hk
    exact mem_map_of_mem ((ord.mem _ _).mpr he)
  unfold TcpTaskManager.pending
  rw [hn]
  rfl

theorem get?_of_mem_finishedFlows (h : f ∈ m.finishedFlows ord) :
    m.tasks.get? f = some .finished := by
  obtain ⟨⟨g, task⟩, he, rfl⟩ := mem_map.mp h
  obtain ⟨hmem, hf⟩ := mem_filter.mp ((ord.mem _ _).mp he)
  have ht : task = .finished := of_decide_eq_true hf
  rw [get?_eq_some_iff]
  rwa [ht] at hmem

end TcpTaskManager

end Doradus
