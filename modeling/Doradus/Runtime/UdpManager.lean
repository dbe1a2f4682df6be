import Doradus.Lib.AssocMap
import Doradus.Lib.Run
import Doradus.Types.Flow

/-!
# The manager of inbound UDP flows

The manager has one worker for each source. Workers open their flow and end on their own; they
report both to the manager, which takes ingress packets, commands and reports one at a time,
in any order. A worker that has ended is replaced when the next packet of its source comes, so
reports of an earlier worker may arrive under the key of a later one.
-/

namespace Doradus

/-- The destination is not part of the key. -/
structure UdpSourceKey where
  inboundId : String
  sessionId : UInt64
  source : SocketAddr
  authentication : Option (Vector UInt8 32)
  deriving DecidableEq

/-- What the manager reads of an ingress packet; `sessionCancelled` is the value of
`session_cancel_rx`. -/
structure UdpIngress where
  sessionId : UInt64
  sessionCancelled : Bool
  authentication : Option (Vector UInt8 32)
  peer : Endpoint

def UdpIngress.sourceKey (inboundId : String) (ingress : UdpIngress) : Option UdpSourceKey :=
  ingress.peer.addr.map fun source => ⟨inboundId, ingress.sessionId, source, ingress.authentication⟩

inductive UdpManagerCommand where
  | closeFlow (sessionId : UInt64) (flow : FlowKey)
  | closeSession (sessionId : UInt64)

inductive UdpFlowEvent where
  | opened (key : UdpSourceKey) (generation : UInt64) (flow : FlowKey)
  | closed (key : UdpSourceKey) (generation : UInt64)
  deriving DecidableEq

def UdpFlowEvent.key : UdpFlowEvent → UdpSourceKey
  | .opened key _ _ | .closed key _ => key

def UdpFlowEvent.generation : UdpFlowEvent → UInt64
  | .opened _ generation _ | .closed _ generation => generation

def UdpFlowEvent.isOpened : UdpFlowEvent → Bool
  | .opened _ _ _ => true
  | .closed _ _ => false

namespace UdpManager

/-- A worker opens its flow and reports it; its loop ends; it reports that. -/
inductive WorkerPhase where
  | opening
  | opened
  | ended
  | reported
  deriving DecidableEq

def WorkerPhase.hasEnded : WorkerPhase → Bool
  | .opening | .opened => false
  | .ended | .reported => true

/-- The task of a flow. `asked` are the closes of its session that the manager has processed
while the worker was opening. -/
structure Worker where
  key : UdpSourceKey
  generation : UInt64
  phase : WorkerPhase
  cancelled : Bool
  asked : List FlowKey
  deriving DecidableEq

/-- The channels and the join handle are those of the worker. -/
structure UdpFlowHandle where
  generation : UInt64
  flow : Option FlowKey
  sessionId : UInt64
  worker : ℕ
  deriving DecidableEq

/-- An event in the channel, and the worker that sent it. -/
structure Report where
  worker : ℕ
  event : UdpFlowEvent
  deriving DecidableEq

end UdpManager

open UdpManager in
structure UdpManager where
  flows : AssocMap UdpSourceKey UdpFlowHandle
  pendingClose : AssocMap UdpSourceKey FlowKey
  nextGeneration : UInt64
  ingressOpen : Bool
  commandOpen : Bool
  running : Bool
  workers : List Worker
  events : List Report

namespace UdpManager

inductive Input where
  /-- `alive` is whether the inbound can be upgraded. -/
  | ingress (ingress : UdpIngress) (alive : Bool)
  | ingressClosed
  /-- The order in which the command goes through `flows`. -/
  | command (command : UdpManagerCommand) (ord : AssocMap.IterOrder)
  | commandClosed
  | event
  | shutdown
  | opened (worker : ℕ) (flow : FlowKey)
  | ended (worker : ℕ)
  | closed (worker : ℕ)

def new : UdpManager := ⟨∅, ∅, 1, true, true, true, [], []⟩

def cancel (worker : ℕ) (m : UdpManager) : UdpManager :=
  { m with workers := m.workers.modify worker fun w => { w with cancelled := true } }

/-- Something is done to the workers of the handles of some kind. -/
def onWorkers (p : UdpFlowHandle → Bool) (act : Worker → Worker) (m : UdpManager) : UdpManager :=
  { m with
    workers := m.workers.mapIdx fun n w =>
      if m.flows.entries.any fun e => p e.2 && e.2.worker = n then act w else w }

def cancelAll (p : UdpFlowHandle → Bool) (m : UdpManager) : UdpManager :=
  m.onWorkers p fun w => { w with cancelled := true }

def stop (m : UdpManager) : UdpManager :=
  { m.cancelAll fun _ => true with running := false, flows := ∅, pendingClose := ∅ }

def following (generation : UInt64) : UInt64 := if generation + 1 = 0 then 1 else generation + 1

def spawnUdpFlow (key : UdpSourceKey) (m : UdpManager) : UdpManager :=
  { m with
    workers := m.workers ++ [⟨key, m.nextGeneration, .opening, false, []⟩]
    flows := m.flows.insert key ⟨m.nextGeneration, none, key.sessionId, m.workers.length⟩
    nextGeneration := following m.nextGeneration }

/-- `try_send` to the worker finds the channel open. -/
def accepts (worker : ℕ) (m : UdpManager) : Bool :=
  (m.workers[worker]?).any fun w => !w.phase.hasEnded

def forget (key : UdpSourceKey) (m : UdpManager) : UdpManager :=
  { m with flows := m.flows.erase key, pendingClose := m.pendingClose.erase key }

def onIngress (inboundId : String) (ingress : UdpIngress) (alive : Bool) (m : UdpManager) :
    UdpManager :=
  if ingress.sessionCancelled then m
  else if !alive then m.stop
  else
    match ingress.sourceKey inboundId with
    | none => m
    | some key =>
      match m.flows.get? key with
      | some handle =>
        if m.accepts handle.worker then m
        else ((m.forget key).cancel handle.worker).spawnUdpFlow key
      | none => m.spawnUdpFlow key

def openingWorkerKey (entries : List (UdpSourceKey × UdpFlowHandle)) (sessionId : UInt64)
    (flow : FlowKey) : Option UdpSourceKey :=
  (entries.find? fun e =>
    e.2.sessionId = sessionId && e.2.flow.isNone && e.1.source = flow.source).map Prod.fst

def owns (sessionId : UInt64) (flow : FlowKey) (handle : UdpFlowHandle) : Bool :=
  handle.sessionId = sessionId && handle.flow = some flow

def isOpening (sessionId : UInt64) (handle : UdpFlowHandle) : Bool :=
  handle.sessionId = sessionId && handle.flow.isNone

/-- The close is written down for the workers that are opening. -/
def ask (sessionId : UInt64) (flow : FlowKey) (m : UdpManager) : UdpManager :=
  m.onWorkers (isOpening sessionId) fun w => { w with asked := flow :: w.asked }

def closeFlow (ord : AssocMap.IterOrder) (sessionId : UInt64) (flow : FlowKey) (m : UdpManager) :
    UdpManager :=
  let m := m.ask sessionId flow
  if m.flows.entries.any fun e => owns sessionId flow e.2 then m.cancelAll (owns sessionId flow)
  else
    match openingWorkerKey (ord m.flows.entries) sessionId flow with
    | some key => { m with pendingClose := m.pendingClose.insert key flow }
    | none => m

def closeSession (sessionId : UInt64) (m : UdpManager) : UdpManager :=
  { m.cancelAll fun handle => handle.sessionId = sessionId with
    pendingClose := m.pendingClose.retain fun key _ => key.sessionId ≠ sessionId }

/-- The flow of the worker becomes known, and the close that is parked for it is taken. -/
def setFlow (key : UdpSourceKey) (flow : FlowKey) (m : UdpManager) : UdpManager :=
  { m with
    flows := m.flows.modify key fun handle => { handle with flow := some flow }
    pendingClose := m.pendingClose.erase key }

def onEvent (event : UdpFlowEvent) (m : UdpManager) : UdpManager :=
  match event, m.flows.get? event.key with
  | .opened key generation flow, some handle =>
    if handle.generation = generation then
      let opened := m.setFlow key flow
      if m.pendingClose.get? key = some flow then opened.cancel handle.worker else opened
    else m
  | .closed key generation, some handle =>
    if handle.generation = generation then m.forget key else m
  | _, none => m

/-- The loop ends when neither packets nor commands can come any more. -/
def stopIfUnused (m : UdpManager) : UdpManager :=
  if !m.ingressOpen && !m.commandOpen then m.stop else m

def select (inboundId : String) (m : UdpManager) : Input → UdpManager
  | .ingress ingress alive => if m.ingressOpen then m.onIngress inboundId ingress alive else m
  | .ingressClosed => { m with ingressOpen := false }.stopIfUnused
  | .command (.closeFlow sessionId flow) ord =>
    if m.commandOpen then m.closeFlow ord sessionId flow else m
  | .command (.closeSession sessionId) _ => if m.commandOpen then m.closeSession sessionId else m
  | .commandClosed => { m with commandOpen := false }.stopIfUnused
  | .event =>
    match m.events with
    | report :: events => { m with events }.onEvent report.event
    | [] => m
  | .shutdown => m.stop
  | .opened _ _ | .ended _ | .closed _ => m

/-- What a worker does. The flow that it opens has the source of its packets. -/
def work (m : UdpManager) : Input → UdpManager
  | .opened worker flow =>
    match m.workers[worker]? with
    | some w =>
      if w.phase = .opening ∧ flow.source = w.key.source then
        { m with
          workers := m.workers.set worker { w with phase := .opened }
          events := m.events ++ [⟨worker, .opened w.key w.generation flow⟩] }
      else m
    | none => m
  | .ended worker =>
    match m.workers[worker]? with
    | some w =>
      if w.phase.hasEnded then m
      else { m with workers := m.workers.set worker { w with phase := .ended } }
    | none => m
  | .closed worker =>
    match m.workers[worker]? with
    | some w =>
      if w.phase = .ended then
        { m with
          workers := m.workers.set worker { w with phase := .reported }
          events := m.events ++ [⟨worker, .closed w.key w.generation⟩] }
      else m
    | none => m
  | _ => m

def step (inboundId : String) (m : UdpManager) (input : Input) : UdpManager :=
  if m.running then (m.select inboundId input).work input else m.work input

def after (inboundId : String) (inputs : List Input) : UdpManager :=
  Run.run (step inboundId) new inputs

open List Option

def Worker.identity (w : Worker) : UdpSourceKey × UInt64 × WorkerPhase :=
  (w.key, w.generation, w.phase)

def Worker.Sends (w : Worker) : UdpFlowEvent → Prop
  | .opened key generation flow =>
    key = w.key ∧ generation = w.generation ∧ flow.source = w.key.source
  | .closed key generation => key = w.key ∧ generation = w.generation ∧ w.phase = .reported

variable {m m' : UdpManager} {key : UdpSourceKey} {handle : UdpFlowHandle} {flow : FlowKey}
  {n : ℕ} {w w' : Worker}

section

variable (h : w'.identity = w.identity)
include h

theorem Worker.key_eq : w'.key = w.key := congrArg Prod.fst h

theorem Worker.generation_eq : w'.generation = w.generation := congrArg (fun idn => idn.2.1) h

theorem Worker.phase_eq : w'.phase = w.phase := congrArg (fun idn => idn.2.2) h

end

theorem Worker.Sends.of_eq {event : UdpFlowEvent} (h : w.Sends event) (hk : w'.key = w.key)
    (hg : w'.generation = w.generation)
    (hp : w.phase = .reported → w'.phase = .reported) : w'.Sends event := by
  cases event with
  | opened => simpa only [Sends, hk, hg] using h
  | closed =>
    obtain ⟨rfl, rfl, hr⟩ := h
    exact ⟨hk.symm, hg.symm, hp hr⟩

/-- The workers are the same, except that some may have been cancelled. -/
structure Relabels (m m' : UdpManager) : Prop where
  length : m'.workers.length = m.workers.length
  worker : ∀ (n : ℕ) (w : Worker), m.workers[n]? = some w → ∃ w' : Worker,
    m'.workers[n]? = some w' ∧ w'.identity = w.identity ∧ (w.cancelled = true → w'.cancelled = true)

theorem Relabels.of_workers (h : m'.workers = m.workers) : Relabels m m' :=
  ⟨congrArg List.length h, fun _ w hw => ⟨w, h ▸ hw, rfl, id⟩⟩

theorem Relabels.trans {m'' : UdpManager} (h : Relabels m m') (h' : Relabels m' m'') :
    Relabels m m'' := by
  refine ⟨h'.length.trans h.length, fun n w hw => ?_⟩
  obtain ⟨w₁, hw₁, hi, hcn⟩ := h.worker n w hw
  obtain ⟨w₂, hw₂, hi', hcn'⟩ := h'.worker n w₁ hw₁
  exact ⟨w₂, hw₂, hi'.trans hi, fun hc => hcn' (hcn hc)⟩

theorem Relabels.before (h : Relabels m m') (hw' : m'.workers[n]? = some w') :
    ∃ w, m.workers[n]? = some w ∧ w'.identity = w.identity ∧
      (w.cancelled = true → w'.cancelled = true) := by
  have hlt : n < m.workers.length := h.length ▸ (List.getElem?_eq_some_iff.mp hw').1
  obtain ⟨f, hf, hi, hc⟩ := h.worker n _ (List.getElem?_eq_getElem hlt)
  obtain rfl : f = w' := some.inj (hf.symm.trans hw')
  exact ⟨_, List.getElem?_eq_getElem hlt, hi, hc⟩

theorem relabels_cancel (wr : ℕ) : Relabels m (m.cancel wr) := by
  refine ⟨length_modify .., fun n w hw => ?_⟩
  simp only [cancel, List.getElem?_modify, hw]
  refine ⟨_, rfl, ?_⟩
  split_ifs
  · exact ⟨rfl, fun _ => rfl⟩
  · exact ⟨rfl, id⟩

theorem relabels_onWorkers {act : Worker → Worker} (p : UdpFlowHandle → Bool)
    (ha : ∀ w : Worker, (act w).identity = w.identity ∧
      (w.cancelled = true → (act w).cancelled = true)) : Relabels m (m.onWorkers p act) := by
  refine ⟨length_mapIdx, fun n w hw => ?_⟩
  simp only [onWorkers, List.getElem?_mapIdx, hw]
  refine ⟨_, rfl, ?_⟩
  split_ifs
  · exact ha w
  · exact ⟨rfl, id⟩

theorem relabels_cancelAll (p : UdpFlowHandle → Bool) : Relabels m (m.cancelAll p) :=
  relabels_onWorkers p fun _ => ⟨rfl, fun _ => rfl⟩

theorem relabels_ask (sessionId : UInt64) (flow : FlowKey) : Relabels m (m.ask sessionId flow) :=
  relabels_onWorkers _ fun _ => ⟨rfl, id⟩

theorem relabels_closeSession (sessionId : UInt64) : Relabels m (m.closeSession sessionId) :=
  have hw := relabels_cancelAll (m := m) fun k => k.sessionId = sessionId
  ⟨hw.length, hw.worker⟩

theorem cancelled_cancelAll {p : UdpFlowHandle → Bool} (hh : m.flows.get? key = some handle)
    (hp : p handle = true) (hw : (m.cancelAll p).workers[handle.worker]? = some w) :
    w.cancelled = true := by
  have ha : m.flows.entries.any (fun e => p e.2 && e.2.worker = handle.worker) = true :=
    any_eq_true.mpr ⟨(key, handle), (m.flows.get?_eq_some_iff key _).mp hh, by simp [hp]⟩
  simp only [cancelAll, onWorkers, List.getElem?_mapIdx, map_eq_some_iff] at hw
  obtain ⟨b, -, rfl⟩ := hw
  rw [if_pos ha]

theorem openingWorkerKey_spec {ord : AssocMap.IterOrder} {sessionId : UInt64}
    (h : openingWorkerKey (ord m.flows.entries) sessionId flow = some key) :
    key.source = flow.source ∧ ∃ k, m.flows.get? key = some k ∧
      k.sessionId = sessionId ∧ k.flow = none := by
  obtain ⟨e, hfn, rfl⟩ := map_eq_some_iff.mp h
  have hmem := (ord.mem _ e).mp (mem_of_find?_eq_some hfn)
  have hf := find?_some hfn
  simp only [Bool.and_eq_true, decide_eq_true_eq, isNone_iff_eq_none] at hf
  exact ⟨hf.2, e.2, (m.flows.get?_eq_some_iff e.1 e.2).mpr hmem, hf.1⟩

theorem flows_forget (key other : UdpSourceKey) :
    (m.forget key).flows.get? other = if other = key then none else m.flows.get? other :=
  m.flows.get?_erase key other

theorem pendingClose_forget (key other : UdpSourceKey) : (m.forget key).pendingClose.get? other =
      if other = key then none else m.pendingClose.get? other :=
  m.pendingClose.get?_erase key other

theorem flows_setFlow (key other : UdpSourceKey) (flow : FlowKey) :
    (m.setFlow key flow).flows.get? other =
      if other = key then (m.flows.get? other).map fun k => { k with flow := some flow }
      else m.flows.get? other :=
  m.flows.get?_modify key other _

theorem pendingClose_setFlow (key other : UdpSourceKey) (flow : FlowKey) :
    (m.setFlow key flow).pendingClose.get? other =
      if other = key then none else m.pendingClose.get? other :=
  m.pendingClose.get?_erase key other

inductive Selects (m : UdpManager) : Input → UdpManager → Prop
  | ports (input : Input) (ingressOpen commandOpen : Bool) :
    Selects m input { m with ingressOpen, commandOpen }
  | stop (input : Input) (ingressOpen commandOpen : Bool) :
    Selects m input { m with ingressOpen, commandOpen }.stop
  | spawn (input : Input) (key : UdpSourceKey) (hnone : m.flows.get? key = none) :
    Selects m input (m.spawnUdpFlow key)
  | replace (input : Input) (key : UdpSourceKey) (handle : UdpFlowHandle)
    (hhandle : m.flows.get? key = some handle) (hended : m.accepts handle.worker = false) :
    Selects m input (((m.forget key).cancel handle.worker).spawnUdpFlow key)
  | closeFlow (sessionId : UInt64) (flow : FlowKey) (ord : AssocMap.IterOrder) :
    Selects m (.command (.closeFlow sessionId flow) ord) (m.closeFlow ord sessionId flow)
  | closeSession (input : Input) (sessionId : UInt64) : Selects m input (m.closeSession sessionId)
  | event (input : Input) (report : Report) (events : List Report)
    (hevents : m.events = report :: events) :
    Selects m input ({ m with events }.onEvent report.event)

theorem selects_idle (a : Input) : Selects m a m := .ports a m.ingressOpen m.commandOpen

theorem selects_stopIfUnused (a : Input) (ingressOpen commandOpen : Bool) :
    Selects m a (stopIfUnused { m with ingressOpen, commandOpen }) := by
  unfold stopIfUnused
  split_ifs
  · exact .stop a _ _
  · exact .ports a _ _

theorem selects_onIngress (a : Input) (inboundId : String) (ing : UdpIngress)
    (al : Bool) : Selects m a (m.onIngress inboundId ing al) := by
  unfold onIngress
  split_ifs
  · exact selects_idle a
  · exact .stop a m.ingressOpen m.commandOpen
  cases ing.sourceKey inboundId with
  | none => exact selects_idle a
  | some key =>
    dsimp only
    split
    · rename_i k hh
      split_ifs with ha
      · exact selects_idle a
      · exact .replace a key k hh (Bool.not_eq_true _ ▸ ha)
    · rename_i hn
      exact .spawn a key hn

theorem selects_select (inboundId : String) (a : Input) : Selects m a (m.select inboundId a) := by
  cases a with
  | ingress ingress al =>
    dsimp only [select]
    split_ifs
    · exact selects_onIngress _ inboundId _ al
    · exact selects_idle _
  | ingressClosed => exact selects_stopIfUnused _ false m.commandOpen
  | command command ord =>
    cases command with
    | closeFlow _ flow =>
      dsimp only [select]
      split_ifs
      · exact .closeFlow _ _ ord
      · exact selects_idle _
    | closeSession sessionId =>
      dsimp only [select]
      split_ifs
      · exact .closeSession _ sessionId
      · exact selects_idle _
  | commandClosed => exact selects_stopIfUnused _ m.ingressOpen false
  | event =>
    dsimp only [select]
    split
    · rename_i r ev he
      exact .event _ r ev he
    · exact selects_idle _
  | shutdown => exact .stop _ m.ingressOpen m.commandOpen
  | _ => exact selects_idle _

/-- All that a worker can do: it goes on to its next phase, and may report it. -/
inductive Works (m : UdpManager) : UdpManager → Prop
  | idle : Works m m
  | progress (n : ℕ) (w : Worker) (hw : m.workers[n]? = some w) (phase : WorkerPhase)
    (reports : List Report) (hphase : w.phase ≠ .reported) (hstarted : phase ≠ .opening)
    (hended : w.phase.hasEnded = true → phase.hasEnded = true)
    (hopening : reports.countP (·.event.isOpened) ≤ (decide (w.phase = .opening)).toNat)
    (hreports : ∀ report ∈ reports, report.worker = n ∧
      Worker.Sends { w with phase } report.event) :
    Works m { m with
      workers := m.workers.set n { w with phase }
      events := m.events ++ reports }

theorem works_work (a : Input) : Works m (m.work a) := by
  cases a with
  | opened wr =>
    dsimp only [work]
    split
    · rename_i w hw
      split_ifs with ho
      · refine .progress wr w hw .opened [_] (by simp [ho.1]) (by simp)
          (by simp [ho.1, WorkerPhase.hasEnded])
          (by simp [ho.1, UdpFlowEvent.isOpened]) fun r hr => ?_
        obtain rfl := mem_singleton.mp hr
        exact ⟨rfl, rfl, rfl, ho.2⟩
      · exact .idle
    · exact .idle
  | ended wr =>
    dsimp only [work]
    split
    · rename_i w hw
      split_ifs with he
      · exact .idle
      have hp := Works.progress wr w hw .ended []
        (fun hrp => he (by rw [hrp, WorkerPhase.hasEnded])) (by simp)
        (fun _ => rfl) (by simp) (by simp)
      rwa [append_nil] at hp
    · exact .idle
  | closed wr =>
    dsimp only [work]
    split
    · rename_i w hw
      split_ifs with he
      · refine .progress wr w hw .reported [_] (by simp [he]) (by simp) (fun _ => rfl)
          (by simp [UdpFlowEvent.isOpened]) fun r hr => ?_
        obtain rfl := mem_singleton.mp hr
        exact ⟨rfl, rfl, rfl, rfl⟩
      · exact .idle
    · exact .idle
  | _ => exact .idle

theorem length_onEvent (ev : UdpFlowEvent) : (m.onEvent ev).workers.length = m.workers.length := by
  unfold UdpManager.onEvent
  split
  · split_ifs
    · exact (relabels_cancel _).length
    · rfl
    · rfl
  · split_ifs <;> rfl
  · rfl

theorem Selects.length_le {input : Input} (h : Selects m input m') :
    m.workers.length ≤ m'.workers.length := by
  cases h with
  | ports => exact le_rfl
  | stop _ ingressOpen commandOpen =>
    exact (relabels_cancelAll (m := { m with ingressOpen, commandOpen }) fun _ => true).length.ge
  | spawn => simp [spawnUdpFlow]
  | replace => simp [spawnUdpFlow, cancel, forget]
  | closeFlow sessionId flow ord =>
    have ha := (relabels_ask (m := m) sessionId flow).length
    unfold UdpManager.closeFlow
    dsimp only
    split_ifs
    · exact ((relabels_cancelAll _).length.trans ha).ge
    · split
      · exact ha.ge
      · exact ha.ge
  | closeSession _ sessionId => exact (relabels_closeSession _).length.ge
  | event _ report events => exact (length_onEvent (m := { m with events }) report.event).ge

theorem Works.length_eq (h : Works m m') : m'.workers.length = m.workers.length := by
  cases h with
  | idle => rfl
  | progress => exact length_set

theorem length_le_step (inboundId : String) (a : Input) :
    m.workers.length ≤ (m.step inboundId a).workers.length := by
  unfold step
  split_ifs
  · exact (selects_select _ a).length_le.trans_eq (works_work a).length_eq.symm
  · exact (works_work a).length_eq.ge

end UdpManager

end Doradus
