import Doradus.Runtime.UdpManagerGenerations

/-!
# Closes that come while a worker is opening

A close of a flow that no handle has is parked on one opening worker of the session and the
source, in one slot. It reaches the worker that will report the flow when that worker is the
only one that is opening for the source and its slot is not taken by another flow.
-/

namespace Doradus

open UdpManager List AssocMap

namespace UdpManager

variable {m m' : UdpManager} {key : UdpSourceKey} {handle : UdpFlowHandle} {flow : FlowKey}
  {n : ℕ} {w w' : Worker}

theorem Coherent.getElem?_onWorkers (h : m.Coherent) (p : UdpFlowHandle → Bool)
    (act : Worker → Worker) (hw : m.workers[n]? = some w) :
    (m.onWorkers p act).workers[n]? =
      some (if (m.flows.get? w.key).any fun k => p k && k.worker = n then act w
        else w) := by
  have ha : m.flows.entries.any (fun e => p e.2 && e.2.worker = n) =
      (m.flows.get? w.key).any fun k => p k && k.worker = n := by
    rw [Bool.eq_iff_iff, any_eq_true, Option.any_eq_true]
    constructor
    · rintro ⟨⟨key, k⟩, hmem, hh⟩
      have hg := (m.flows.get?_eq_some_iff key k).mpr hmem
      obtain ⟨o, ho, rfl, -⟩ := h.worker key k hg
      simp only [Bool.and_eq_true, decide_eq_true_eq] at hh
      obtain rfl : o = w := by
        rw [hh.2, hw] at ho
        exact (Option.some.inj ho).symm
      exact ⟨k, hg, by simp [hh]⟩
    · rintro ⟨k, hg, hh⟩
      exact ⟨(w.key, k), (m.flows.get?_eq_some_iff _ _).mp hg, hh⟩
  simp [onWorkers, hw, ha]

theorem Coherent.onWorkers_handle (h : m.Coherent) (p : UdpFlowHandle → Bool)
    (act : Worker → Worker) (hh : m.flows.get? key = some handle)
    (hw : m.workers[handle.worker]? = some w) :
    (m.onWorkers p act).workers[handle.worker]? = some (if p handle then act w else w) := by
  obtain ⟨owner, ho, rfl, -⟩ := h.worker key _ hh
  obtain rfl := Option.some.inj (hw.symm.trans ho)
  rw [h.getElem?_onWorkers p act hw, hh]
  simp

section

/-- The closes that an opening worker has been asked for, and the one that is parked for it. -/
def Worker.Notes (w : Worker) (source : SocketAddr) (parked : Option FlowKey) : Prop :=
  (w.cancelled = true ∨ ∀ flow ∈ w.asked, flow.source = source → parked = some flow) ∧
    ∀ flow, parked = some flow → flow ∈ w.asked

def Attentive (m : UdpManager) : Prop :=
  ∀ (key : UdpSourceKey) (handle : UdpFlowHandle) (w : Worker),
    m.flows.get? key = some handle → handle.flow = none →
    m.workers[handle.worker]? = some w → w.Notes key.source (m.pendingClose.get? key)

/-- The close of a flow finds at most one worker that may be about to open it, no other worker
that has it, and no other close in the slot. -/
def clear (m : UdpManager) : Input → Bool
  | .command (.closeFlow sessionId flow) _ =>
    let waiting := m.flows.entries.filter fun e =>
      isOpening sessionId e.2 && e.1.source = flow.source
    waiting.length ≤ 1 && waiting.all fun e =>
      !(m.flows.entries.any fun e => owns sessionId flow e.2) &&
        (m.pendingClose.get? e.1).all (· = flow)
  | _ => true

variable {s : SocketAddr} {parked : Option FlowKey}

theorem Worker.Notes.mono (h : w.Notes s parked)
    (ha : w'.asked = w.asked) (hc : w.cancelled = true → w'.cancelled = true) :
    w'.Notes s parked := by
  unfold Worker.Notes
  rw [ha]
  exact ⟨h.1.imp_left hc, h.2⟩

section

variable (h : m.Attentive)
include h

theorem Attentive.of_before
    (hb : ∀ (key : UdpSourceKey) (k : UdpFlowHandle) (w' : Worker), m'.flows.get? key = some k →
      k.flow = none → m'.workers[k.worker]? = some w' → m.flows.get? key = some k ∧
      m'.pendingClose.get? key = m.pendingClose.get? key ∧ ∃ w, m.workers[k.worker]? = some w ∧
      w'.asked = w.asked ∧ (w.cancelled = true → w'.cancelled = true)) :
    m'.Attentive := by
  intro key k w' hh ho hw'
  obtain ⟨hg, hp, w, hw, ha, hc⟩ := hb key k w' hh ho hw'
  rw [hp]
  exact (h key k w hg ho hw).mono ha hc

theorem Attentive.cancel (wr : ℕ) : (m.cancel wr).Attentive := by
  refine h.of_before fun _ k _ hh _ hw' => ⟨hh, rfl, ?_⟩
  simp only [UdpManager.cancel, List.getElem?_modify, Option.map_eq_map,
    Option.map_eq_some_iff] at hw'
  obtain ⟨w, hw, rfl⟩ := hw'
  refine ⟨w, hw, ?_⟩
  split_ifs
  · exact ⟨rfl, fun _ => rfl⟩
  · exact ⟨rfl, id⟩

theorem Attentive.forget (key : UdpSourceKey) : (m.forget key).Attentive := by
  refine h.of_before fun o k w hh _ hw => ?_
  rw [flows_forget] at hh
  split_ifs at hh with hk
  exact ⟨hh, by rw [pendingClose_forget, if_neg hk], w, hw, rfl, id⟩

theorem Attentive.setFlow (key : UdpSourceKey) (flow : FlowKey) :
    (m.setFlow key flow).Attentive := by
  refine h.of_before fun o k w hh ho hw => ?_
  rw [flows_setFlow] at hh
  split_ifs at hh with hk
  · obtain ⟨b, -, rfl⟩ := Option.map_eq_some_iff.mp hh
    cases ho
  · exact ⟨hh, by rw [pendingClose_setFlow, if_neg hk], w, hw, rfl, id⟩

theorem Attentive.progress (hw : m.workers[n]? = some w) (phase : WorkerPhase)
    (events : List Report) :
    Attentive { m with workers := m.workers.set n { w with phase }, events } := by
  refine h.of_before fun _ _ now hh _ hnow => ⟨hh, rfl, ?_⟩
  rw [List.getElem?_set] at hnow
  split_ifs at hnow with hn
  · cases hnow
    exact ⟨w, hn ▸ hw, rfl, id⟩
  · exact ⟨now, hnow, rfl, id⟩

theorem Attentive.spawnUdpFlow (hc : m.Coherent) (hk : m.flows.get? key = none) :
    (m.spawnUdpFlow key).Attentive := by
  intro o k w hh ho hw
  rw [UdpManager.spawnUdpFlow, get?_insert] at hh
  rw [UdpManager.spawnUdpFlow] at hw
  split_ifs at hh with hot
  · cases hh
    rw [List.getElem?_concat_length, Option.some_inj] at hw
    subst hw
    refine ⟨.inr (by simp), fun flow hf => ?_⟩
    obtain ⟨k, hh, -⟩ := hc.pending o _ hf
    rw [hot, hk] at hh
    cases hh
  · obtain ⟨b, hb, -⟩ := hc.worker o k hh
    rw [List.getElem?_append_left (List.getElem?_eq_some_iff.mp hb).1] at hw
    exact h o k w hh ho hw

theorem Attentive.closeSession (hc : m.Coherent) (sessionId : UInt64) :
    (m.closeSession sessionId).Attentive := by
  intro key k _ hh ho hw'
  obtain ⟨w, hw, -⟩ := hc.worker key k hh
  have hnow := hc.onWorkers_handle (fun k => k.sessionId = sessionId)
    (fun w => { w with cancelled := true }) hh hw
  obtain rfl := Option.some.inj (hw'.symm.trans hnow)
  rw [UdpManager.closeSession, get?_retain, hc.session key k hh]
  have hn := h key k w hh ho hw
  by_cases hs : key.sessionId = sessionId
  · simp [Worker.Notes, hs]
  have hk : (m.pendingClose.get? key).filter (fun _ => decide (key.sessionId ≠ sessionId)) =
      m.pendingClose.get? key := by cases m.pendingClose.get? key <;> simp [hs]
  rw [hk]
  simpa [hs] using hn

end

theorem eq_of_length_le_one {α : Type*} {l : List α} (h : l.length ≤ 1) {a b : α} (ha : a ∈ l)
    (hb : b ∈ l) : a = b := by
  match l with
  | [] => cases ha
  | [_] => rw [mem_singleton.mp ha, mem_singleton.mp hb]
  | _ :: _ :: _ => simp at h

variable {ord : AssocMap.IterOrder} {sessionId : UInt64}

theorem clear_spec (hc : m.clear (.command (.closeFlow sessionId flow) ord) = true)
    (hh : m.flows.get? key = some handle) (ho : isOpening sessionId handle = true)
    (hs : key.source = flow.source) :
    (m.flows.entries.any fun e => owns sessionId flow e.2) = false ∧
      openingWorkerKey (ord m.flows.entries) sessionId flow = some key ∧
      ∀ p, m.pendingClose.get? key = some p → p = flow := by
  simp only [clear, Bool.and_eq_true, decide_eq_true_eq, all_eq_true] at hc
  obtain ⟨hl, ha⟩ := hc
  have hmem : (key, handle) ∈ m.flows.entries.filter fun e =>
      isOpening sessionId e.2 && e.1.source = flow.source :=
    mem_filter.mpr ⟨(m.flows.get?_eq_some_iff key _).mp hh, by simp [ho, hs]⟩
  have he := ha _ hmem
  simp only [Bool.not_eq_true', Option.all_eq_true, decide_eq_true_eq] at he
  refine ⟨he.1, ?_, he.2⟩
  cases hf : openingWorkerKey (ord m.flows.entries) sessionId flow with
  | none =>
    rw [openingWorkerKey, Option.map_eq_none_iff, find?_eq_none] at hf
    refine absurd ?_ (hf (key, handle) ((ord.mem _ _).mpr (mem_filter.mp hmem).1))
    simpa [isOpening, hs] using ho
  | some o =>
    obtain ⟨hot, f, hg, hss, hfl⟩ := openingWorkerKey_spec hf
    have hmem' : (o, f) ∈ m.flows.entries.filter fun e =>
        isOpening sessionId e.2 && e.1.source = flow.source :=
      mem_filter.mpr ⟨(m.flows.get?_eq_some_iff _ _).mp hg, by simp [isOpening, hss, hfl, hot]⟩
    rw [(Prod.mk.inj (eq_of_length_le_one hl hmem hmem')).1]

theorem Worker.Notes.ask (h : w.Notes s parked) (hs : flow.source ≠ s) :
    Worker.Notes { w with asked := flow :: w.asked } s parked := by
  refine ⟨h.1.imp_right fun ha o ho heq => ?_, fun o ho => mem_cons_of_mem _ (h.2 o ho)⟩
  rcases mem_cons.mp ho with rfl | hmem
  · exact absurd heq hs
  · exact ha o hmem heq

theorem closeFlow_flows (ord : IterOrder) (sessionId : UInt64) (flow : FlowKey) :
    (m.closeFlow ord sessionId flow).flows = m.flows := by
  unfold closeFlow
  dsimp only
  split_ifs
  · rfl
  · split <;> rfl

theorem closeFlow_pending (hh : m.flows.get? key = some handle)
    (hw : ¬(isOpening sessionId handle = true ∧ key.source = flow.source)) :
    (m.closeFlow ord sessionId flow).pendingClose.get? key = m.pendingClose.get? key := by
  unfold closeFlow
  dsimp only
  split_ifs
  · rfl
  split
  · rename_i o hot
    obtain ⟨hsr, found, hf, hs, ho⟩ := openingWorkerKey_spec hot
    refine get?_insert_of_ne _ _ ?_
    rintro rfl
    obtain rfl := Option.some.inj (hh.symm.trans hf)
    exact hw ⟨by simp [isOpening, hs, ho], hsr⟩
  · rfl

theorem closeFlow_worker (hw : (m.closeFlow ord sessionId flow).workers[n]? = some w') :
    ∃ w, (m.ask sessionId flow).workers[n]? = some w ∧ w'.asked = w.asked ∧
      (w.cancelled = true → w'.cancelled = true) := by
  unfold closeFlow at hw
  dsimp only at hw
  split_ifs at hw
  · simp only [cancelAll, onWorkers, List.getElem?_mapIdx, Option.map_eq_some_iff] at hw
    obtain ⟨w, hw, rfl⟩ := hw
    refine ⟨w, by simpa using hw, ?_⟩
    split_ifs
    · exact ⟨rfl, fun _ => rfl⟩
    · exact ⟨rfl, id⟩
  · split at hw
    · exact ⟨w', hw, rfl, id⟩
    · exact ⟨w', hw, rfl, id⟩

variable (h : m.Attentive)
include h

theorem Attentive.closeFlow (hc : m.Coherent)
    (hcl : m.clear (.command (.closeFlow sessionId flow) ord) = true) :
    (m.closeFlow ord sessionId flow).Attentive := by
  intro key k _ hh ho hw'
  rw [closeFlow_flows] at hh
  obtain ⟨w, hw, -⟩ := hc.worker key k hh
  have hn := h key k w hh ho hw
  obtain ⟨asked, ha, hsm, hcn⟩ := closeFlow_worker hw'
  obtain rfl := Option.some.inj (ha.symm.trans (hc.onWorkers_handle
    (isOpening _) (fun w => { w with asked := flow :: w.asked }) hh hw))
  refine Worker.Notes.mono ?_ hsm hcn
  by_cases hwt : isOpening sessionId k = true ∧ key.source = flow.source
  · obtain ⟨hu, hf, hsl⟩ := clear_spec hcl hh hwt.1 hwt.2
    have hp : (m.closeFlow ord sessionId flow).pendingClose = m.pendingClose.insert key flow := by
      simp only [UdpManager.closeFlow, UdpManager.ask, onWorkers, hu, hf]
      rfl
    rw [hp, get?_insert_self, if_pos hwt.1]
    refine ⟨hn.1.imp_right fun ha o ho heq => ?_, fun o ho => ?_⟩
    · rcases mem_cons.mp ho with rfl | hmem
      · rfl
      · rw [hsl o (ha o hmem heq)]
    · rw [← Option.some_inj.mp ho]
      exact mem_cons_self
  · rw [closeFlow_pending hh hwt]
    split_ifs with hs
    · exact hn.ask fun hsr => hwt ⟨hs, hsr.symm⟩
    · exact hn

theorem Attentive.onEvent (ev : UdpFlowEvent) : (m.onEvent ev).Attentive := by
  unfold UdpManager.onEvent
  split
  · split_ifs
    · exact (h.setFlow _ _).cancel _
    · exact h.setFlow _ _
    · exact h
  · split_ifs
    · exact h.forget _
    · exact h
  · exact h

theorem Attentive.select {input : Input} (hc : m.Coherent) (hcl : m.clear input = true)
    (hs : Selects m input m') : m'.Attentive := by
  cases hs with
  | ports => exact h
  | stop => exact fun key handle w hh => by simp [stop] at hh
  | spawn _ _ hn => exact h.spawnUdpFlow hc hn
  | replace _ key handle =>
    exact ((h.forget key).cancel handle.worker).spawnUdpFlow
      ((hc.forget key).cancel handle.worker) (get?_erase_self _ _)
  | closeFlow => exact h.closeFlow hc hcl
  | closeSession _ sessionId => exact h.closeSession hc _
  | event _ report events => exact Attentive.onEvent (m := { m with events }) h report.event

theorem Attentive.work (hwr : Works m m') : m'.Attentive := by
  cases hwr with
  | idle => exact h
  | progress _ _ hw phase => exact h.progress hw _ _

theorem Attentive.step (hc : m.Coherent) (inboundId : String) {a : Input} (hcl : m.clear a = true) :
    (m.step inboundId a).Attentive := by
  unfold UdpManager.step
  split_ifs
  · exact (h.select hc hcl (selects_select _ a)).work (works_work a)
  · exact h.work (works_work a)

end

section

/-- The reports of a flow by a worker that are in the queue. -/
def openings (m : UdpManager) (n : ℕ) : ℕ :=
  m.events.countP fun report => report.worker = n && report.event.isOpened

def learnt (m : UdpManager) (n : ℕ) (w : Worker) : Bool :=
  (m.flows.get? w.key).any fun handle => handle.worker = n && handle.flow.isSome

/-- The flow of a worker is still to be opened, or in the queue, or known to the manager. -/
def OpensOnce (m : UdpManager) : Prop :=
  ∀ (n : ℕ) (w : Worker), m.workers[n]? = some w →
    m.openings n + (decide (w.phase = .opening)).toNat + (m.learnt n w).toNat ≤ 1

section

variable (h : m.OpensOnce)
include h

theorem OpensOnce.of_before (he : m'.events = m.events)
    (hb : ∀ (n : ℕ) (w' : Worker), m'.workers[n]? = some w' → ∃ w, m.workers[n]? = some w ∧ w'.phase
      = w.phase ∧ (m'.learnt n w' = true → m.learnt n w = true)) :
    m'.OpensOnce := by
  intro n w' hw'
  obtain ⟨w, hw, hp, hl⟩ := hb n w' hw'
  have hold := h n w hw
  have hle := Bool.toNat_le_toNat hl
  rw [openings, he, hp]
  exact (Nat.add_le_add_left hle _).trans hold

theorem OpensOnce.relabel (hwr : Relabels m m') (hf : m'.flows = m.flows)
    (he : m'.events = m.events) : m'.OpensOnce := by
  refine h.of_before he fun n _ hw' => ?_
  obtain ⟨w, hw, hi, -⟩ := hwr.before hw'
  refine ⟨w, hw, Worker.phase_eq hi, ?_⟩
  rw [learnt, hf, Worker.key_eq hi]
  exact id

theorem OpensOnce.forget (key : UdpSourceKey) : (m.forget key).OpensOnce := by
  refine h.of_before rfl fun n w hw => ⟨w, hw, rfl, ?_⟩
  simp only [learnt, flows_forget]
  split_ifs
  · simp
  · exact id

end

theorem Coherent.openings_of_unspawned (h : m.Coherent) (hn : m.workers.length ≤ n) :
    m.openings n = 0 := by
  refine countP_eq_zero.mpr fun r hr => ?_
  obtain ⟨w, hw, -⟩ := h.sent r hr
  have hlt := (List.getElem?_eq_some_iff.mp hw).1
  simp only [Bool.and_eq_true, decide_eq_true_eq]
  omega

section

variable (h : m.OpensOnce)
include h

theorem OpensOnce.spawnUdpFlow (hc : m.Coherent) (key : UdpSourceKey) :
    (m.spawnUdpFlow key).OpensOnce := by
  intro n w hw
  rw [UdpManager.spawnUdpFlow, List.getElem?_append] at hw
  have ho : (m.spawnUdpFlow key).openings n = m.openings n := rfl
  rw [ho]
  split_ifs at hw with hlt
  · have hl : (m.spawnUdpFlow key).learnt n w = true → m.learnt n w = true := by
      simp only [learnt, UdpManager.spawnUdpFlow, get?_insert]
      split_ifs
      · simp
      · exact id
    have hle := Bool.toNat_le_toNat hl
    exact (Nat.add_le_add_left hle _).trans (h n w hw)
  · have hf := hc.openings_of_unspawned (Nat.le_of_not_lt hlt)
    rw [List.getElem?_singleton] at hw
    split_ifs at hw
    cases hw
    simp [hf, learnt, UdpManager.spawnUdpFlow]

theorem OpensOnce.stop : m.stop.OpensOnce := by
  refine h.of_before rfl fun n _ hw' => ?_
  obtain ⟨w, hw, hi, -⟩ := (relabels_cancelAll (m := m) fun _ => true).before hw'
  exact ⟨w, hw, Worker.phase_eq hi, by simp [learnt, UdpManager.stop]⟩

theorem OpensOnce.closeFlow (ord : IterOrder) (sessionId : UInt64) (flow : FlowKey) :
    (m.closeFlow ord sessionId flow).OpensOnce := by
  have ha := h.relabel (relabels_ask sessionId flow) rfl rfl
  unfold UdpManager.closeFlow
  dsimp only
  split_ifs
  · exact ha.relabel (relabels_cancelAll _) rfl rfl
  · split
    · exact ha
    · exact ha

end

variable {events : List Report} {report : Report}

theorem openings_cons (he : m.events = report :: events) (n : ℕ) :
    m.openings n = openings { m with events } n +
      (decide (report.worker = n) && report.event.isOpened).toNat := by
  rw [openings, he, countP_cons]
  cases decide (report.worker = n) && report.event.isOpened <;> rfl

variable (h : m.OpensOnce)
include h

theorem OpensOnce.takeEvent (he : m.events = report :: events) : OpensOnce { m with events } := by
  intro n w hw
  have hold := h n w hw
  have hn := openings_cons he n
  have hl : learnt { m with events } n w = m.learnt n w := rfl
  rw [hl]
  omega

theorem OpensOnce.setFlow (he : m.events = report :: events) (ho : report.event.isOpened = true)
    (hh : m.flows.get? key = some handle) (hwr : handle.worker = report.worker) (flow : FlowKey) :
    ({ m with events }.setFlow key flow).OpensOnce := by
  intro n w hw
  have hold := h n w hw
  rw [openings_cons he n, ho, Bool.and_true] at hold
  by_cases hn : report.worker = n
  · have hl := Bool.toNat_le (({ m with events }.setFlow key flow).learnt n w)
    have hq : ({ m with events }.setFlow key flow).openings n = openings { m with events } n := rfl
    rw [decide_eq_true hn, Bool.toNat_true] at hold
    omega
  have hl : ({ m with events }.setFlow key flow).learnt n w = true → m.learnt n w = true := by
    simp only [learnt, flows_setFlow]
    split_ifs with hk
    · rw [hk, hh]
      simp [hwr, hn]
    · exact id
  have hle := Bool.toNat_le_toNat hl
  rw [decide_eq_false hn] at hold
  exact (Nat.add_le_add_left hle _).trans hold

theorem OpensOnce.onEvent (hc : m.Coherent) (hb : m.workers.length ≤ period)
    (he : m.events = report :: events) :
    ({ m with events }.onEvent report.event).OpensOnce := by
  have ht := h.takeEvent he
  obtain ⟨sender, hsn, hs⟩ := hc.sent _ (he ▸ mem_cons_self)
  unfold UdpManager.onEvent
  split
  · rename_i key generation flow handle hev hh
    rw [hev] at hs hh
    have hl : handle.generation = generation →
        ({ m with events }.setFlow key _).OpensOnce := fun hg =>
      h.setFlow he (by rw [hev]; rfl) hh (hc.sender hb hsn hs hh hg) flow
    split_ifs with hg
    · exact (hl hg).relabel (relabels_cancel _) rfl rfl
    · exact hl hg
    · exact ht
  · split_ifs
    · exact ht.forget _
    · exact ht
  · exact ht

theorem OpensOnce.progress (hw : m.workers[n]? = some w) {phase : WorkerPhase}
    {reports : List Report} (hs : phase ≠ .opening)
    (ho : reports.countP (·.event.isOpened) ≤ (decide (w.phase = .opening)).toNat)
    (hwr : ∀ report ∈ reports, report.worker = n) :
    OpensOnce { m with
      workers := m.workers.set n { w with phase }
      events := m.events ++ reports } := by
  intro i now hnow
  rw [List.getElem?_set] at hnow
  have hl : ∀ w', learnt { m with
      workers := m.workers.set n { w with phase }
      events := m.events ++ reports } i w' = m.learnt i w' := fun _ => rfl
  rw [openings, countP_append, hl]
  split_ifs at hnow with hi
  · cases hnow
    subst hi
    have hold := h n w hw
    have hrp : reports.countP (fun report => report.worker = n && report.event.isOpened) ≤
        reports.countP (·.event.isOpened) :=
      countP_mono_left fun report _ hr => (Bool.and_eq_true _ _ ▸ hr).2
    have hsm : m.learnt n { w with phase } = m.learnt n w := rfl
    rw [openings] at hold
    rw [hsm, decide_eq_false hs, Bool.toNat_false]
    omega
  · have hn : reports.countP (fun report => report.worker = i && report.event.isOpened) = 0 :=
      countP_eq_zero.mpr fun report hr => by simp [hwr _ hr, hi]
    rw [hn]
    exact h i now hnow

theorem OpensOnce.select {input : Input} (hc : m.Coherent) (hb : m.workers.length ≤ period)
    (hs : Selects m input m') : m'.OpensOnce := by
  cases hs with
  | ports => exact h
  | stop _ ingressOpen commandOpen =>
    exact OpensOnce.stop (m := { m with ingressOpen, commandOpen }) h
  | spawn _ key => exact h.spawnUdpFlow hc key
  | replace _ key handle =>
    exact ((h.forget key).relabel (relabels_cancel handle.worker) rfl rfl).spawnUdpFlow
      ((hc.forget key).cancel handle.worker) key
  | closeFlow _ _ ord => exact h.closeFlow ord _ _
  | closeSession _ sessionId => exact h.relabel (relabels_closeSession _) rfl rfl
  | event _ _ _ he => exact h.onEvent hc hb he

theorem OpensOnce.work (hwr : Works m m') : m'.OpensOnce := by
  cases hwr with
  | idle => exact h
  | progress _ _ hw _ _ _ hs _ ho hr =>
    exact h.progress hw hs ho fun report hrp => (hr _ hrp).1

theorem OpensOnce.step (hc : m.Coherent) (hb : m.workers.length ≤ period) (inboundId : String)
    (a : Input) :
    (m.step inboundId a).OpensOnce := by
  unfold UdpManager.step
  split_ifs
  · exact (h.select hc hb (selects_select _ a)).work (works_work a)
  · exact h.work (works_work a)

theorem OpensOnce.unlearnt (hc : m.Coherent) {r : Report} {ev : List Report}
    (he : m.events = r :: ev) (ho : r.event.isOpened = true) (hh : m.flows.get? key = some handle)
    (hwr : handle.worker = r.worker) : handle.flow = none := by
  obtain ⟨w, hw, rfl, -⟩ := hc.worker key _ hh
  have hold := h handle.worker w hw
  rw [openings_cons he, ho, decide_eq_true hwr.symm] at hold
  have hu : m.learnt handle.worker w = false := by
    cases hl : m.learnt handle.worker w with
    | false => rfl
    | true =>
      rw [hl] at hold
      simp at hold
  simpa [learnt, hh] using hu

end

/-- What becomes of the closes in a state: a worker that reports a flow which it has been asked
to close is cancelled then, unless it has already been replaced after its end; only such a
worker is cancelled by a report, and only a worker that has the flow by a close. -/
structure KeepsCloses (inboundId : String) (m : UdpManager) : Prop where
  cancelled : ∀ (n : ℕ) key generation flow events w, m.running = true →
    m.events = ⟨n, .opened key generation flow⟩ :: events → m.workers[n]? = some w →
    flow ∈ w.asked → ∃ w', (m.step inboundId .event).workers[n]? = some w' ∧
      (w'.cancelled = true ∨ w'.phase.hasEnded = true ∧
        ∀ handle, m.flows.get? key = some handle → handle.worker ≠ n)
  spared : ∀ (n : ℕ) key generation flow events (i : ℕ) w', m.running = true →
    m.events = ⟨n, .opened key generation flow⟩ :: events →
    (m.step inboundId .event).workers[i]? = some w' → w'.cancelled = true →
    ∃ w, m.workers[i]? = some w ∧ (w.cancelled = true ∨ i = n ∧ flow ∈ w.asked)
  selective : ∀ sessionId flow ord (i : ℕ) w', m.running = true → m.commandOpen = true →
    (m.step inboundId (.command (.closeFlow sessionId flow) ord)).workers[i]? = some w' →
    w'.cancelled = true → ∃ w, m.workers[i]? = some w ∧ (w.cancelled = true ∨
      ∃ handle, m.flows.get? w.key = some handle ∧ handle.worker = i ∧
        handle.sessionId = sessionId ∧ handle.flow = some flow)

variable {g sessionId : UInt64}

theorem onEvent_opened (hh : m.flows.get? key = some handle) (hg : handle.generation = g) :
    m.onEvent (.opened key g flow) =
      if m.pendingClose.get? key = some flow then (m.setFlow key flow).cancel handle.worker
      else m.setFlow key flow := by
  simp [onEvent, UdpFlowEvent.key, hh, hg]

theorem relabels_onEvent (ev : UdpFlowEvent) : Relabels m (m.onEvent ev) := by
  have hs : ∀ key flow, Relabels m (m.setFlow key flow) := fun _ _ => Relabels.of_workers rfl
  unfold onEvent
  split
  · split_ifs
    · exact (hs _ _).trans (relabels_cancel _)
    · exact hs _ _
    · exact Relabels.of_workers rfl
  · split_ifs
    · exact Relabels.of_workers rfl
    · exact Relabels.of_workers rfl
  · exact Relabels.of_workers rfl

theorem getElem?_cancel (wr : ℕ) : (m.cancel wr).workers[n]? = (m.workers[n]?).map fun w =>
      if wr = n then { w with cancelled := true } else w := by
  rw [cancel, List.getElem?_modify, Option.map_eq_map]

theorem Attentive.cancelled_onEvent (h : m.Attentive) (hch : m.Coherent)
    (hw : m.workers[n]? = some w)
    (hsn : w.Sends (.opened key g flow)) (hh : m.flows.get? key = some handle)
    (hwr : handle.worker = n) (ho : handle.flow = none) (ha : flow ∈ w.asked) :
    ∃ w', (m.onEvent (.opened key g flow)).workers[n]? = some w' ∧ w'.cancelled = true := by
  subst hwr
  obtain ⟨rfl, rfl, hs⟩ := hsn
  obtain ⟨owner, hown, -, hg⟩ := hch.worker _ handle hh
  obtain rfl := Option.some.inj (hw.symm.trans hown)
  rcases (h _ handle w hh ho hw).1 with hc | hp
  · obtain ⟨w', hw', -, hst⟩ := (relabels_onEvent (.opened w.key w.generation _)).worker _ w hw
    exact ⟨w', hw', hst hc⟩
  · rw [onEvent_opened hh hg.symm, if_pos (hp _ ha hs), getElem?_cancel]
    exact ⟨{ w with cancelled := true }, by simp [UdpManager.setFlow, hw], rfl⟩

theorem Attentive.spared_onEvent (h : m.Attentive)
    (hsn : ∀ k, m.flows.get? key = some k → k.generation = g → k.worker = n ∧ k.flow = none) {i : ℕ}
    (hw' : (m.onEvent (.opened key g flow)).workers[i]? = some w') (hc : w'.cancelled = true) :
    ∃ w, m.workers[i]? = some w ∧ (w.cancelled = true ∨ i = n ∧ flow ∈ w.asked) := by
  by_cases hs : ∀ k, m.flows.get? key = some k → k.generation ≠ g
  · rw [onEvent_of_stale hs] at hw'
    exact ⟨w', hw', .inl hc⟩
  push Not at hs
  obtain ⟨k, hh, hg⟩ := hs
  obtain ⟨rfl, ho⟩ := hsn k hh hg
  rw [onEvent_opened hh hg] at hw'
  split_ifs at hw' with hp
  · rw [getElem?_cancel, Option.map_eq_some_iff] at hw'
    obtain ⟨w, hw, rfl⟩ := hw'
    refine ⟨w, hw, ?_⟩
    split_ifs at hc with hi
    · exact .inr ⟨hi.symm, (h key k w hh ho (hi ▸ hw)).2 _ hp⟩
    · exact .inl hc
  · exact ⟨w', hw', .inl hc⟩

theorem ask_worker (hw' : (m.ask sessionId flow).workers[n]? = some w') :
    ∃ w, m.workers[n]? = some w ∧ w'.key = w.key ∧ w'.cancelled = w.cancelled := by
  simp only [ask, onWorkers, List.getElem?_mapIdx, Option.map_eq_some_iff] at hw'
  obtain ⟨w, hw, rfl⟩ := hw'
  refine ⟨w, hw, ?_⟩
  split_ifs
  · exact ⟨rfl, rfl⟩
  · exact ⟨rfl, rfl⟩

theorem Coherent.selective_closeFlow (h : m.Coherent)
    {ord : IterOrder} (hw' : (m.closeFlow ord sessionId flow).workers[n]? = some w')
    (hc : w'.cancelled = true) :
    ∃ w, m.workers[n]? = some w ∧ (w.cancelled = true ∨ ∃ k,
      m.flows.get? w.key = some k ∧ k.worker = n ∧ k.sessionId = sessionId ∧
        k.flow = some flow) := by
  have hask := h.ask sessionId flow
  obtain ⟨a, ha, -, -⟩ := closeFlow_worker hw'
  obtain ⟨w, hw, hk, hs⟩ := ask_worker ha
  refine ⟨w, hw, ?_⟩
  unfold UdpManager.closeFlow at hw'
  dsimp only at hw'
  split_ifs at hw'
  · obtain rfl := Option.some.inj (hw'.symm.trans (hask.getElem?_onWorkers _ _ ha))
    split_ifs at hc with hany
    · obtain ⟨k, hh, ho⟩ := (Option.any_eq_true _ _).mp hany
      simp only [owns, Bool.and_eq_true, decide_eq_true_eq] at ho
      exact .inr ⟨k, hk ▸ hh, ho.2, ho.1⟩
    · exact .inl (hs ▸ hc)
  · have hs' : a = w' := by split at hw' <;> exact Option.some.inj (ha.symm.trans hw')
    exact .inl (by rw [← hs, hs', hc])

theorem attentive_after (inboundId : String) (inp : List Input)
    (hc : Run.Meets (step inboundId) (fun m a => m.clear a = true) new inp) :
    (after inboundId inp).Attentive := by
  have hr : (after _ inp).Coherent ∧ (after _ inp).Attentive :=
    Run.invariant (step _) (P := fun m => m.Coherent ∧ m.Attentive)
      (fun m a h hc => ⟨h.1.step _ a, h.2.step h.1 _ hc⟩) inp
      new ⟨coherent_new, fun _ k w hh => by cases hh⟩ hc
  exact hr.2

/-- In every run in which every close finds at most one opening worker of its session and source,
with its slot free, and no other worker that has the flow, no close is lost and no other worker
is cancelled. -/
theorem udpManager_keeps_closes (inboundId : String) (inputs : List Input)
    (hclear : Run.Meets (step inboundId) (fun m input => m.clear input = true) new inputs)
    (hspawned : (after inboundId inputs).workers.length < 2 ^ 64) :
    KeepsCloses inboundId (after inboundId inputs) := by
  have hb := Nat.le_pred_of_lt hspawned
  have hc := coherent_after inboundId inputs
  have hat := attended_after inboundId inputs hb
  have ha := attentive_after inboundId inputs hclear
  have ho : (after inboundId inputs).OpensOnce :=
    bounded_after inboundId (fun h hc hb a => h.step hc hb inboundId a)
      (fun n w hw => by cases hw) inputs hb
  generalize after inboundId inputs = m at hb hc hat ha ho
  refine ⟨fun n key generation flow events w hr he hw hask => ?_,
    fun n key generation flow events i w' hr he hw' hcn => ?_,
    fun sessionId flow ord i w' hr hopen hw' hcn => ?_⟩
  · rw [step_event hr he]
    obtain ⟨sender, hsn, hs⟩ := hc.sent _ (he ▸ mem_cons_self)
    obtain rfl := Option.some.inj (hsn.symm.trans hw)
    by_cases hcr : ∃ handle, m.flows.get? key = some handle ∧ handle.worker = n
    · obtain ⟨handle, hh, hwr⟩ := hcr
      have hopn := ho.unlearnt hc he rfl hh hwr
      obtain ⟨w', hw', hcn⟩ := Attentive.cancelled_onEvent (m := { m with events })
        ha (hc.takeEvents (he ▸ subset_cons_self _ _)) hw hs hh
        hwr hopn hask
      exact ⟨w', hw', .inl hcn⟩
    obtain ⟨w', hw', hi, hst⟩ := (relabels_onEvent (m := { m with events }) _).worker n sender hw
    refine ⟨w', hw', ?_⟩
    rcases hat n sender hw with hcn | hen | ⟨handle, hh, hwr⟩
    · exact .inl (hst hcn)
    · exact .inr ⟨Worker.phase_eq hi ▸ hen, fun handle hh hwr => hcr ⟨handle, hh, hwr⟩⟩
    · exact absurd ⟨handle, hs.1 ▸ hh, hwr⟩ hcr
  · rw [step_event hr he] at hw'
    obtain ⟨sender, hsn, hs⟩ := hc.sent _ (he ▸ mem_cons_self)
    refine Attentive.spared_onEvent (m := { m with events }) ha (fun handle hh hg => ?_) hw' hcn
    have hwr := hc.sender hb hsn hs hh hg
    exact ⟨hwr, ho.unlearnt hc he rfl hh hwr⟩
  · have hcl : (m.closeFlow ord sessionId flow).workers[i]? = some w' := by
      simpa [step, hr, select, hopen, work] using hw'
    exact hc.selective_closeFlow hcl hcn

def exampleTarget (port : UInt16) : FlowKey := ⟨.udp, exampleAddr 5000, exampleAddr port⟩

def exampleClose : List Input :=
  [.ingress (examplePacket none) true, .command (.closeFlow 1 (exampleTarget 53)) .stored,
    .opened 0 (exampleTarget 53)]

theorem udpManager_keeps_closes_opening : ∃ w',
    ((after "tun" exampleClose).step "tun" .event).workers[0]? = some w' ∧
      (w'.cancelled = true ∨ w'.phase.hasEnded = true ∧ ∀ handle,
        (after "tun" exampleClose).flows.get? ⟨"tun", 1, exampleAddr 5000, none⟩ = some handle →
          handle.worker ≠ 0) :=
  (udpManager_keeps_closes "tun" exampleClose (by decide +kernel) (by decide +kernel)).cancelled 0
    ⟨"tun", 1, exampleAddr 5000, none⟩ 1 (exampleTarget 53) []
    ⟨⟨"tun", 1, exampleAddr 5000, none⟩, 1, .opened, false, [exampleTarget 53]⟩
    (by decide +kernel) (by decide +kernel) (by decide +kernel) (by decide +kernel)

def closes (m : UdpManager) : List (List FlowKey × Bool × WorkerPhase) :=
  m.workers.map fun w => (w.asked, w.cancelled, w.phase)

/-- A second close takes the slot of the worker; and of two workers of a source the close is
parked on the one that does not open the flow. In both runs the worker that has reported the
flow goes on. -/
theorem udpManager_loses_closes : (after "tun" [.ingress (examplePacket none) true,
      .command (.closeFlow 1 (exampleTarget 53)) .stored,
      .command (.closeFlow 1 (exampleTarget 80)) .stored,
      .opened 0 (exampleTarget 53), .event]).closes =
      [([exampleTarget 80, exampleTarget 53], false, .opened)] ∧
    (after "tun" [.ingress (examplePacket none) true,
      .ingress (examplePacket (some (Vector.replicate 32 1))) true,
      .command (.closeFlow 1 (exampleTarget 53)) .stored,
      .opened 0 (exampleTarget 53), .event]).closes =
      [([exampleTarget 53], false, .opened), ([exampleTarget 53], false, .opening)] := by
  decide +kernel

end UdpManager

end Doradus
