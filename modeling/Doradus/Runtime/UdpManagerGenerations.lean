import Doradus.Runtime.UdpManager

/-!
# Generations of UDP flow workers

The handle under a key and the events under the key are told apart by their generation, which
is the number of the worker until the counter wraps around. Until then an event of a worker
that has been replaced does nothing, and every worker that has neither ended nor been
cancelled has its handle in the map.
-/

namespace Doradus

open UdpManager Option AssocMap

namespace UdpManager

def period : ℕ := 2 ^ 64 - 1

structure Coherent (m : UdpManager) : Prop where
  session : ∀ key handle, m.flows.get? key = some handle → handle.sessionId = key.sessionId
  worker : ∀ key handle, m.flows.get? key = some handle →
    ∃ w, m.workers[handle.worker]? = some w ∧ w.key = key ∧ w.generation = handle.generation
  generation : ∀ (n : ℕ) (w : Worker), m.workers[n]? = some w → w.generation.toNat = n % period + 1
  next : m.nextGeneration.toNat = m.workers.length % period + 1
  pending : ∀ key flow, m.pendingClose.get? key = some flow →
    ∃ handle, m.flows.get? key = some handle ∧ handle.flow = none
  sent : ∀ report ∈ m.events, ∃ w : Worker, m.workers[report.worker]? = some w ∧
    w.Sends report.event

/-- Every worker has been cancelled or has ended, or its handle is in the map. -/
def Attended (m : UdpManager) : Prop :=
  ∀ (n : ℕ) (w : Worker), m.workers[n]? = some w → w.cancelled = true ∨ w.phase.hasEnded = true ∨
    ∃ handle, m.flows.get? w.key = some handle ∧ handle.worker = n

variable {m m' : UdpManager} {key : UdpSourceKey} {handle : UdpFlowHandle} {flow : FlowKey}
  {n : ℕ} {w w' : Worker}

section

theorem Coherent.relabel (h : m.Coherent) (hwr : Relabels m m') (hf : m'.flows = m.flows)
    (hp : ∀ key flow, m'.pendingClose.get? key = some flow →
      ∃ k, m.flows.get? key = some k ∧ k.flow = none)
    (hn : m'.nextGeneration = m.nextGeneration) (he : m'.events ⊆ m.events) :
    m'.Coherent where
  session key k hh := h.session key k (hf ▸ hh)
  worker key k hh := by
    obtain ⟨w, hw, hk, hg⟩ := h.worker key k (hf ▸ hh)
    obtain ⟨w', hw', hi, -⟩ := hwr.worker _ w hw
    exact ⟨w', hw', (Worker.key_eq hi).trans hk, (Worker.generation_eq hi).trans hg⟩
  generation n w' hw' := by
    obtain ⟨w, hw, hi, -⟩ := hwr.before hw'
    rw [Worker.generation_eq hi]
    exact h.generation n w hw
  next := by rw [hn, hwr.length, h.next]
  pending key flow hfl := hf ▸ hp key flow hfl
  sent report hr := by
    obtain ⟨w, hw, hs⟩ := h.sent _ (he hr)
    obtain ⟨w', hw', hi, -⟩ := hwr.worker _ w hw
    exact ⟨w', hw', hs.of_eq (Worker.key_eq hi) (Worker.generation_eq hi)
      (Worker.phase_eq hi).trans⟩

theorem Coherent.forget (h : m.Coherent) (key : UdpSourceKey) : (m.forget key).Coherent where
  session other handle hh := by
    rw [flows_forget] at hh
    split_ifs at hh
    exact h.session _ _ hh
  worker other handle hh := by
    rw [flows_forget] at hh
    split_ifs at hh
    exact h.worker _ _ hh
  generation := h.generation
  next := h.next
  pending other flow hf := by
    rw [pendingClose_forget] at hf
    rw [flows_forget]
    split_ifs at hf ⊢
    exact h.pending _ _ hf
  sent := h.sent

theorem toNat_following {g : UInt64} (h : g.toNat = n % period + 1) :
    (following g).toNat = (n + 1) % period + 1 := by
  have ha : (g + 1).toNat = (g.toNat + 1) % 2 ^ 64 := UInt64.toNat_add ..
  have hz : g + 1 = 0 ↔ (g + 1).toNat = 0 := UInt64.toNat_inj.symm
  unfold following period at *
  split_ifs with hw
  · rw [hz] at hw
    rw [UInt64.toNat_one]
    omega
  · rw [hz] at hw
    omega

variable (h : m.Coherent)
include h

theorem Coherent.spawnUdpFlow (key : UdpSourceKey) : (m.spawnUdpFlow key).Coherent where
  session other handle hh := by
    rw [UdpManager.spawnUdpFlow, get?_insert] at hh
    split_ifs at hh with hk
    · cases hh
      rw [hk]
    · exact h.session _ _ hh
  worker other handle hh := by
    rw [UdpManager.spawnUdpFlow, get?_insert] at hh
    split_ifs at hh with hk
    · cases hh
      exact ⟨_, List.getElem?_concat_length, hk.symm, rfl⟩
    · obtain ⟨w, hw, hi⟩ := h.worker _ _ hh
      exact ⟨w, List.getElem?_append_left (List.getElem?_eq_some_iff.mp hw).1 ▸ hw, hi⟩
  generation n w hw := by
    rw [UdpManager.spawnUdpFlow, List.getElem?_append] at hw
    split_ifs at hw with hlt
    · exact h.generation n w hw
    rw [List.getElem?_singleton] at hw
    split_ifs at hw with hz
    cases hw
    have hn : n = m.workers.length := by omega
    rw [hn]
    exact h.next
  next := by
    rw [UdpManager.spawnUdpFlow, List.length_append]
    exact toNat_following h.next
  pending other flow hf := by
    rw [UdpManager.spawnUdpFlow, get?_insert]
    split_ifs with hk
    · exact ⟨_, rfl, rfl⟩
    · exact h.pending _ _ hf
  sent report hr := by
    obtain ⟨w, hw, hs⟩ := h.sent _ hr
    exact ⟨w, List.getElem?_append_left (List.getElem?_eq_some_iff.mp hw).1 ▸ hw, hs⟩

theorem Coherent.setFlow (key : UdpSourceKey) (flow : FlowKey) : (m.setFlow key flow).Coherent where
  session other handle hh := by
    rw [flows_setFlow] at hh
    split_ifs at hh
    · obtain ⟨b, hb, rfl⟩ := map_eq_some_iff.mp hh
      exact h.session _ b hb
    · exact h.session _ _ hh
  worker other handle hh := by
    rw [flows_setFlow] at hh
    split_ifs at hh
    · obtain ⟨b, hb, rfl⟩ := map_eq_some_iff.mp hh
      exact h.worker _ b hb
    · exact h.worker _ _ hh
  generation := h.generation
  next := h.next
  pending other pending hp := by
    rw [pendingClose_setFlow] at hp
    split_ifs at hp with hk
    rw [flows_setFlow, if_neg hk]
    exact h.pending _ _ hp
  sent := h.sent

theorem Coherent.progress (hw : m.workers[n]? = some w) (hph : w.phase ≠ .reported)
    (phase : WorkerPhase) (reports : List Report)
    (hrp : ∀ report ∈ reports, report.worker = n ∧ Worker.Sends { w with phase } report.event) :
    Coherent { m with
      workers := m.workers.set n { w with phase }
      events := m.events ++ reports } := by
  have hlt := (List.getElem?_eq_some_iff.mp hw).1
  have hk : ∀ (i : ℕ) (before : Worker), m.workers[i]? = some before → ∃ now : Worker,
      (m.workers.set n { w with phase })[i]? = some now ∧ now.key = before.key ∧
        now.generation = before.generation ∧ (now.phase = before.phase ∨ before = w) := by
    intro i before hb
    by_cases hi : n = i
    · subst hi
      obtain rfl := some.inj (hw.symm.trans hb)
      exact ⟨_, List.getElem?_set_self hlt, rfl, rfl, .inr rfl⟩
    · exact ⟨before, by rw [List.getElem?_set_ne hi, hb], rfl, rfl, .inl rfl⟩
  refine ⟨h.session, fun key handle hh => ?_, fun i now hn => ?_, ?_, h.pending,
    fun report hre => ?_⟩
  · obtain ⟨before, hb, hkey, hg⟩ := h.worker key _ hh
    obtain ⟨now, hn, hkey', hg', -⟩ := hk _ before hb
    exact ⟨now, hn, hkey'.trans hkey, hg'.trans hg⟩
  · have hb : i < m.workers.length := by simpa using (List.getElem?_eq_some_iff.mp hn).1
    obtain ⟨found, hf, -, hg, -⟩ := hk i _ (List.getElem?_eq_getElem hb)
    obtain rfl := some.inj (hf.symm.trans hn)
    rw [hg]
    exact h.generation i _ (List.getElem?_eq_getElem hb)
  · rw [List.length_set]
    exact h.next
  rcases List.mem_append.mp hre with hold | hnew
  · obtain ⟨before, hb, hs⟩ := h.sent _ hold
    obtain ⟨now, hn, hkey, hg, hp⟩ := hk _ before hb
    refine ⟨now, hn, hs.of_eq hkey hg fun hr => ?_⟩
    rcases hp with hsm | rfl
    · exact hsm.trans hr
    · exact absurd hr hph
  · obtain ⟨hwr, hs⟩ := hrp _ hnew
    exact ⟨_, by rw [hwr]; exact List.getElem?_set_self hlt, hs⟩

end

variable {events : List Report} {input : Input} {ev : UdpFlowEvent}

section

variable (h : m.Coherent)
include h

theorem Coherent.cancel (wr : ℕ) : (m.cancel wr).Coherent :=
  h.relabel (relabels_cancel wr) rfl h.pending rfl (List.Subset.refl _)

theorem Coherent.cancelAll (p : UdpFlowHandle → Bool) : (m.cancelAll p).Coherent :=
  h.relabel (relabels_cancelAll p) rfl h.pending rfl (List.Subset.refl _)

theorem Coherent.stop : m.stop.Coherent := by
  have hc := h.cancelAll fun _ => true
  exact ⟨by simp [UdpManager.stop], by simp [UdpManager.stop], hc.generation,
    hc.next, by simp [UdpManager.stop], hc.sent⟩

theorem Coherent.ask (sessionId : UInt64) (flow : FlowKey) : (m.ask sessionId flow).Coherent :=
  h.relabel (relabels_ask sessionId flow) rfl h.pending rfl (List.Subset.refl _)

theorem Coherent.closeFlow (ord : IterOrder) (sessionId : UInt64) (flow : FlowKey) :
    (m.closeFlow ord sessionId flow).Coherent := by
  have ha := h.ask sessionId flow
  unfold UdpManager.closeFlow
  dsimp only
  split_ifs
  · exact ha.cancelAll _
  split
  · rename_i key hk
    refine ha.relabel (Relabels.of_workers rfl) rfl (fun o p hp => ?_) rfl (List.Subset.refl _)
    rw [get?_insert] at hp
    split_ifs at hp with hot
    · obtain ⟨-, k, hh, -, ho⟩ := openingWorkerKey_spec hk
      exact ⟨k, hot ▸ hh, ho⟩
    · exact ha.pending o p hp
  · exact ha

theorem Coherent.closeSession (sessionId : UInt64) : (m.closeSession sessionId).Coherent := by
  refine h.relabel (relabels_closeSession _) rfl (fun key flow hf => ?_) rfl
    (List.Subset.refl _)
  rw [UdpManager.closeSession, get?_retain, filter_eq_some_iff] at hf
  exact h.pending key _ hf.1

theorem Coherent.takeEvents (he : events ⊆ m.events) : Coherent { m with events } :=
  h.relabel (Relabels.of_workers rfl) rfl h.pending rfl he

theorem Coherent.onEvent (ev : UdpFlowEvent) : (m.onEvent ev).Coherent := by
  unfold UdpManager.onEvent
  split
  · split_ifs
    · exact (h.setFlow _ _).cancel _
    · exact h.setFlow _ _
    · exact h
  · split_ifs
    · exact h.forget _
    · exact h
  · exact h

theorem Coherent.select (hs : Selects m input m') : m'.Coherent := by
  cases hs with
  | ports => exact ⟨h.1, h.2, h.3, h.4, h.5, h.6⟩
  | stop => exact Coherent.stop ⟨h.1, h.2, h.3, h.4, h.5, h.6⟩
  | spawn _ key => exact h.spawnUdpFlow key
  | replace _ key handle => exact ((h.forget key).cancel handle.worker).spawnUdpFlow key
  | closeFlow _ _ ord => exact h.closeFlow ord _ _
  | closeSession _ sessionId => exact h.closeSession _
  | event _ report _ he =>
    exact (h.takeEvents (he ▸ List.subset_cons_self _ _)).onEvent report.event

theorem Coherent.work (hwr : Works m m') : m'.Coherent := by
  cases hwr with
  | idle => exact h
  | progress _ _ hw _ _ hp _ _ _ hr => exact h.progress hw hp _ _ hr

theorem Coherent.step (inboundId : String) (a : Input) : (m.step inboundId a).Coherent := by
  unfold UdpManager.step
  split_ifs
  · exact (h.select (selects_select _ a)).work (works_work a)
  · exact h.work (works_work a)

end

theorem coherent_new : new.Coherent := by
  refine ⟨?_, ?_, ?_, rfl, ?_, ?_⟩ <;> simp [new]

theorem Worker.Sends.generation (h : w.Sends ev) : ev.generation = w.generation := by
  cases ev with
  | opened | closed => exact h.2.1

theorem Coherent.sender (h : m.Coherent) (hb : m.workers.length ≤ period)
    (hw : m.workers[n]? = some w) (hs : w.Sends ev)
    (hh : m.flows.get? key = some handle) (hg : handle.generation = ev.generation) :
    handle.worker = n := by
  obtain ⟨o, hown, -, ho⟩ := h.worker key _ hh
  have hn := (List.getElem?_eq_some_iff.mp hown).1
  have hi := (List.getElem?_eq_some_iff.mp hw).1
  have heq := h.generation _ _ hown
  rw [ho, hg, hs.generation, h.generation n w hw, Nat.mod_eq_of_lt (by omega),
    Nat.mod_eq_of_lt (by omega)] at heq
  omega

section

variable (h : m.Attended)
include h

theorem Attended.relabel (hwr : Relabels m m') (hf : m'.flows = m.flows) : m'.Attended := by
  intro n _ hw'
  obtain ⟨w, hw, hi, hc⟩ := hwr.before hw'
  rw [hf, Worker.key_eq hi, Worker.phase_eq hi]
  exact (h n w hw).imp_left hc

theorem Attended.forget (hh : m.flows.get? key = some handle)
    (hd : ∀ w : Worker, m.workers[handle.worker]? = some w →
      w.cancelled = true ∨ w.phase.hasEnded = true) :
    (m.forget key).Attended := by
  intro n w hw
  rcases h n w hw with hc | he | ⟨other, ho, rfl⟩
  · exact .inl hc
  · exact .inr (.inl he)
  by_cases hk : w.key = key
  · obtain rfl : handle = other := by
      rw [hk] at ho
      exact some.inj (hh.symm.trans ho)
    exact (hd w hw).imp_right .inl
  · exact .inr (.inr ⟨other, by rw [flows_forget, if_neg hk, ho], rfl⟩)

theorem Attended.spawnUdpFlow (hk : m.flows.get? key = none) : (m.spawnUdpFlow key).Attended := by
  intro n w hw
  rw [UdpManager.spawnUdpFlow, List.getElem?_append] at hw
  split_ifs at hw with hlt
  · refine (h n w hw).imp_right (Or.imp_right ?_)
    rintro ⟨k, hh, rfl⟩
    refine ⟨k, ?_, rfl⟩
    rw [UdpManager.spawnUdpFlow, get?_insert_of_ne, hh]
    rintro rfl
    cases hk.symm.trans hh
  · rw [List.getElem?_singleton] at hw
    split_ifs at hw
    cases hw
    exact .inr (.inr ⟨_, get?_insert_self _ _ _, by dsimp only; omega⟩)

theorem Attended.setFlow (key : UdpSourceKey) (flow : FlowKey) : (m.setFlow key flow).Attended := by
  intro n w hw
  refine (h n w hw).imp_right (Or.imp_right ?_)
  rintro ⟨k, hh, rfl⟩
  rw [flows_setFlow]
  split_ifs
  · exact ⟨{ k with flow := some flow }, by rw [hh]; rfl, rfl⟩
  · exact ⟨k, hh, rfl⟩

theorem Attended.progress (hw : m.workers[n]? = some w) (phase : WorkerPhase)
    (hp : w.phase.hasEnded = true → phase.hasEnded = true) (events : List Report) :
    Attended { m with workers := m.workers.set n { w with phase }, events } := by
  intro i now hn
  rw [List.getElem?_set] at hn
  split_ifs at hn with hi hlt
  · cases hn
    subst hi
    exact (h n w hw).imp_right (Or.imp_left hp)
  · exact h i now hn

theorem Attended.stop : m.stop.Attended := by
  intro n _ hw'
  obtain ⟨w, hw, hi, hc⟩ := (relabels_cancelAll (m := m) fun _ => true).before hw'
  rcases h n w hw with hb | he | ⟨handle, hh, rfl⟩
  · exact .inl (hc hb)
  · exact .inr (.inl (Worker.phase_eq hi ▸ he))
  · exact .inl (cancelled_cancelAll (p := fun _ => true) hh rfl hw')

theorem Attended.closeFlow (ord : IterOrder) (sessionId : UInt64)
    (flow : FlowKey) : (m.closeFlow ord sessionId flow).Attended := by
  have ha := h.relabel (relabels_ask sessionId flow) rfl
  unfold UdpManager.closeFlow
  dsimp only
  split_ifs
  · exact ha.relabel (relabels_cancelAll _) rfl
  · split
    · exact ha
    · exact ha

theorem Attended.closeSession (sessionId : UInt64) : (m.closeSession sessionId).Attended :=
  h.relabel (relabels_closeSession sessionId) rfl

theorem Attended.onEvent (hc : m.Coherent)
    (hb : m.workers.length ≤ period) (hw : m.workers[n]? = some w)
    (hs : w.Sends ev) : (m.onEvent ev).Attended := by
  unfold UdpManager.onEvent
  split
  · split_ifs
    · exact (h.setFlow _ _).relabel (relabels_cancel _) rfl
    · exact h.setFlow _ _
    · exact h
  · rename_i key g k hh
    split_ifs with hg
    · refine h.forget hh fun o ho => .inr ?_
      rw [hc.sender hb hw hs hh hg, hw] at ho
      cases ho
      rw [hs.2.2, WorkerPhase.hasEnded]
    · exact h
  · exact h

theorem Attended.select (hc : m.Coherent)
    (hb : m.workers.length ≤ period) (hs : Selects m input m') : m'.Attended := by
  cases hs with
  | ports => exact h
  | stop _ ingressOpen commandOpen =>
    exact Attended.stop (m := { m with ingressOpen, commandOpen }) h
  | spawn _ _ hn => exact h.spawnUdpFlow hn
  | replace _ _ handle hh hen =>
    have her := h.forget hh fun w hw => .inr (by simpa [accepts, hw] using hen)
    exact (her.relabel (relabels_cancel handle.worker) rfl).spawnUdpFlow (get?_erase_self _ _)
  | closeFlow _ _ ord => exact h.closeFlow ord _ _
  | closeSession _ sessionId => exact h.closeSession _
  | event _ report events he =>
    obtain ⟨w, hw, hsn⟩ := hc.sent _ (he ▸ List.mem_cons_self)
    exact Attended.onEvent (m := { m with events }) h
      (hc.takeEvents (he ▸ List.subset_cons_self _ _)) hb hw hsn

theorem Attended.work (hwr : Works m m') : m'.Attended := by
  cases hwr with
  | idle => exact h
  | progress _ _ hw _ _ _ _ he => exact h.progress hw _ he _

theorem Attended.step (hc : m.Coherent)
    (hb : m.workers.length ≤ period) (inboundId : String) (a : Input) :
    (m.step inboundId a).Attended := by
  unfold UdpManager.step
  split_ifs
  · exact (h.select hc hb (selects_select _ a)).work (works_work a)
  · exact h.work (works_work a)

end

theorem coherent_after (inboundId : String) (inp : List Input) : (after inboundId inp).Coherent :=
  Run.invariant_of_forall _ (fun _ a h => h.step inboundId a) inp new coherent_new

theorem bounded_after (inboundId : String) {P : UdpManager → Prop}
    (hst : ∀ {m : UdpManager}, P m → m.Coherent → m.workers.length ≤ period →
      ∀ a, P (m.step inboundId a)) (hn : P new) (inp : List Input)
    (hbn : (after inboundId inp).workers.length ≤ period) : P (after inboundId inp) := by
  have hr : (after inboundId inp).Coherent ∧
      ((after inboundId inp).workers.length ≤ period → P (after inboundId inp)) := by
    refine Run.invariant_of_forall (P := fun m => m.Coherent ∧
      (m.workers.length ≤ period → P m)) _ (fun m a h => ?_) inp new
      ⟨coherent_new, fun _ => hn⟩
    refine ⟨h.1.step inboundId a, fun hs => ?_⟩
    have hb := (length_le_step inboundId a).trans hs
    exact hst (h.2 hb) h.1 hb a
  exact hr.2 hbn

theorem attended_after (inboundId : String) (inp : List Input)
    (hb : (after inboundId inp).workers.length ≤ period) :
    (after inboundId inp).Attended :=
  bounded_after inboundId (fun h hc hb a => h.step hc hb inboundId a)
    (fun n w hw => by cases hw) inp hb

theorem onEvent_of_stale (h : ∀ k, m.flows.get? ev.key = some k → k.generation ≠ ev.generation) :
    m.onEvent ev = m := by
  unfold onEvent
  split
  · rename_i key g flow k hh
    exact if_neg (h k hh)
  · rename_i key g k hh
    exact if_neg (h k hh)
  · rfl

theorem step_event {report : Report} (hr : m.running = true)
    (he : m.events = report :: events) (inboundId : String) :
    m.step inboundId .event = { m with events }.onEvent report.event := by
  simp only [step, hr, if_true, select, he, work]

/-- What the generations and the maps guarantee in a state. The entries of a session stay in
`flows` when the session is closed; each goes with the `Closed` event of its worker. -/
structure GenerationSafe (inboundId : String) (m : UdpManager) : Prop where
  single : m.flows.keys.Nodup
  stale : ∀ report events, m.running = true → m.events = report :: events →
    (∀ handle, m.flows.get? report.event.key = some handle →
      handle.generation ≠ report.event.generation) →
    m.step inboundId .event = { m with events }
  replaced : m.workers.length < 2 ^ 64 →
    ∀ report events, m.running = true → m.events = report :: events →
    (∀ handle, m.flows.get? report.event.key = some handle → handle.worker ≠ report.worker) →
    m.step inboundId .event = { m with events }
  pending : ∀ key flow, m.pendingClose.get? key = some flow →
    ∃ handle, m.flows.get? key = some handle ∧ handle.flow = none
  cancelled : m.running = true → m.commandOpen = true → ∀ sessionId ord key handle,
    m.flows.get? key = some handle → key.sessionId = sessionId →
    ∃ w, (m.step inboundId (.command (.closeSession sessionId) ord)).workers[handle.worker]? =
      some w ∧ w.cancelled = true
  unattended : m.workers.length < 2 ^ 64 → m.running = true → m.commandOpen = true →
    ∀ sessionId ord (n : ℕ) w,
    (m.step inboundId (.command (.closeSession sessionId) ord)).workers[n]? = some w →
    w.key.sessionId = sessionId → w.cancelled = true ∨ w.phase.hasEnded = true
  unparked : m.running = true → m.commandOpen = true → ∀ sessionId ord key flow,
    (m.step inboundId (.command (.closeSession sessionId) ord)).pendingClose.get? key =
      some flow → key.sessionId ≠ sessionId
  removed : ∀ key generation worker events handle, m.running = true →
    m.events = ⟨worker, .closed key generation⟩ :: events →
    m.flows.get? key = some handle → handle.generation = generation →
    (m.step inboundId .event).flows.get? key = none ∧
      (m.step inboundId .event).pendingClose.get? key = none

theorem step_closeSession (hr : m.running = true) (ho : m.commandOpen = true)
    (inboundId : String) (sessionId : UInt64) (ord : IterOrder) :
    m.step inboundId (.command (.closeSession sessionId) ord) = m.closeSession sessionId := by
  simp [step, hr, select, ho, work]

theorem Coherent.cancelled_closeSession (h : m.Coherent) (sessionId : UInt64)
    (hh : m.flows.get? key = some k) (hk : key.sessionId = sessionId) :
    ∃ w, (m.closeSession sessionId).workers[k.worker]? = some w ∧ w.cancelled = true := by
  obtain ⟨w, hw, -, -⟩ := h.worker key k hh
  obtain ⟨w', hw', -, -⟩ := (relabels_closeSession _).worker _ w hw
  exact ⟨w', hw', cancelled_cancelAll (p := fun k => k.sessionId = sessionId) hh
    (by simp [h.session key k hh, hk]) hw'⟩

/-- In every run every source has at most one handle; an event of a generation that is not the
handle's, or of a worker that has been replaced, changes nothing; a close is parked only on a
worker that is opening; closing a session cancels every worker of it that has not ended and leaves
no parked close of it. -/
theorem udpManager_generations_safe (inboundId : String) (inputs : List Input) :
    GenerationSafe inboundId (after inboundId inputs) := by
  have h := coherent_after inboundId inputs
  have ha : (after inboundId inputs).workers.length < 2 ^ 64 → (after inboundId inputs).Attended :=
    fun hs => attended_after inboundId inputs (Nat.le_pred_of_lt hs)
  generalize after inboundId inputs = m at h ha
  refine ⟨m.flows.nodup, fun report events hr he hst => ?_,
    fun hs report events hr he hrp => ?_, h.pending,
    fun hr ho sessionId ord key handle hh hkey => ?_, fun hs hr ho sessionId ord n w hw hkey => ?_,
    fun hr ho sessionId ord key _ hf => ?_, fun key _ _ events handle hr he hh hg => ?_⟩
  · rw [step_event hr he]
    exact onEvent_of_stale hst
  · rw [step_event hr he]
    refine onEvent_of_stale fun handle hh hg => hrp handle hh ?_
    obtain ⟨w, hw, hsn⟩ := h.sent report (he ▸ List.mem_cons_self)
    exact h.sender (Nat.le_pred_of_lt hs) hw hsn hh hg
  · rw [step_closeSession hr ho]
    exact h.cancelled_closeSession sessionId hh hkey
  · rw [step_closeSession hr ho] at hw
    rcases (ha hs).closeSession _ _ _ hw with hc | he | ⟨_, hh, rfl⟩
    · exact .inl hc
    · exact .inr he
    · obtain ⟨f, hf, hc⟩ := h.cancelled_closeSession _ hh hkey
      obtain rfl := some.inj (hf.symm.trans hw)
      exact .inl hc
  · rw [step_closeSession hr ho, UdpManager.closeSession, get?_retain, filter_eq_some_iff] at hf
    simpa using hf.2
  · rw [step_event hr he]
    simp [UdpManager.onEvent, UdpFlowEvent.key, hh, hg, flows_forget, pendingClose_forget]

def exampleAddr (port : UInt16) : SocketAddr := .v4 ⟨#v[192, 0, 2, 33]⟩ port

def examplePacket (authentication : Option (Vector UInt8 32)) : UdpIngress where
  sessionId := 1
  sessionCancelled := false
  authentication
  peer := .ip .udp (exampleAddr 5000)

def exampleReplacement : List Input :=
  [.ingress (examplePacket none) true, .ended 0, .closed 0, .ingress (examplePacket none) true]

theorem udpManager_generations_safe_replaced : (after "tun" exampleReplacement).step "tun" .event =
      { after "tun" exampleReplacement with events := [] } := by
  refine (udpManager_generations_safe "tun" exampleReplacement).replaced (by decide +kernel)
    ((after "tun" exampleReplacement).events.head (by decide +kernel)) [] (by decide +kernel)
    (by decide +kernel) fun handle hhandle => ?_
  have hcurrent : ((after "tun" exampleReplacement).flows.get? ((after "tun"
      exampleReplacement).events.head (by decide +kernel)).event.key).map UdpFlowHandle.worker =
        some 1 := by decide +kernel
  rw [hhandle, map_some, some_inj] at hcurrent
  rw [hcurrent]
  decide +kernel

/-- The entry of a closed session stays in `flows`. -/
theorem udpManager_keeps_closed_session : ((after "tun" [.ingress (examplePacket none) true,
      .command (.closeSession 1) .stored]).flows.keys.map UdpSourceKey.sessionId) = [1] := by
  decide +kernel

end UdpManager

end Doradus
