import Doradus.Runtime.ConnectionMonitor

/-!
# Live connections and their traffic state

Between its two sections an `open` has a connection and no traffic entry yet. As long as no such
flow is closed, the shards show exactly the connections whose `open` is done, so they show all live
connections whenever no call is on its way.
-/

namespace Doradus

open List AssocMap

theorem toDigits_injective {m n : ℕ} (h : Nat.toDigits 10 m = Nat.toDigits 10 n) : m = n := by
  rw [← Nat.ofDigitChars_ten_toDigits (n := m), h, Nat.ofDigitChars_ten_toDigits]

namespace MonitorTrafficState

def idOf (state : MonitorTrafficState) (flow : FlowKey) : Option Text :=
  (state.flows.get? flow).map (·.id)

variable (state : MonitorTrafficState) (flow : FlowKey)

theorem idOf_publish (en : TrafficFlowEntry) (other : FlowKey) :
    (state.publish flow en).idOf other = if other = flow then some en.id else state.idOf other := by
  simp only [idOf, publish, get?_insert]
  split <;> rfl

theorem contains_publish (en : TrafficFlowEntry) (id : Text) :
    (state.publish flow en).counters.contains id = true ↔
      id = en.id ∨ state.counters.contains id = true := by
  simp only [publish]
  split
  · constructor
    · exact .inr
    · rintro (rfl | h) <;> assumption
  · exact contains_insert _ _ _ _

theorem idOf_remove (id : Text) (other : FlowKey) :
    (state.remove flow id).idOf other = if other = flow then none else state.idOf other := by
  simp only [idOf, remove, get?_erase]
  split <;> rfl

theorem idOf_refresh (r : ConnectionRecord) (other : FlowKey) :
    (state.refresh flow r).idOf other = state.idOf other := by
  simp only [idOf, refresh, get?_modify]
  split <;> simp [Function.comp_def]

theorem idOf_addBytes (d : FlowDirection) (b : ℕ) (other : FlowKey) :
    (state.addBytes flow d b).1.idOf other = state.idOf other := by
  have ha : ∀ x : TrafficFlowEntry, (x.add d b).id = x.id := by cases d <;> exact fun _ => rfl
  have ht : (state.addTotal d b).flows = state.flows := by cases d <;> rfl
  simp only [addBytes, ht, idOf]
  split
  · rw [ht]
  · simp only [get?_modify]
    split <;> simp [Function.comp_def, ha]

theorem contains_addBytes (d : FlowDirection) (b : ℕ) (id : Text) :
    (state.addBytes flow d b).1.counters.contains id = true ↔
      state.idOf flow = some id ∨ state.counters.contains id = true := by
  have ht : (state.addTotal d b).flows = state.flows := by cases d <;> rfl
  have hc : (state.addTotal d b).counters = state.counters := by cases d <;> rfl
  simp only [addBytes, ht, idOf]
  cases hf : state.flows.get? flow with
  | none => simp [hc]
  | some =>
    simp only [addUnder, AssocMap.contains_insert, hc, Option.map_some, Option.some.injEq]
    rw [eq_comm]

end MonitorTrafficState

open MonitorTrafficState

/-- The shards hold an entry and a counter for each pair of flow and id in `P`, in the shard of
the flow, and no others. -/
structure Shows (traffic : Fin trafficShardCount → MonitorTrafficState)
    (P : FlowKey → Text → Prop) : Prop where
  flows : ∀ shard flow id,
    (traffic shard).idOf flow = some id ↔ trafficShardIndex flow = shard ∧ P flow id
  counters : ∀ shard id,
    (traffic shard).counters.contains id = true ↔ ∃ flow, trafficShardIndex flow = shard ∧ P flow id

namespace Shows

variable {m : Monitor} {P : FlowKey → Text → Prop} {flow : FlowKey} (h : Shows m.traffic P)
include h

theorem mapShard {Q : FlowKey → Text → Prop} {f : MonitorTrafficState → MonitorTrafficState}
    (hot : ∀ o id, trafficShardIndex o ≠ trafficShardIndex flow → (Q o id ↔ P o id))
    (hf : ∀ o id, (f (m.traffic (trafficShardIndex flow))).idOf o = some id ↔ trafficShardIndex o =
      trafficShardIndex flow ∧ Q o id)
    (hc : ∀ id, (f (m.traffic (trafficShardIndex flow))).counters.contains id = true ↔ ∃ o,
      trafficShardIndex o = trafficShardIndex flow ∧ Q o id) :
    Shows (m.mapShard flow f).traffic Q := by
  constructor
  · intro s o id
    by_cases hs : s = trafficShardIndex flow
    · subst hs
      simpa [Monitor.mapShard] using hf o id
    · simp only [Monitor.mapShard, Function.update_of_ne hs, h.flows]
      refine and_congr_right fun ho => (hot o id ?_).symm
      rwa [ho]
  · intro s id
    by_cases hs : s = trafficShardIndex flow
    · subst hs
      simpa [Monitor.mapShard] using hc id
    · simp only [Monitor.mapShard, Function.update_of_ne hs, h.counters]
      refine exists_congr fun o => and_congr_right fun ho => (hot o id ?_).symm
      rwa [ho]

theorem refresh (r : ConnectionRecord) : Shows (m.mapShard flow (·.refresh flow r)).traffic P := by
  refine h.mapShard (fun _ _ _ => Iff.rfl) (fun o id => ?_) fun id => h.counters _ id
  rw [idOf_refresh, h.flows]

theorem addBytes (d : FlowDirection) (b : ℕ) :
    Shows (m.mapShard flow fun state => (state.addBytes flow d b).1).traffic P := by
  refine h.mapShard (fun _ _ _ => Iff.rfl) (fun o id => ?_) fun id => ?_
  · rw [idOf_addBytes, h.flows]
  · rw [contains_addBytes, h.flows, h.counters]
    -- An entry that bytes are added to has its counter already.
    exact or_iff_right_of_imp fun ⟨_, hp⟩ => ⟨flow, rfl, hp⟩

theorem publish (hn : ∀ id, ¬ P flow id) (en : TrafficFlowEntry) :
    Shows (m.mapShard flow (·.publish flow en)).traffic
      fun o id => P o id ∨ o = flow ∧ id = en.id := by
  refine h.mapShard (fun o id ho => ?_) (fun o id => ?_) fun id => ?_
  · have hne : o ≠ flow := by
      rintro rfl
      exact ho rfl
    simp [hne]
  · rw [idOf_publish]
    split
    case isTrue heq => simp [heq, hn, eq_comm]
    case isFalse hne => simp [h.flows, hne]
  rw [contains_publish, h.counters]
  constructor
  · rintro (rfl | ⟨o, ho, hp⟩)
    · exact ⟨flow, rfl, .inr ⟨rfl, rfl⟩⟩
    · exact ⟨o, ho, .inl hp⟩
  · rintro ⟨o, ho, hp | ⟨-, rfl⟩⟩
    · exact .inr ⟨o, ho, hp⟩
    · exact .inl rfl

theorem remove {id : Text} (hown : ∀ o, P flow o → o = id) (hd : ∀ o, P o id → o = flow) :
    Shows (m.mapShard flow (·.remove flow id)).traffic fun o id => P o id ∧ o ≠ flow := by
  refine h.mapShard (fun o id' ho => ?_) (fun o id' => ?_) fun id' => ?_
  · have hne : o ≠ flow := by
      rintro rfl
      exact ho rfl
    simp [hne]
  · rw [idOf_remove]
    split
    case isTrue heq => simp [heq]
    case isFalse hne => simp [h.flows, hne]
  rw [MonitorTrafficState.remove, contains_erase, h.counters]
  constructor
  · rintro ⟨hne, o, ho, hp⟩
    refine ⟨o, ho, hp, ?_⟩
    rintro rfl
    exact hne (hown id' hp)
  · rintro ⟨o, ho, hp, hne⟩
    refine ⟨?_, o, ho, hp⟩
    rintro rfl
    exact hne (hd o hp)

end Shows

namespace Monitor

def idOf (m : Monitor) (flow : FlowKey) : Option Text := (m.state.connections.get? flow).map (·.id)

def Published (m : Monitor) (flow : FlowKey) (id : Text) : Prop :=
  m.idOf flow = some id ∧ flow ∉ m.opening.map OpenCall.flow

def Consistent (m : Monitor) : Prop := Shows m.traffic fun flow id => m.idOf flow = some id

/-- No flow is closed before its `open` is done, and the ids have not run out. -/
def Undisturbed (m : Monitor) : Input → Prop
  | .opened flow _ => m.state.connections.get? flow = none → m.state.nextId < u64Max
  | .closed flow => ∀ call ∈ m.opening, call.flow ≠ flow
  | _ => True

structure Coherent (m : Monitor) : Prop where
  issued : ∀ flow id, m.idOf flow = some id → ∃ n ≤ m.state.nextId, id = Nat.toDigits 10 n
  distinct : ∀ flow other id, m.idOf flow = some id → m.idOf other = some id → flow = other
  pending : ∀ call ∈ m.opening, m.idOf call.flow = some call.entry.id
  once : (m.opening.map OpenCall.flow).Nodup
  shows : Shows m.traffic m.Published

variable {m : Monitor} {flow : FlowKey}

theorem Coherent.consistent (h : m.Coherent) (hd : m.opening = []) : m.Consistent := by
  have hp : m.Published = fun flow id => m.idOf flow = some id := by
    funext flow id
    simp [Published, hd]
  rw [Consistent, ← hp]
  exact h.shows

theorem coherent_start (n : ℕ) (r : List InboundStatisticsRecord) : (start n r).Coherent where
  issued _ _ h := by cases h
  distinct _ _ _ h := by cases h
  pending _ h := by cases h
  once := nodup_nil
  shows :=
    { flows := fun _ _ _ => by simp [start, MonitorTrafficState.idOf, Published, idOf]
      counters := fun _ _ => by simp [start, AssocMap.contains, Published, idOf] }

theorem Coherent.of_unchanged {m' : Monitor} (h : m.Coherent)
    (hid : ∀ flow, m'.idOf flow = m.idOf flow) (hn : m'.state.nextId = m.state.nextId)
    (ho : m'.opening = m.opening) (hs : Shows m'.traffic m.Published) : m'.Coherent := by
  have hp : m'.Published = m.Published := by
    funext flow id
    rw [Published, Published, hid, ho]
  refine ⟨?_, ?_, ?_, ?_, hp ▸ hs⟩
  · simpa only [hid, hn] using h.issued
  · simpa only [hid] using h.distinct
  · simpa only [hid, ho] using h.pending
  · simpa only [ho] using h.once

theorem idOf_refresh (flow : FlowKey) (r : ConnectionRecord) (other : FlowKey) :
    (m.refresh flow r).idOf other = m.idOf other := by
  simp only [idOf, refresh, get?_modify]
  split <;> simp [Function.comp_def]

theorem Coherent.reopen (h : m.Coherent) (flow : FlowKey) (en : ConnectionEntry)
    (c : ObservedContext) : (m.reopen flow en c).Coherent := by
  rw [Monitor.reopen]
  split
  · exact h.of_unchanged (idOf_refresh _ _) rfl rfl (h.shows.refresh _)
  · exact h

theorem idOf_register (flow : FlowKey) (c : ObservedContext) (other : FlowKey) :
    (m.register flow c).idOf other =
      if other = flow then some (m.state.nextEntry flow c).id else m.idOf other := by
  simp only [idOf, register, MonitorState.register, get?_insert]
  split <;> rfl

theorem Coherent.register (h : m.Coherent)
    (hnew : m.state.connections.get? flow = none) (hnx : m.state.nextId < u64Max)
    (c : ObservedContext) : (m.register flow c).Coherent := by
  have hnn : m.idOf flow = none := by simp [idOf, hnew]
  have hs : saturatingAdd m.state.nextId 1 = m.state.nextId + 1 := by
    simp [saturatingAdd]
    omega
  have he : (m.state.nextEntry flow c).id = Nat.toDigits 10 (m.state.nextId + 1) := by
    rw [MonitorState.nextEntry, hs]
  have hfr : ∀ o, m.idOf o ≠ some (m.state.nextEntry flow c).id := by
    intro o ho
    obtain ⟨n, hn, heq⟩ := h.issued o _ ho
    have := toDigits_injective (he.symm.trans heq)
    omega
  have hw : flow ∉ m.opening.map OpenCall.flow := by
    intro hmem
    obtain ⟨call, hc, rfl⟩ := mem_map.mp hmem
    rw [h.pending call hc] at hnn
    cases hnn
  refine ⟨?_, ?_, ?_, ?_, ?_⟩
  · intro o id hid
    rw [idOf_register] at hid
    change ∃ n ≤ saturatingAdd m.state.nextId 1, _
    rw [hs]
    split at hid
    · exact ⟨m.state.nextId + 1, le_rfl, by rw [← he]; exact (Option.some.inj hid).symm⟩
    · obtain ⟨n, hn, heq⟩ := h.issued o id hid
      exact ⟨n, by omega, heq⟩
  · intro f g id hf hg
    rw [idOf_register] at hf hg
    split at hf <;> split at hg
    case isTrue.isTrue hf' hg' => exact hf'.trans hg'.symm
    case isTrue.isFalse => exact absurd (hg.trans hf.symm) (hfr g)
    case isFalse.isTrue => exact absurd (hf.trans hg.symm) (hfr f)
    case isFalse.isFalse => exact h.distinct f g id hf hg
  · intro call hc
    rw [idOf_register]
    rcases mem_append.mp hc with hold | hc
    · rw [if_neg, h.pending call hold]
      rintro rfl
      exact hw (mem_map_of_mem hold)
    · rw [mem_singleton] at hc
      subst hc
      simp
  · simp only [Monitor.register, map_append, nodup_append]
    refine ⟨h.once, by simp, ?_⟩
    rintro a ha b hb rfl
    simp only [map_cons, map_nil, mem_singleton] at hb
    exact hw (hb ▸ ha)
  -- The new connection is not published yet.
  have hp : (m.register flow c).Published = m.Published := by
    funext o id
    rw [Published, Published, idOf_register]
    by_cases ho : o = flow
    · subst ho
      simp [Monitor.register, hnn]
    · simp [Monitor.register, ho]
  rw [hp]
  exact h.shows

theorem Coherent.publish {n : ℕ} {call : OpenCall} (h : m.Coherent)
    (hn : m.opening[n]? = some call) : (m.step (.publish n)).Coherent := by
  have hlen := (List.getElem?_eq_some_iff.mp hn).1
  have hc := mem_of_getElem? hn
  -- The call is the only one of its flow, so the flow waits no more.
  have hmem : ∀ flow, flow ∈ (m.opening.eraseIdx n).map OpenCall.flow ↔
      flow ∈ m.opening.map OpenCall.flow ∧ flow ≠ call.flow := by
    intro flow
    have hpr : (call.flow :: (m.opening.eraseIdx n).map OpenCall.flow).Perm
        (m.opening.map OpenCall.flow) := by
      rw [← (List.getElem?_eq_some_iff.mp hn).2]
      exact (List.getElem_cons_eraseIdx_perm hlen).map _
    have hnot := (nodup_cons.mp (hpr.nodup_iff.mpr h.once)).1
    rw [← hpr.mem_iff, mem_cons]
    constructor
    · intro hf
      refine ⟨.inr hf, ?_⟩
      rintro rfl
      exact hnot hf
    · rintro ⟨hf | hf, hne⟩
      · exact absurd hf hne
      · exact hf
  have hs : m.step (.publish n) = { m.mapShard call.flow (·.publish call.flow call.entry) with
        opening := m.opening.eraseIdx n } := by simp [step, hn]
  have hpb : (m.step (.publish n)).Published =
      fun flow id => m.Published flow id ∨ flow = call.flow ∧ id = call.entry.id := by
    funext flow id
    have hl := h.pending _ hc
    simp only [Published, hs, hmem]
    by_cases hf : flow = call.flow
    · subst hf
      have hw : call.flow ∈ m.opening.map OpenCall.flow := mem_map_of_mem hc
      change (m.idOf call.flow = some id ∧ _) = _
      simp [hl, hw, eq_comm]
    · change (m.idOf flow = some id ∧ _) = _
      simp [hf]
  refine ⟨?_, ?_, ?_, ?_, ?_⟩
  · rw [hs]
    exact h.issued
  · rw [hs]
    exact h.distinct
  · rw [hs]
    exact fun o ho => h.pending o (mem_of_mem_eraseIdx ho)
  · rw [hs]
    exact h.once.sublist ((eraseIdx_sublist _ _).map _)
  · rw [hpb, hs]
    refine h.shows.publish (fun id hp => hp.2 ?_) call.entry
    exact mem_map_of_mem hc

theorem get?_closed (m : Monitor) (flow other : FlowKey) :
    (m.step (.closed flow)).state.connections.get? other =
      if other = flow then none else m.state.connections.get? other := by
  simp only [step]
  split
  · next hn =>
    split_ifs with heq
    · rw [heq, hn]
    · rfl
  · exact get?_erase ..

theorem idOf_closed (m : Monitor) (flow other : FlowKey) :
    (m.step (.closed flow)).idOf other = if other = flow then none else m.idOf other := by
  simp only [idOf, get?_closed]
  split_ifs <;> rfl

theorem Coherent.close {en : ConnectionEntry} (h : m.Coherent)
    (hl : m.state.connections.get? flow = some en)
    (hd : ∀ call ∈ m.opening, call.flow ≠ flow) : (m.step (.closed flow)).Coherent := by
  have hid : m.idOf flow = some en.id := by simp [idOf, hl]
  have hs : m.step (.closed flow) =
      { m.mapShard flow (·.remove flow en.id) with state := m.state.unregister flow en } := by
    simp [step, hl]
  have hk : ∀ o id, (m.step (.closed flow)).idOf o = some id → m.idOf o = some id := by
    intro o id ho
    rw [idOf_closed] at ho
    split at ho
    · cases ho
    · exact ho
  have hpb : (m.step (.closed flow)).Published = fun o id => m.Published o id ∧ o ≠ flow := by
    funext o id
    rw [Published, Published, idOf_closed, hs]
    by_cases ho : o = flow
    · simp [ho]
    · simp [ho, mapShard]
  refine ⟨?_, ?_, ?_, ?_, ?_⟩
  · intro o id ho
    have hi := h.issued o id (hk o id ho)
    rwa [hs]
  · intro f g id hf hg
    exact h.distinct f g id (hk f id hf) (hk g id hg)
  · intro call hc
    have hc : call ∈ m.opening := by rwa [hs] at hc
    rw [idOf_closed, if_neg (hd call hc), h.pending call hc]
  · rw [hs]
    exact h.once
  · rw [hpb, hs]
    refine h.shows.remove (fun o hp => ?_) fun o hp => h.distinct o flow _ hp.1 hid
    exact Option.some.inj (hp.1.symm.trans hid)

theorem Coherent.step (h : m.Coherent) (inp : Input) (hi : m.Undisturbed inp) :
    (m.step inp).Coherent := by
  cases inp with
  | opened flow c =>
    cases hl : m.state.connections.get? flow with
    | some x => simpa only [Monitor.step, hl] using h.reopen _ x c
    | none => simpa only [Monitor.step, hl] using h.register hl (hi hl) c
  | publish n =>
    cases hn : m.opening[n]? with
    | none => simpa only [Monitor.step, hn] using h
    | some => exact h.publish hn
  | bytes _ d bytes => exact h.of_unchanged (fun _ => rfl) rfl rfl (h.shows.addBytes d _)
  | closed flow =>
    cases hl : m.state.connections.get? flow with
    | none => simpa only [Monitor.step, hl] using h
    | some => exact h.close hl hi
  | requestClose ids =>
    obtain ⟨r, heq⟩ := m.state.requestClose_eq ids
    rw [Monitor.step, heq]
    exact h.of_unchanged (fun _ => rfl) rfl rfl h.shows
  | takeCloseRequests => exact h.of_unchanged (fun _ => rfl) rfl rfl h.shows

/-- In a run in which no flow is closed before its `open` is done, the shards show exactly the
live connections whenever no call is on its way. -/
theorem monitor_consistent (nextId : ℕ) (records : List InboundStatisticsRecord)
    (inputs : List Input) (h : Run.Meets step Undisturbed (start nextId records) inputs)
    (hdone : ((start nextId records).run inputs).opening = []) :
    ((start nextId records).run inputs).Consistent :=
  Coherent.consistent (Run.invariant step (fun _ input hm hi => hm.step input hi) inputs _
    (coherent_start _ _) h) hdone

def exampleFlow : FlowKey := ⟨.tcp, .v4 .localhost 40000, .v4 .localhost 443⟩

def exampleContext : ObservedContext :=
  { FlowContext.new exampleFlow.endpoint with inboundId := some "web".toList }

/-- One connection, with the bytes of its flow counted before and after it is published. -/
theorem monitor_consistent_one :
    ((start 7 []).run [.opened exampleFlow exampleContext, .bytes exampleFlow .upload 10,
      .publish 0, .bytes exampleFlow .download 20]).Consistent := by
  refine monitor_consistent 7 [] _ ⟨fun _ => ?_, ?_⟩ ?_
  · decide
  · exact ⟨trivial, trivial, trivial, trivial⟩
  · decide +kernel

/-- A connection closed between the two sections leaves its entry and its counter behind, and
closing the flow once more does not remove them. -/
theorem monitor_leaks_traffic :
    let m := (start 0 []).run [.opened exampleFlow exampleContext, .closed exampleFlow, .publish 0]
    m.opening = [] ∧ m.state.connections.entries = [] ∧ ¬ m.Consistent ∧
      (m.traffic (trafficShardIndex exampleFlow)).idOf exampleFlow = some ['1'] ∧
      (m.traffic (trafficShardIndex exampleFlow)).counters.keys = [['1']] ∧
      ((m.step (.closed exampleFlow)).traffic (trafficShardIndex exampleFlow)).idOf exampleFlow =
        some ['1'] := by
  intro m
  have hid : (m.traffic (trafficShardIndex exampleFlow)).idOf exampleFlow = some ['1'] := by
    decide +kernel
  refine ⟨by decide +kernel, by decide +kernel, fun h => ?_, hid, by decide +kernel,
    by decide +kernel⟩
  have hn : m.idOf exampleFlow = none := by decide +kernel
  have hs := ((h.flows _ _ _).mp hid).2
  cases hs

end Monitor

end Doradus
