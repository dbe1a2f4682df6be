import Doradus.Protocol.ServerProxy

/-!
# Streams and the tasks that serve them

The task of a session ends on its own, and the session stays in the map. It tells the streams
that have a route when it ends, so a stream is left without replies and without being told if
it gets the session later, or if it has no route at that time.
-/

namespace Doradus

open Prod AssocMap List Option Bool

namespace ServerProxy

open ServerUdpSession

structure Status where
  reader : ReaderStage
  deadline : Instant
  place : Place

def ServerUdpSession.status (session : ServerUdpSession) : Status :=
  ⟨session.reader, session.deadline, session.place⟩

def Stream.isAttached (session : SessionId) (stream : Stream) : Bool :=
  stream.phase = .attached && stream.session = some session

def Stream.isTold (stream : Stream) : Bool := .closed ∈ stream.inbox

/-- The sessions that a call is to close, first the one that it is closing. -/
def Stage.closes : Stage → List SessionId
  | .close session stale _ | .collect session stale _ | .notify session _ stale _
  | .stop session stale _ => session :: stale
  | _ => []

/-- The session whose streams the call tells, and those that are still to be told. -/
def Stage.tells : Stage → Option (SessionId × List StreamId)
  | .notify session senders _ _ => some (session, senders)
  | .stop session _ _ => some (session, [])
  | _ => none

theorem Stage.mem_closes_of_tells {stage : Stage} {sid : SessionId} {streams : List StreamId}
    (h : stage.tells = some (sid, streams)) : sid ∈ stage.closes := by
  cases stage with
  | notify | stop =>
    cases h
    exact mem_cons_self
  | _ => cases h

namespace Server

def status? (server : Server) (session : SessionId) : Option Status :=
  server.sessions[session]?.map ServerUdpSession.status

def place? (server : Server) (session : SessionId) : Option Place :=
  (server.status? session).map Status.place

def isAttached (server : Server) (i : StreamId) (session : SessionId) : Bool :=
  server.streams[i]?.any (Stream.isAttached session)

def isTold (server : Server) (i : StreamId) : Bool := server.streams[i]?.any Stream.isTold

/-- Every stream that is attached to the session has a route. -/
def knowsAll (server : Server) (session : SessionId) : Bool :=
  server.sessions[session]?.all fun shared =>
    (List.range server.streams.length).all fun i =>
      !server.isAttached i session || shared.routes.entries.any fun entry => entry.2 = i

/-- The stream is served, or is going to be told, or has been told that the task has ended. -/
def Attended (server : Server) (i : StreamId) (session : SessionId) : Prop :=
  (∃ status, server.status? session = some status ∧ status.reader.attends i = true) ∨
    server.isTold i = true

/-- A task that has left its loop has timed out, unless its session is to be closed. -/
structure Sound (server : Server) : Prop where
  standing : ∀ session status, server.status? session = some status → status.place ≠ .retired →
    status.reader.inLoop = true ∨ status.deadline ≤ server.now
  kept : ∀ id session, server.udpSessions.get? id = some session →
    server.place? session = some .kept
  attended : ∀ i session, server.isAttached i session = true → server.Attended i session

variable {server server' server'' : Server} {index : ℕ}

/-- The sessions stay as they are, and nobody is attached anew. -/
structure Quiet (server server' : Server) : Prop where
  status : ∀ session, server'.status? session = server.status? session
  udpSessions : server'.udpSessions = server.udpSessions
  now : server.now ≤ server'.now
  attached : ∀ i session, server'.isAttached i session = true →
    server.isAttached i session = true ∧ (server.isTold i = true → server'.isTold i = true)

namespace Quiet

theorem refl (server : Server) : server.Quiet server :=
  ⟨fun _ => rfl, rfl, le_rfl, fun _ _ h => ⟨h, fun h => h⟩⟩

theorem trans (h : server.Quiet server') (h' : server'.Quiet server'') : server.Quiet server'' := by
  refine ⟨fun sid => (h'.status sid).trans (h.status sid),
    h'.udpSessions.trans h.udpSessions, h.now.trans h'.now, fun i sid ha => ?_⟩
  obtain ⟨hb, ht'⟩ := h'.attached i sid ha
  obtain ⟨hf, ht⟩ := h.attached i sid hb
  exact ⟨hf, fun h => ht' (ht h)⟩

theorem modifySession (sid : SessionId) {f : ServerUdpSession → ServerUdpSession}
    (server : Server) (hf : ∀ session : ServerUdpSession, session.Keeps (f session)) :
    server.Quiet (server.modifySession sid f) := by
  refine ⟨fun o => ?_, rfl, le_rfl, fun _ _ h => ⟨h, fun h => h⟩⟩
  simp only [status?, Server.modifySession, getElem?_modify]
  cases server.sessions[o]? with
  | none => rfl
  | some session =>
    have hs : (f session).status = session.status := by
      simp [ServerUdpSession.status, (hf session).reader, (hf session).deadline, (hf session).place]
    by_cases heq : sid = o <;> simp [heq, hs]

section

variable (streamId : StreamId)
include streamId

theorem modifyStream {f : Stream → Stream} (server : Server)
    (hf : ∀ a, server.streams[streamId]? = some a → ∀ sid, (f a).isAttached sid = true →
      a.isAttached sid = true ∧ (a.isTold = true → (f a).isTold = true)) :
    server.Quiet (server.modifyStream streamId f) := by
  refine ⟨fun _ => rfl, rfl, le_rfl, fun i sid => ?_⟩
  simp only [isAttached, isTold, Server.modifyStream, getElem?_modify]
  by_cases heq : streamId = i
  · subst i
    cases ha : server.streams[streamId]? with
    | none => simp
    | some a => simpa using hf a ha sid
  · simp [heq]

theorem finish (server : Server) : server.Quiet (server.modifyStream streamId Stream.finish) :=
  modifyStream streamId server fun a _ sid h => by simp [Stream.finish, Stream.isAttached] at h

theorem detach (server : Server) : server.Quiet (server.modifyStream streamId Stream.detach) :=
  modifyStream streamId server fun a _ sid h => by simp [Stream.detach, Stream.isAttached] at h

theorem push (m : ServerUdpMessage) (server : Server) :
    server.Quiet (server.modifyStream streamId (Stream.push m)) := by
  refine modifyStream streamId server fun a _ _ ha => ⟨ha, fun ht => ?_⟩
  simp only [Stream.isTold, Stream.push, mem_append, decide_eq_true_eq] at ht ⊢
  exact .inl ht

end

theorem unlock (server : Server) : server.Quiet server.unlock :=
  ⟨fun _ => rfl, rfl, le_rfl, fun _ _ h => ⟨h, fun h => h⟩⟩

theorem abandon (stage : Stage) (server : Server) : server.Quiet (server.abandon stage) := by
  have hu : server.Quiet (if stage.holdsLock then server.unlock else server) := by
    split_ifs
    · exact unlock server
    · exact refl server
  unfold Server.abandon
  dsimp only
  split
  · exact hu.trans (finish ..)
  · exact hu

theorem accept (stream : Stream) (hp : stream.phase = .opening) (server : Server) :
    server.Quiet (server.accept stream).2 := by
  refine ⟨fun _ => rfl, rfl, le_rfl, fun i _ => ?_⟩
  simp only [isAttached, isTold, Server.accept, getElem?_append]
  split_ifs with hi
  · exact fun h => ⟨h, fun h => h⟩
  intro h
  rcases Nat.eq_zero_or_pos (i - server.streams.length) with hz | hpos
  · simp [hz, Stream.isAttached, hp] at h
  · rw [getElem?_eq_none (Nat.succ_le_of_lt hpos)] at h
    cases h

theorem sendMessage {streamId : StreamId} {m : ServerUdpMessage} {sent : Bool × Server}
    (h : server.sendMessage streamId m = some sent) : server.Quiet sent.2 := by
  unfold Server.sendMessage at h
  split at h
  · cases h
  split_ifs at h
  · cases h
    exact refl _
  · cases h
    exact push ..

end Quiet

/-- What the step of one call leaves for the others: a session that is to be closed or put into
the map stays so, and nobody is attached to a session that is to be closed. -/
structure Guarantee (index : ℕ) (server server' : Server) : Prop where
  retired : ∀ session, server.place? session = some .retired →
    server'.place? session = some .retired
  opened : ∀ session k, k ≠ index → server.place? session = some (.opened k) →
    server'.place? session = some (.opened k)
  attached : ∀ i session, server.place? session = some .retired →
    server'.isAttached i session = true →
    server.isAttached i session = true ∧ (server.isTold i = true → server'.isTold i = true)

theorem Guarantee.trans (h : Guarantee index server server')
    (h' : Guarantee index server' server'') : Guarantee index server server'' := by
  refine ⟨fun sid hp => h'.retired sid (h.retired sid hp),
    fun sid k hk hp => h'.opened sid k hk (h.opened sid k hk hp), ?_⟩
  intro i sid hp ha
  obtain ⟨hb, ht'⟩ := h'.attached i sid (h.retired sid hp) ha
  obtain ⟨hf, ht⟩ := h.attached i sid hp hb
  exact ⟨hf, fun h => ht' (ht h)⟩

section

variable (h : server.Quiet server')
include h

theorem Quiet.place (session : SessionId) : server'.place? session = server.place? session := by
  rw [place?, h.status, place?]

theorem Quiet.guarantee (ind : ℕ) : Guarantee ind server server' := by
  refine ⟨fun sid hp => ?_, fun sid k _ hp => ?_, fun i sid _ => h.attached i sid⟩
  · rw [h.place, hp]
  · rw [h.place, hp]

theorem Quiet.sound (hsn : server.Sound) : server'.Sound := by
  refine ⟨fun sid status hs hp => ?_, fun id sid hf => ?_, ?_⟩
  · rw [h.status] at hs
    rcases hsn.standing sid status hs hp with hl | hd
    · exact .inl hl
    · exact .inr (hd.trans h.now)
  · rw [h.udpSessions] at hf
    rw [h.place]
    exact hsn.kept id sid hf
  intro i sid ha
  obtain ⟨hb, ht⟩ := h.attached i sid ha
  rcases hsn.attended i sid hb with ⟨status, hs, hat⟩ | hb
  · exact .inl ⟨status, (h.status sid).trans hs, hat⟩
  · exact .inr (ht hb)

end

variable {session : ServerUdpSession} {id : SessionId} {f : ServerUdpSession → ServerUdpSession}
  {ord : IterOrder} {i streamId : StreamId} {m : ServerUdpMessage} {c : Caller} {ch : Choice}
  {stage : Stage} {d : Datagram} {sent : Bool × Server}

theorem Sound.modifyReader (h : server.Sound) (ind : ℕ)
    (hsh : server.sessions[id]? = some session) (hpl : (f session).place = session.place)
    (hst : session.place ≠ .retired →
      (f session).reader.inLoop = true ∨ (f session).deadline ≤ server.now)
    (ha : ∀ i, server.isAttached i id = true →
      (f session).reader.attends i = true ∨ server.isTold i = true) :
    (server.modifySession id f).Sound ∧ Guarantee ind server (server.modifySession id f) := by
  have hsl : (server.modifySession id f).status? id = some (f session).status := by
    simp [status?, modifySession, hsh]
  have ho : ∀ session, session ≠ id →
      (server.modifySession id f).status? session = server.status? session := by
    intro session hne
    simp [status?, modifySession, hne.symm]
  have hp : ∀ session, (server.modifySession id f).place? session = server.place? session := by
    intro session
    by_cases heq : session = id
    · subst session
      rw [place?, hsl, place?, status?, hsh]
      exact congrArg some hpl
    · rw [place?, ho _ heq, place?]
  refine ⟨⟨fun session status hs hne => ?_, fun key session hf => ?_, ?_⟩,
    ⟨fun session hr => ?_, fun session k _ hopn => ?_, fun i session _ hi => ?_⟩⟩
  · by_cases heq : session = id
    · subst session
      obtain rfl := some.inj (hsl.symm.trans hs)
      exact hst fun hr => hne (hpl.trans hr)
    · rw [ho _ heq] at hs
      exact h.standing _ _ hs hne
  · rw [hp]
    exact h.kept key _ hf
  · intro i session hi
    by_cases heq : session = id
    · subst session
      rcases ha i hi with ha | ht
      · exact .inl ⟨_, hsl, ha⟩
      · exact .inr ht
    · rcases h.attended i _ hi with ⟨status, hs, ha⟩ | ht
      · exact .inl ⟨status, (ho _ heq).trans hs, ha⟩
      · exact .inr ht
  · rw [hp, hr]
  · rw [hp, hopn]
  · exact ⟨hi, fun h => h⟩

/-- A receive fails only on a session that is to be closed, and a task that is about to tell the
streams of its session knows all of them. -/
def readsOn (server : Server) (choice : Choice) (id : SessionId) (shared : ServerUdpSession) :
    Bool :=
  match shared.reader, choice with
  | .receiving, .failed _ => shared.place = .retired
  | .collecting, _ => server.knowsAll id
  | _, _ => true

theorem mem_senders_of_knowsAll (hk : server.knowsAll id = true)
    (hs : server.sessions[id]? = some session)
    (hi : server.isAttached i id = true) :
    i ∈ session.senders ord := by
  have hlt : i < server.streams.length := by
    by_contra hge
    rw [isAttached, List.getElem?_eq_none (Nat.le_of_not_lt hge)] at hi
    cases hi
  rw [knowsAll, hs, Option.all_some, List.all_eq_true] at hk
  have hr := hk i (List.mem_range.mpr hlt)
  rw [hi, Bool.not_true, Bool.false_or, List.any_eq_true] at hr
  obtain ⟨x, he, heq⟩ := hr
  exact List.mem_map.mpr ⟨x, (ord.mem _ _).mpr he, of_decide_eq_true heq⟩

theorem isTold_of_sendMessage {sid : SessionId}
    (h : server.sendMessage streamId .closed = some sent)
    (ha : server.isAttached streamId sid = true) : sent.2.isTold streamId = true := by
  unfold sendMessage at h
  unfold isAttached at ha
  split at h
  · cases h
  rename_i t hs
  rw [hs, any_some, Stream.isAttached, and_eq_true]
    at ha
  split_ifs at h with hl
  · simp [Stream.isListening, ha.1] at hl
  · cases h
    simp [isTold, modifyStream, hs, Stream.isTold, Stream.push]

theorem isTold_sent (h : server.sendMessage streamId m = some sent) (ht : server.isTold i = true) :
    sent.2.isTold i = true := by
  unfold sendMessage at h
  split at h
  · cases h
  rename_i t hs
  split_ifs at h
  · cases h
    exact ht
  cases h
  unfold isTold at ht ⊢
  simp only [modifyStream]
  by_cases heq : streamId = i
  · subst i
    rw [hs, any_some, Stream.isTold] at ht
    simp [hs, Stream.isTold, Stream.push, ht]
  · simpa [heq] using ht

theorem Sound.sendThenModify (h : server.Sound) (ind : ℕ)
    (hsn : server.sendMessage streamId m = some sent) (hsh : server.sessions[id]? = some session)
    (hp : (f session).place = session.place)
    (hst : session.place ≠ .retired →
      (f session).reader.inLoop = true ∨ (f session).deadline ≤ server.now)
    (ha : ∀ i, server.isAttached i id = true →
      (f session).reader.attends i = true ∨ sent.2.isTold i = true) :
    (sent.2.modifySession id f).Sound ∧ Guarantee ind server (sent.2.modifySession id f) := by
  have hq := Quiet.sendMessage hsn
  obtain ⟨hs, hn⟩ : sent.2.sessions = server.sessions ∧ sent.2.now = server.now := by
    unfold sendMessage at hsn
    split at hsn
    · cases hsn
    · split_ifs at hsn <;> cases hsn <;> exact ⟨rfl, rfl⟩
  obtain ⟨hso, hg⟩ := (hq.sound h).modifyReader ind (hs ▸ hsh) hp
    (hn ▸ hst) fun i hi => ha i (hq.attached i id hi).1
  exact ⟨hso, (hq.guarantee ind).trans hg⟩

theorem Sound.loops (h : server.Sound) (ind : ℕ)
    (hs : server.sessions[id]? = some session) (hp : (f session).place = session.place)
    (hl : (f session).reader.inLoop = true) :
    (server.modifySession id f).Sound ∧ Guarantee ind server (server.modifySession id f) :=
  h.modifyReader ind hs hp (fun _ => .inl hl) fun i _ => .inl (ReaderStage.attends_of_inLoop hl i)

theorem Sound.runReader {c : Choice} (h : server.Sound) (ind : ℕ)
    (hs : server.sessions[id]? = some session) (hrd : server.readsOn c id session = true)
    (hrun : server.runReader ord c id session = some server') :
    server'.Sound ∧ Guarantee ind server server' := by
  have hst : server.status? id = some session.status := by rw [status?, hs, map_some]
  have hd : session.reader.inLoop = false → session.place ≠ .retired →
      session.deadline ≤ server.now := by
    intro hl hne
    rcases h.standing id session.status hst hne with hin | hd
    · cases hl.symm.trans hin
    · exact hd
  unfold Server.runReader at hrun
  unfold readsOn at hrd
  cases hr : session.reader with
  | receiving =>
    rw [hr] at hrun hrd
    cases c with
    | datagram =>
      cases hrun
      exact h.loops ind hs rfl rfl
    | failed =>
      cases hrun
      exact h.modifyReader ind hs rfl (fun hne => absurd (of_decide_eq_true hrd) hne)
        fun _ _ => .inl rfl
    | timedOut =>
      split_ifs at hrun with htm
      cases hrun
      exact h.modifyReader ind hs rfl (fun _ => .inr htm) fun _ _ => .inl rfl
    | _ => cases hrun
  | routing | fallback =>
    rw [hr] at hrun
    dsimp only at hrun
    split at hrun <;> cases hrun <;> exact h.loops ind hs rfl rfl
  | delivering =>
    rw [hr] at hrun
    dsimp only at hrun
    split at hrun
    · rename_i hsn
      cases hrun
      exact h.sendThenModify ind hsn hs rfl (fun _ => .inl rfl) fun _ _ => .inl rfl
    · rename_i hsn
      cases hrun
      exact h.sendThenModify ind hsn hs rfl (fun _ => .inl rfl) fun _ _ => .inl rfl
    · cases hrun
  | unregistering =>
    rw [hr] at hrun
    cases hrun
    exact h.loops ind hs rfl rfl
  | replacing se r =>
    rw [hr] at hrun
    cases hrun
    exact h.loops ind hs (session.keeps_replaceLastSender se r).place rfl
  | collecting =>
    rw [hr] at hrun hrd hd
    cases hrun
    refine h.modifyReader ind hs rfl (fun hne => .inr (hd rfl hne)) fun i hi => ?_
    exact .inl (decide_eq_true (mem_senders_of_knowsAll hrd hs hi))
  | notifying streamId =>
    rw [hr] at hrun hd
    have hw : ∀ i, server.isAttached i id = true → i ∈ streamId ∨ server.isTold i = true := by
      intro i hi
      rcases h.attended i id hi with ⟨status, hat, ha⟩ | ht
      · obtain rfl := some.inj (hst.symm.trans hat)
        rw [status, hr] at ha
        exact .inl (of_decide_eq_true ha)
      · exact .inr ht
    cases streamId with
    | nil =>
      cases hrun
      refine h.modifyReader ind hs rfl (fun hne => .inr (hd rfl hne)) fun i hi => ?_
      exact .inr ((hw i hi).resolve_left not_mem_nil)
    | cons =>
      dsimp only at hrun
      split at hrun
      · rename_i hsn
        cases hrun
        refine h.sendThenModify ind hsn hs rfl (fun hne => .inr (hd rfl hne))
          fun i hi => ?_
        rcases hw i hi with hmem | ht
        · rcases mem_cons.mp hmem with rfl | hmem
          · exact .inr (isTold_of_sendMessage hsn hi)
          · exact .inl (decide_eq_true hmem)
        · exact .inr (isTold_sent hsn ht)
      · cases hrun
  | ended =>
    rw [hr] at hrun
    cases hrun

variable {ord : AssocMap.IterOrder} {p : SessionId → Bool}

theorem status?_takeOut (next : Next) (sid : SessionId) :
    (server.takeOut ord next p).2.status? sid =
      (server.status? sid).map fun status =>
        if sid ∈ ((ord server.udpSessions.entries).map snd).filter p then
          { status with place := .retired } else status := by
  simp only [status?, takeOut, retire, List.getElem?_mapIdx, Option.map_map]
  congr 1
  funext shared
  split_ifs <;> rfl

variable {sid : SessionId} {next : Next}

theorem Sound.mem_stale (h : server.Sound)
    (hmem : sid ∈ ((ord server.udpSessions.entries).map snd).filter p) :
    server.place? sid = some .kept := by
  obtain ⟨x, he, rfl⟩ := mem_map.mp (mem_filter.mp hmem).1
  exact h.kept x.1 x.2 ((get?_eq_some_iff _ _ _).mpr ((ord.mem _ _).mp he))

theorem Sound.takeOut (h : server.Sound) (ord : IterOrder) (next : Next)
    (p : SessionId → Bool) (ind : ℕ) :
    (server.takeOut ord next p).2.Sound ∧ Guarantee ind server (server.takeOut ord next p).2 := by
  refine ⟨⟨fun session status hs hpl => ?_, fun id session hf => ?_, ?_⟩,
    ⟨fun session hr => ?_, fun session k _ ho => ?_, fun _ _ _ hi => ⟨hi, fun h => h⟩⟩⟩
  · rw [status?_takeOut, map_eq_some_iff] at hs
    obtain ⟨before, hb, rfl⟩ := hs
    split_ifs at hpl ⊢ with hmem
    · exact absurd rfl hpl
    · exact h.standing _ _ hb hpl
  · have he : (server.udpSessions.retain fun _ session => !p session).get? id = some session := hf
    rw [get?_retain, filter_eq_some_iff] at he
    have hn : session ∉ ((ord server.udpSessions.entries).map snd).filter p := by
      intro hmem
      have hp := (mem_filter.mp hmem).2
      rw [hp] at he
      cases he.2
    obtain ⟨status, hs, hpl⟩ := map_eq_some_iff.mp (h.kept id _ he.1)
    rw [place?, status?_takeOut, hs, map_some, if_neg hn]
    exact congrArg some hpl
  · intro i session hi
    rcases h.attended i _ hi with ⟨status, hs, ha⟩ | ht
    · refine .inl ⟨_, by rw [status?_takeOut, hs, map_some], ?_⟩
      split_ifs <;> exact ha
    · exact .inr ht
  · obtain ⟨status, hs, hpl⟩ := map_eq_some_iff.mp hr
    rw [place?, status?_takeOut, hs]
    split_ifs
    · rfl
    · exact congrArg some hpl
  have hn : session ∉ ((ord server.udpSessions.entries).map snd).filter p := by
    intro hmem
    cases (h.mem_stale hmem).symm.trans ho
  obtain ⟨status, hs, hpl⟩ := map_eq_some_iff.mp ho
  rw [place?, status?_takeOut, hs, map_some, map_some, if_neg hn]
  exact congrArg some hpl

theorem Sound.retired_takeOut (h : server.Sound) (next : Next)
    (hmem : sid ∈ ((ord server.udpSessions.entries).map snd).filter p) :
    (server.takeOut ord next p).2.place? sid = some .retired := by
  obtain ⟨status, hs, -⟩ := map_eq_some_iff.mp (h.mem_stale hmem)
  rw [place?, status?_takeOut, hs, map_some, map_some, if_pos hmem]

theorem isAttached_attach {streamId : StreamId} {o : SessionId}
    (h : (server.modifyStream streamId (Stream.attach sid)).isAttached i o = true) :
    (i = streamId ∧ o = sid) ∨ (i ≠ streamId ∧ server.isAttached i o = true) := by
  simp only [isAttached, modifyStream, List.getElem?_modify] at h
  by_cases heq : streamId = i
  · subst i
    cases ha : server.streams[streamId]? with
    | none => simp [ha] at h
    | some =>
      simp only [ha, if_true, Option.map_eq_map, Option.map_some, Option.any_some,
        Stream.isAttached, Stream.attach, decide_true, Bool.true_and, decide_eq_true_eq,
        Option.some.injEq] at h
      exact .inl ⟨rfl, h.symm⟩
  · exact .inr ⟨Ne.symm heq, by simpa [isAttached, heq] using h⟩

theorem isTold_attach (streamId i : StreamId) (sid : SessionId) (server : Server) :
    (server.modifyStream streamId (Stream.attach sid)).isTold i = server.isTold i := by
  simp only [isTold, modifyStream, getElem?_modify]
  cases server.streams[i]? with
  | none => rfl
  | some => by_cases heq : streamId = i <;> simp [heq, Stream.isTold, Stream.attach]

theorem Sound.attach {status : Status} (h : server.Sound) (ind : ℕ) (str : StreamId)
    (hs : server.status? sid = some status) (hl : status.reader.inLoop = true)
    (hp : status.place ≠ .retired) :
    (server.modifyStream str (Stream.attach sid)).Sound ∧
      Guarantee ind server (server.modifyStream str (Stream.attach sid)) := by
  refine ⟨⟨h.standing, h.kept, fun i o hi => ?_⟩,
    ⟨fun _ hr => hr, fun _ _ _ ho => ho, fun i o hr hi => ?_⟩⟩
  · rcases isAttached_attach hi with ⟨rfl, rfl⟩ | ⟨-, hb⟩
    · exact .inl ⟨status, hs, ReaderStage.attends_of_inLoop hl i⟩
    · rcases h.attended i o hb with hsr | ht
      · exact .inl hsr
      · exact .inr ((isTold_attach ..).trans ht)
  · rcases isAttached_attach hi with ⟨rfl, rfl⟩ | ⟨-, hb⟩
    · rw [place?, hs] at hr
      exact absurd (some.inj hr) hp
    · exact ⟨hb, fun ht => (isTold_attach ..).trans ht⟩

theorem status?_append {status : Status} (a : ServerUdpSession)
    (h : server.status? sid = some status) :
    { server with sessions := server.sessions ++ [a] }.status? sid = some status := by
  obtain ⟨session, hs, rfl⟩ := Option.map_eq_some_iff.mp h
  have hlt := (List.getElem?_eq_some_iff.mp hs).1
  rw [status?, List.getElem?_append_left hlt, hs, Option.map_some]

theorem place?_append {place : Place} (a : ServerUdpSession)
    (h : server.place? sid = some place) :
    { server with sessions := server.sessions ++ [a] }.place? sid = some place := by
  obtain ⟨status, hs, rfl⟩ := map_eq_some_iff.mp h
  rw [place?, status?_append a hs, map_some]

theorem Sound.append (h : server.Sound) (ind : ℕ) (a : ServerUdpSession)
    (hl : a.reader.inLoop = true) :
    { server with sessions := server.sessions ++ [a] }.Sound ∧
      Guarantee ind server { server with sessions := server.sessions ++ [a] } := by
  refine ⟨⟨fun session status hst hp => ?_, fun id session hf => ?_,
    fun i session hi => ?_⟩, ⟨fun _ => place?_append a, fun _ _ _ => place?_append a,
    fun _ _ _ hi => ⟨hi, fun h => h⟩⟩⟩
  · obtain ⟨shared, hs, rfl⟩ := map_eq_some_iff.mp hst
    rcases Nat.lt_or_ge _ server.sessions.length with hlt | hge
    · rw [getElem?_append_left hlt] at hs
      exact h.standing _ shared.status (by rw [status?, hs, map_some]) hp
    · rw [getElem?_append_right hge] at hs
      obtain rfl := mem_singleton.mp (mem_of_getElem? hs)
      exact .inl hl
  · exact place?_append a (h.kept id _ hf)
  · rcases h.attended i _ hi with ⟨status, hst, ha⟩ | ht
    · exact .inl ⟨status, status?_append a hst, ha⟩
    · exact .inr ht

theorem Sound.keep (h : server.Sound)
    (hopn : server.place? sid = some (.opened index)) :
    (server.modifySession sid keep).Sound ∧
      (server.modifySession sid keep).place? sid = some .kept ∧
      Guarantee index server (server.modifySession sid keep) := by
  obtain ⟨status, hs, hp⟩ := map_eq_some_iff.mp hopn
  obtain ⟨session, hsh, rfl⟩ := map_eq_some_iff.mp hs
  have hsl : (server.modifySession sid ServerUdpSession.keep).status? sid =
      some session.keep.status := by
    simp [status?, modifySession, hsh]
  have ho : ∀ other, other ≠ sid → (server.modifySession sid ServerUdpSession.keep).status? other =
        server.status? other := by
    intro other hne
    simp [status?, modifySession, hne.symm]
  have hsm : ∀ other place, place ≠ .opened index → server.place? other = some place →
      (server.modifySession sid ServerUdpSession.keep).place? other = some place := by
    intro other place hne hat
    rw [place?, ho, ← place?, hat]
    rintro rfl
    exact hne (some.inj (hat.symm.trans hopn))
  refine ⟨⟨fun other status' hat hne => ?_, fun id other hf => ?_, fun i other hi => ?_⟩,
    by rw [place?, hsl]; rfl,
    ⟨fun other => hsm other _ (by simp), fun other k hk => hsm other _ (by simpa using hk),
      fun _ _ _ hi => ⟨hi, fun h => h⟩⟩⟩
  · by_cases heq : other = sid
    · subst other
      obtain rfl := some.inj (hsl.symm.trans hat)
      exact h.standing sid session.status hs (by rw [hp]; simp)
    · rw [ho other heq] at hat
      exact h.standing other status' hat hne
  · exact hsm other _ (by simp) (h.kept id other hf)
  rcases h.attended i other hi with ⟨status', hat, ha⟩ | ht
  · by_cases heq : other = sid
    · subst other
      obtain rfl := some.inj (hs.symm.trans hat)
      exact .inl ⟨_, hsl, ha⟩
    · exact .inl ⟨status', (ho other heq).trans hat, ha⟩
  · exact .inr ht

theorem Sound.insert (h : server.Sound)
    (hk : server.place? sid = some .kept) (id : UInt64) :
    { server with udpSessions := server.udpSessions.insert id sid }.Sound := by
  refine ⟨h.standing, fun key o hf => ?_, h.attended⟩
  rcases of_get?_insert hf with ⟨-, rfl⟩ | hf
  · exact hk
  · exact h.kept key o hf

structure Relies (server : Server) (index : ℕ) (stage : Stage) : Prop where
  closes : ∀ session ∈ stage.closes, server.place? session = some .retired
  inserts : ∀ stream session, stage.inserts = some (stream, session) →
    server.place? session = some (.opened index)
  tells : ∀ session senders, stage.tells = some (session, senders) →
    ∀ i, server.isAttached i session = true → i ∈ senders ∨ server.isTold i = true

theorem Relies.kept {k : ℕ} (h : server.Relies k stage) (hk : k ≠ index)
    (hg : Guarantee index server server') : server'.Relies k stage := by
  refine ⟨fun sid hmem => hg.retired sid (h.closes sid hmem),
    fun t sid hp => hg.opened sid k hk (h.inserts t sid hp), fun sid streamId ht i hi => ?_⟩
  have hr := h.closes sid (Stage.mem_closes_of_tells ht)
  obtain ⟨hb, hm⟩ := hg.attached i sid hr hi
  rcases h.tells sid streamId ht i hb with hmem | htl
  · exact .inl hmem
  · exact .inr (hm htl)

theorem Relies.of_none (server : Server) (ind : ℕ) (hc : stage.closes = [])
    (hi : stage.inserts = none) : server.Relies ind stage := by
  refine ⟨fun sid hmem => ?_, fun t sid hp => ?_, fun sid _ ht i _ => ?_⟩
  · rw [hc] at hmem
    cases hmem
  · cases hi.symm.trans hp
  · have hmem := Stage.mem_closes_of_tells ht
    rw [hc] at hmem
    cases hmem

structure Upkeep (index : ℕ) (server : Server) (caller : Caller) (server' : Server) : Prop where
  sound : server'.Sound
  guarantee : Guarantee index server server'
  relies : ∀ next, caller = .running next → server'.Relies index next

theorem Upkeep.returns (hs : server.Sound) (hq : server.Quiet server')
    (r : Option (Result Unit)) : Upkeep index server (.returned r) server' :=
  ⟨hq.sound hs, hq.guarantee index, fun _ hn => by cases hn⟩

theorem Upkeep.goesOn (hs : server'.Sound) (hg : Guarantee index server server')
    (hr : server'.Relies index stage) : Upkeep index server (.running stage) server' := by
  refine ⟨hs, hg, fun _ hn => ?_⟩
  cases hn
  exact hr

theorem Upkeep.step (hs : server.Sound) (hq : server.Quiet server') (hc : stage.closes = [])
    (hi : stage.inserts = none) : Upkeep index server (.running stage) server' :=
  .goesOn (hq.sound hs) (hq.guarantee index) (.of_none server' index hc hi)

theorem Upkeep.closing {sessions : List SessionId} (hsn : server'.Sound)
    (hg : Guarantee index server server')
    (hst : ∀ sid ∈ sessions, server'.place? sid = some .retired) :
    Upkeep index server (next.closing sessions) server' := by
  cases sessions with
  | nil =>
    cases next with
    | lookup => exact .goesOn hsn hg (.of_none _ _ rfl rfl)
    | shutdown => exact ⟨hsn, hg, fun _ hs => by cases hs⟩
  | cons => exact .goesOn hsn hg ⟨hst, nofun, nofun⟩

/-- A session is found before its task may time out; whoever is about to tell the streams of a
session knows all of them; and a receive fails only on a session that is to be closed. -/
def permits (server : Server) (choice : Choice) (stage : Stage) : Bool :=
  match stage with
  | .lookup stream _ =>
    (server.streams[stream]?.bind fun announced =>
      server.udpSessions.get? announced.migrateId).all fun session =>
        server.sessions[session]?.all fun shared => server.now < shared.deadline
  | .collect session _ _ => server.knowsAll session
  | .reader session => server.sessions[session]?.all (server.readsOn choice session)
  | _ => true

theorem upkeep_serveDecoded (ind : ℕ) (c : Config) (pc : Octets) (hs : server.Sound) :
    Upkeep ind server (server.serveDecoded c pc).1 (server.serveDecoded c pc).2 := by
  unfold serveDecoded
  split
  · exact .returns hs (.refl _) _
  split
  · exact .returns hs (.refl _) _
  · exact .returns hs (.refl _) _
  · exact .returns hs (.refl _) _
  dsimp only
  have hc : ∀ id, server.Quiet { server with nextMigrateId := id } := fun id =>
    ⟨fun _ => rfl, rfl, le_rfl, fun _ _ h => ⟨h, fun h => h⟩⟩
  split_ifs
  · exact .step hs (hc _) rfl rfl
  · exact .step hs ((hc _).trans (.accept _ rfl _)) rfl rfl
  · exact .step hs (.accept _ rfl _) rfl rfl

variable {streamId : StreamId}

theorem Sound.inLoop_of_found {c : Choice} {a : Stream}
    (h : server.Sound) (hp : server.permits c (.lookup streamId d) = true)
    (hstr : server.streams[streamId]? = some a)
    (hf : server.udpSessions.get? a.migrateId = some sid) :
    ∃ session, server.sessions[sid]? = some session ∧ session.reader.inLoop = true := by
  obtain ⟨stt, hst, hpl⟩ := map_eq_some_iff.mp (h.kept _ sid hf)
  obtain ⟨session, hs, rfl⟩ := map_eq_some_iff.mp hst
  have hd : server.now < session.deadline := by simpa [permits, hstr, hf, hs] using hp
  have hn : session.status.place ≠ .retired := by
    rw [hpl]
    simp
  exact ⟨session, hs, (h.standing sid session.status hst hn).resolve_right (Nat.not_le_of_lt hd)⟩

theorem upkeep_lookup (hs : server.Sound)
    (hp : server.permits ch (.lookup streamId d) = true)
    (h : server.lookup streamId d = some (c, server')) :
    Upkeep index server c server' := by
  obtain ⟨a, hstr, h⟩ := map_eq_some_iff.mp h
  split at h
  · rename_i sid hf
    cases h
    obtain ⟨session, hsh, hl⟩ := hs.inLoop_of_found hp hstr hf
    have hst : server.status? sid = some session.status := by rw [status?, hsh, map_some]
    have hnot : session.status.place ≠ .retired := by
      have hk := hs.kept _ sid hf
      rw [place?, hst] at hk
      rw [some.inj hk]
      simp
    have ht : server.Quiet (server.modifySession sid (·.touch server.now)) :=
      .modifySession sid _ fun session => session.keeps_touch server.now
    obtain ⟨ha, hg⟩ := (ht.sound hs).attach _ streamId ((ht.status sid).trans hst) hl hnot
    have hu := Quiet.unlock ((server.modifySession sid
      (·.touch server.now)).modifyStream streamId (Stream.attach sid))
    exact .goesOn (hu.sound ha) (((ht.guarantee _).trans hg).trans (hu.guarantee _))
      (.of_none _ index rfl rfl)
  · cases h
    exact .step hs (.refl _) rfl rfl

theorem upkeep_openSession (streamId : StreamId) (d : Datagram) (hsn : server.Sound) :
    Upkeep index server (server.openSession index streamId d).1
      (server.openSession index streamId d).2 := by
  obtain ⟨ha, hg⟩ := hsn.append _ (.spawn _ server.now) rfl
  have hs : { server with sessions := server.sessions ++
      [spawn index server.now] }.status? server.sessions.length =
      some (spawn index server.now).status := by
    rw [status?, List.getElem?_concat_length, Option.map_some]
  obtain ⟨hat, hg'⟩ := ha.attach _ streamId hs rfl (by
    simp [status, spawn])
  refine .goesOn hat (hg.trans hg') ⟨nofun, fun _ _ hp => ?_, nofun⟩
  cases hp
  exact congrArg (Option.map Status.place) hs

theorem upkeep_notify {se : List StreamId}
    {sessions : List SessionId} (hsn : server.Sound)
    (hr : server.Relies index (.notify sid (streamId :: se) sessions next))
    (hs : server.sendMessage streamId .closed = some sent) :
    Upkeep index server (.running (.notify sid se sessions next)) sent.2 := by
  have hq := Quiet.sendMessage hs
  refine .goesOn (hq.sound hsn) (hq.guarantee _)
    ⟨fun o hmem => (hq.place o).trans (hr.closes o hmem), nofun, fun _ _ ht i hi => ?_⟩
  cases ht
  obtain ⟨hb, hm⟩ := hq.attached i sid hi
  rcases hr.tells sid (streamId :: se) rfl i hb with hmem | htl
  · rcases mem_cons.mp hmem with rfl | hmem
    · exact .inr (isTold_of_sendMessage hs hb)
    · exact .inl hmem
  · exact .inr (hm htl)

theorem upkeep_stop {sessions : List SessionId}
    (hsn : server.Sound) (hr : server.Relies index (.stop sid sessions next)) :
    Upkeep index server (next.closing sessions)
      (server.modifySession sid stopWorker) := by
  have hrt := hr.closes sid mem_cons_self
  obtain ⟨stt, hst, hp⟩ := map_eq_some_iff.mp hrt
  obtain ⟨session, hsh, rfl⟩ := map_eq_some_iff.mp hst
  have hsm : session.stopWorker.place = session.place := by
    unfold stopWorker
    split_ifs <;> rfl
  obtain ⟨hs, hg⟩ := hsn.modifyReader _ hsh hsm
    (fun hne => absurd hp hne) fun i hi =>
      .inr ((hr.tells sid [] rfl i hi).resolve_left not_mem_nil)
  exact .closing hs hg fun o hmem => hg.retired o (hr.closes o (mem_cons_of_mem _ hmem))

theorem upkeep_takeResponse (hs : server.Sound)
    (h : server.takeResponse streamId sid = some (c, server')) :
    Upkeep index server c server' := by
  unfold takeResponse at h
  split at h
  · cases h
  · rename_i source payload hh
    cases h
    have hp : server.Quiet (server.modifyStream streamId Stream.pop) := by
      refine .modifyStream streamId _ fun a ha o hat => ⟨hat, fun ht => ?_⟩
      rw [ha] at hh
      obtain ⟨rest, hi⟩ := head?_eq_some_iff.mp hh
      simpa [Stream.isTold, Stream.pop, hi] using ht
    exact .step hs (hp.trans (.modifySession sid _ fun session =>
      session.keeps_touch server.now)) rfl rfl
  · cases h
    have hl : server.Quiet ((server.modifyStream streamId Stream.pop).modifyStream streamId
        Stream.detach) := by
      have heq : (server.modifyStream streamId Stream.pop).modifyStream streamId Stream.detach =
          server.modifyStream streamId (Stream.detach ∘ Stream.pop) := by
        simp [modifyStream, modify_modify_eq]
      rw [heq]
      refine .modifyStream streamId _ fun a _ o hat => ?_
      simp [Stream.detach, Stream.isAttached] at hat
    exact .step hs hl rfl rfl

theorem upkeep_poll {c : Config} {stage : Stage} {cl : Caller}
    (hs : server.Sound) (hr : server.Relies index stage) (hp : server.permits ch stage = true)
    (h : server.poll c index ch stage = some (cl, server')) : Upkeep index server cl server' := by
  cases stage with
  | serve pc =>
    have hu := upkeep_serveDecoded index c pc hs
    rw [some.inj h] at hu
    exact hu
  | reply t =>
    dsimp only [poll] at h
    split at h <;> cases h
    · exact .step hs (.refl _) rfl rfl
    · exact .returns hs (.finish t _) _
  | first t =>
    dsimp only [poll] at h
    split at h <;> cases h
    · exact .step hs (.refl _) rfl rfl
    · exact .step hs (.refl _) rfl rfl
    · exact .returns hs (.finish t _) _
  | lock =>
    dsimp only [poll] at h
    split_ifs at h
    cases h
    exact .step hs ⟨fun _ => rfl, rfl, le_rfl, fun _ _ h => ⟨h, fun h => h⟩⟩ rfl rfl
  | sweep t d now =>
    cases h
    obtain ⟨htk, hg⟩ := hs.takeOut c.order (.lookup t d) (server.isStale now) _
    exact .closing htk hg fun _ hmem => hs.retired_takeOut (.lookup t d) hmem
  | close =>
    cases h
    exact .goesOn hs ((Quiet.refl _).guarantee _) ⟨hr.closes, nofun, nofun⟩
  | collect =>
    obtain ⟨session, hsh, h⟩ := map_eq_some_iff.mp h
    cases h
    refine .goesOn hs ((Quiet.refl _).guarantee _)
      ⟨hr.closes, nofun, fun _ _ ht i hi => ?_⟩
    cases ht
    exact .inl (mem_senders_of_knowsAll hp hsh hi)
  | notify session streamId =>
    cases streamId with
    | nil =>
      cases h
      refine .goesOn hs ((Quiet.refl _).guarantee _) ⟨hr.closes, nofun, fun _ _ ht => ?_⟩
      cases ht
      exact hr.tells _ [] rfl
    | cons =>
      obtain ⟨sent, hsn, h⟩ := map_eq_some_iff.mp h
      cases h
      exact upkeep_notify hs hr hsn
  | stop =>
    cases h
    exact upkeep_stop hs hr
  | lookup => exact upkeep_lookup hs hp h
  | opening t d =>
    dsimp only [poll] at h
    split at h <;> cases h
    · exact upkeep_openSession t d hs
    · exact .returns hs ((Quiet.unlock _).trans (.finish t _)) _
  | insert t _ session =>
    have ho := hr.inserts t session rfl
    obtain ⟨a, hst, h⟩ := map_eq_some_iff.mp h
    cases h
    obtain ⟨hk, hkp, hg⟩ := hs.keep ho
    have hi := hk.insert hkp a.migrateId
    exact .goesOn ((Quiet.unlock _).sound hi) ⟨hg.retired, hg.opened, hg.attached⟩
      (.of_none _ index rfl rfl)
  | route t d session | routed t _ session =>
    cases h
    exact .step hs (.modifySession session server fun _ => ⟨rfl, rfl, rfl⟩) rfl rfl
  | send t | back t =>
    dsimp only [poll] at h
    split at h <;> cases h
    · exact .step hs (.refl server) rfl rfl
    · exact .step hs (.detach t server) rfl rfl
  | serving t =>
    dsimp only [poll] at h
    split at h
    · cases h
      exact .step hs (.refl server) rfl rfl
    · cases h
      exact .step hs (.refl server) rfl rfl
    · cases h
      exact .step hs (.detach t server) rfl rfl
    · exact upkeep_takeResponse hs h
    · cases h
  | leave t sid =>
    obtain ⟨_, -, h⟩ := map_eq_some_iff.mp h
    cases h
    exact .step hs (.modifySession sid server fun _ => ⟨rfl, rfl, rfl⟩) rfl rfl
  | left t session r =>
    cases h
    exact .returns hs ((Quiet.modifySession session server fun session =>
      session.keeps_replaceLastSender t r).trans (.finish t _)) _
  | drain =>
    cases h
    obtain ⟨htk, hg⟩ := hs.takeOut c.order .shutdown (fun _ => true) index
    exact .closing htk hg fun _ hmem => hs.retired_takeOut .shutdown hmem
  | reader sid =>
    obtain ⟨session, hsh, h⟩ := bind_eq_some_iff.mp h
    obtain ⟨server', hrun, h⟩ := map_eq_some_iff.mp h
    cases h
    have hrd : server.readsOn ch sid session = true := by simpa [permits, hsh] using hp
    obtain ⟨hre, hg⟩ := hs.runReader index hsh hrd hrun
    exact .goesOn hre hg (.of_none _ index rfl rfl)
  | clock =>
    dsimp only [poll] at h
    split at h <;> cases h
    exact .step hs ⟨fun _ => rfl, rfl, Nat.le_add_right .., fun _ _ h => ⟨h, fun h => h⟩⟩
      rfl rfl

end Server

open Server

def permitted (s : Proxies) : Calls.Event Request Choice → Bool
  | .start _ | .resume _ .dropped => true
  | .resume index choice =>
    match s.calls[index]? with
    | some (.running stage) => s.shared.permits choice stage
    | _ => true

variable {config : Config} {s : Proxies}

/-- Every stream is served or told, and every call can rely on what it needs for that. -/
def Sustained (s : Proxies) : Prop :=
  s.Upholds Server.Sound fun server index stage => server.Relies index stage

theorem Sustained.step (h : Sustained s) (e : Calls.Event Request Choice)
    (hp : permitted s e = true) : Sustained (Calls.step (machine config) s e) := by
  generalize he : Calls.step (machine config) s e = s'
  cases Calls.step_effect he with
  | waits => exact h
  | starts r =>
    refine h.started ?_
    cases r <;> exact .of_none _ _ rfl rfl
  | acts index c g cl server hs hex =>
    have hu : s.shared.Upkeep index cl server := by
      change s.shared.exec config index c g = some (cl, server) at hex
      unfold exec at hex
      split at hex
      · split_ifs at hex
        cases hex
        exact .returns h.shared (.abandon g _) _
      · have hat : s.calls[index]? = some (.running g) := hs
        refine upkeep_poll h.shared (h.stages _ g hs) ?_ hex
        simpa only [permitted, hat] using hp
    exact .moved hs hu.sound hu.relies fun i o hne ho => (h.stages i o ho).kept hne hu.guarantee

theorem sustained_new : Sustained ⟨.new, []⟩ := by
  refine ⟨⟨fun sid _ hs => ?_, fun _ sid hf => ?_, fun i sid hi => ?_⟩, by simp [Calls.RunsAt]⟩
  · simp [status?, new] at hs
  · simp [new] at hf
  · simp [isAttached, new] at hi

end ServerProxy

open ServerProxy in
/-- If a session is found only before its task may time out, if whoever tells its streams that it
is closed knows all of them, and if a receive fails only on a session that is to be closed, then
the task of a session that `udp_session` returns from the map is in its loop, and every stream
that has a session is served by its task, or is going to be told, or has been told that the
session is closed. -/
theorem serverProxy_attends (config : ServerProxy.Config)
    (events : List (Calls.Event ServerProxy.Request Choice))
    (hevents : Run.Meets (Calls.step (Server.machine config)) (fun s e => permitted s e)
      ⟨.new, []⟩ events) :
    (∀ (index : ℕ) (choice : Choice) (i : StreamId) (datagram : ServerProxy.Datagram)
      (announced : ServerProxy.Stream) (session : SessionId),
      (after config events).RunsAt index (.lookup i datagram) → choice ≠ .dropped →
      permitted (after config events) (.resume index choice) = true →
      (after config events).shared.streams[i]? = some announced →
      (after config events).shared.udpSessions.get? announced.migrateId = some session →
      ∃ shared, (after config events).shared.sessions[session]? = some shared ∧
        shared.reader.inLoop = true) ∧
    ∀ (i : StreamId) (stream : ServerProxy.Stream) (session : SessionId),
      (after config events).shared.streams[i]? = some stream →
      stream.phase = .attached → stream.session = some session →
      (∃ shared, (after config events).shared.sessions[session]? = some shared ∧
        shared.reader.attends i = true) ∨ .closed ∈ stream.inbox := by
  have hss : Sustained (after _ _) :=
    Run.invariant (Calls.step (Server.machine _)) (fun _ e h hp => h.step e hp)
      events _ sustained_new hevents
  refine ⟨?_, fun i stream session hs hph hse => ?_⟩
  · intro index choice i datagram announced session hstg hc hp hs hf
    have hpr : (after config events).shared.permits choice (.lookup i datagram) = true := by
      have hat : (after config events).calls[index]? = some (.running (.lookup i datagram)) := hstg
      cases choice with
      | dropped => exact absurd rfl hc
      | _ => simpa only [permitted, hat] using hp
    exact hss.shared.inLoop_of_found hpr hs hf
  · have ha : (after config events).shared.isAttached i session = true := by
      simp [Server.isAttached, Stream.isAttached, hs, hph, hse]
    rcases hss.shared.attended i session ha with ⟨status, hst, hatt⟩ | ht
    · obtain ⟨shared, hsh, rfl⟩ := map_eq_some_iff.mp hst
      exact .inl ⟨shared, hsh, hatt⟩
    · rw [Server.isTold, hs, any_some] at ht
      exact .inr (of_decide_eq_true ht)

namespace ServerProxy

def exampleTimeout (clock reader : ℕ) (session : SessionId) : List (Calls.Event Request Choice) :=
  [.start .clock, .resume clock (.elapsed serverUdpResponseTimeout), .start (.reader session),
    .resume reader .timedOut, .resume reader .done, .resume reader .done, .resume reader .done]

end ServerProxy

open ServerProxy in
theorem serverProxy_attends_told :
    (after twoUsers (exampleStream 0 0 1 false ++ exampleTimeout 1 2 0)).shared.streams.map
      (fun stream => (stream.session, stream.phase, stream.inbox)) =
        [(some 0, .attached, [.closed])] ∧
    ∀ (i : StreamId) (stream : ServerProxy.Stream) (session : SessionId),
      (after twoUsers (exampleStream 0 0 1 false ++
        exampleTimeout 1 2 0)).shared.streams[i]? = some stream →
      stream.phase = .attached → stream.session = some session →
      (∃ shared, (after twoUsers (exampleStream 0 0 1 false ++
          exampleTimeout 1 2 0)).shared.sessions[session]? = some shared ∧
        shared.reader.attends i = true) ∨ .closed ∈ stream.inbox :=
  ⟨by decide +kernel, (serverProxy_attends twoUsers _ (by decide +kernel)).2⟩

open ServerProxy in
/-- The task of a session times out and ends, and its only stream leaves. Then a stream announces
the migrate id again. It gets the session, whose task has ended, and it is not told. -/
theorem serverProxy_left_alone :
    (after twoUsers (exampleStream 0 0 1 false ++ exampleTimeout 1 2 0 ++
      ([.resume 0 .response, .resume 0 .done, .resume 0 .done] : Script) ++
      exampleStream 3 1 1 true)).shared.streams.map
        (fun stream => (stream.session, stream.phase, stream.inbox)) =
      [(some 0, .ended, []), (some 0, .attached, [])] ∧
    (after twoUsers (exampleStream 0 0 1 false ++ exampleTimeout 1 2 0 ++
      ([.resume 0 .response, .resume 0 .done, .resume 0 .done] : Script) ++
      exampleStream 3 1 1 true)).shared.sessions.map (·.reader) = [.ended] := by
  decide +kernel

end Doradus
