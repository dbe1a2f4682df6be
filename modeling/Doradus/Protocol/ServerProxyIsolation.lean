import Doradus.Protocol.ServerProxy

/-!
# Which streams share a session

The map of the server has one key for each migrate id, whoever has announced it. Streams share
a session only if they have the same id, so a session is as private as its id: the ids that
clients announce must not be those of other clients, nor those that the counter is still to
hand out.
-/

namespace Doradus

open Calls Stream List Option Function

namespace ServerProxy

open List

open Yuubinsya (PasswordHash YuubinsyaProtocol decodeHeaderAny)

/-- How a stream has introduced itself, and the migrate id it goes by. -/
structure Announcement where
  passwordHash : PasswordHash
  requested : UInt64
  migrateId : UInt64
  deriving DecidableEq

abbrev Identity := Announcement × Option SessionId

def Stream.identity (stream : Stream) : Identity :=
  (⟨stream.passwordHash, stream.requested, stream.migrateId⟩, stream.session)

def Server.identities (server : Server) : List Identity := server.streams.map Stream.identity

def Server.announcements (server : Server) : List Announcement :=
  server.streams.map fun stream => stream.identity.1

/-- The password hash and the migrate id of a stream that asks for a UDP session. -/
def announced (config : Config) (packet : Octets) : Option (PasswordHash × UInt64) :=
  match decodeHeaderAny config.passwordHashes packet with
  | .error _ => none
  | .ok (header, _, passwordHash) =>
    if header.protocol = .udpWithMigrateId then some (passwordHash, header.migrateId.getD 0)
    else none

/-- The stream for which the call is still to get a session. -/
def Stage.awaits : Stage → Option StreamId
  | .reply stream | .first stream | .lock stream _ | .sweep stream _ _ | .lookup stream _
  | .opening stream _ => some stream
  | .close _ _ next | .collect _ _ next | .notify _ _ _ next | .stop _ _ next => next.stream?
  | _ => none

namespace Server

variable {server server' server'' : Server}

theorem identities_modifyStream (st : StreamId) {f : Stream → Stream} {g : Identity → Identity}
    (sr : Server) (hf : ∀ st, (f st).identity = g st.identity) :
    (sr.modifyStream st f).identities = sr.identities.modify st g := by
  refine ext_getElem? fun i => ?_
  simp only [Server.identities, Server.modifyStream, getElem?_map, getElem?_modify]
  cases sr.streams[i]? with
  | none => rfl
  | some => by_cases hi : st = i <;> simp [hi, hf]

/-- Nobody gets a session, and the map loses entries at most. -/
structure SameStreams (server server' : Server) : Prop where
  identities : server'.identities = server.identities
  sessions : server'.sessions.length = server.sessions.length
  udpSessions : ∀ id session, server'.udpSessions.get? id = some session →
    server.udpSessions.get? id = some session

namespace SameStreams

theorem refl (server : Server) : server.SameStreams server := ⟨rfl, rfl, fun _ _ h => h⟩

theorem trans (h : server.SameStreams server') (h' : server'.SameStreams server'') :
    server.SameStreams server'' :=
  ⟨h'.identities.trans h.identities, h'.sessions.trans h.sessions,
    fun id ss hf => h.udpSessions id ss (h'.udpSessions id ss hf)⟩

theorem modifySession (ss : SessionId) (f : ServerUdpSession → ServerUdpSession)
    (sr : Server) : sr.SameStreams (sr.modifySession ss f) :=
  ⟨rfl, length_modify .., fun _ _ h => h⟩

theorem modifyStream (st : StreamId) {f : Stream → Stream} (sr : Server)
    (hf : ∀ st, (f st).identity = st.identity) : sr.SameStreams (sr.modifyStream st f) := by
  refine ⟨?_, rfl, fun _ _ h => h⟩
  rw [identities_modifyStream st sr (g := id) hf, modify_id]

theorem unlock (sr : Server) : sr.SameStreams sr.unlock := ⟨rfl, rfl, fun _ _ h => h⟩

theorem abandon (st : Stage) (sr : Server) : sr.SameStreams (sr.abandon st) := by
  have hu : sr.SameStreams (if st.holdsLock then sr.unlock else sr) := by
    split_ifs
    · exact unlock sr
    · exact refl sr
  unfold Server.abandon
  dsimp only
  split
  · exact hu.trans (modifyStream _ _ fun _ => rfl)
  · exact hu

theorem takeOut (ord : AssocMap.IterOrder) (next : Next) (p : SessionId → Bool) (sr : Server) :
    sr.SameStreams (sr.takeOut ord next p).2 := by
  refine ⟨rfl, by simp [Server.takeOut, Server.retire], fun id session hf => ?_⟩
  have he : (sr.udpSessions.retain fun _ session => !p session).get? id = some session := hf
  rw [AssocMap.get?_retain, filter_eq_some_iff] at he
  exact he.1

theorem sendMessage {sn : StreamId} {m : ServerUdpMessage} {sent : Bool × Server}
    (h : server.sendMessage sn m = some sent) : server.SameStreams sent.2 := by
  unfold Server.sendMessage at h
  split at h
  · cases h
  split_ifs at h
  · cases h
    exact refl _
  · cases h
    exact modifyStream _ _ fun _ => rfl

theorem runReader {ord : AssocMap.IterOrder} {c : Choice} {id : SessionId}
    {ss : ServerUdpSession} (h : server.runReader ord c id ss = some server') :
    server.SameStreams server' := by
  unfold Server.runReader at h
  split at h
  · split at h
    · cases h
      exact modifySession ..
    · cases h
      exact modifySession ..
    · split_ifs at h
      cases h
      exact modifySession ..
    · cases h
  · split at h <;> cases h <;> exact modifySession ..
  · split at h <;> cases h <;> exact modifySession ..
  · split at h
    · rename_i hs
      cases h
      exact (sendMessage hs).trans (modifySession ..)
    · rename_i hs
      cases h
      exact (sendMessage hs).trans (modifySession ..)
    · cases h
  · cases h
    exact modifySession ..
  · cases h
    exact modifySession ..
  · cases h
    exact modifySession ..
  · cases h
    exact modifySession ..
  · split at h
    · rename_i hs
      cases h
      exact (sendMessage hs).trans (modifySession ..)
    · cases h
  · cases h

end SameStreams

def enrol (stream : Stream) (nextMigrateId : UInt64) (server : Server) : Server :=
  { server with nextMigrateId := nextMigrateId, streams := server.streams ++ [stream] }

/-- All that a step can be, as far as sessions are handed out. -/
inductive Grants (config : Config) (server : Server) : Stage → Caller → Server → Prop
  | nothing (stage : Stage) (caller : Caller) (server' : Server)
      (hsame : server.SameStreams server')
      (hnext : ∀ next, caller = .running next → next.inserts = none ∧
        ∀ stream, next.awaits = some stream → stage.awaits = some stream) :
      Grants config server stage caller server'
  | id (packet : Octets) (passwordHash : PasswordHash) (requested id nextMigrateId : UInt64)
      (hannounced : announced config packet = some (passwordHash, requested))
      (hid : id = if requested = 0 then server.nextMigrateId else requested) :
      Grants config server (.serve packet) (.running (.reply server.streams.length))
        (server.enrol (.new passwordHash requested id) nextMigrateId)
  | found (stream : StreamId) (datagram : Datagram) (session : SessionId) (announced : Stream)
      (server' : Server) (hstream : server.streams[stream]? = some announced)
      (hfound : server.udpSessions.get? announced.migrateId = some session)
      (hsame : server.SameStreams server') :
      Grants config server (.lookup stream datagram) (.running (.route stream datagram session))
        (server'.modifyStream stream (Stream.attach session))
  | opened (stream : StreamId) (datagram : Datagram) (session : ServerUdpSession) :
      Grants config server (.opening stream datagram)
        (.running (.insert stream datagram server.sessions.length))
        ({ server with sessions := server.sessions ++ [session] }.modifyStream stream
          (Stream.attach server.sessions.length))
  | kept (stream : StreamId) (datagram : Datagram) (session : SessionId) (announced : Stream)
      (server' : Server) (hstream : server.streams[stream]? = some announced)
      (hsame : { server with
        udpSessions := server.udpSessions.insert announced.migrateId session }.SameStreams
          server') :
      Grants config server (.insert stream datagram session)
        (.running (.route stream datagram session)) server'

variable {c cn : Config} {st : Stage} {d : Datagram} {ss : SessionId} {ind : ℕ} {ch : Choice}
  {cl : Caller}

theorem Grants.step {next : Stage} (hsm : server.SameStreams server') (hi : next.inserts = none)
    (ha : next.awaits = none ∨ next.awaits = st.awaits) :
    Grants c server st (.running next) server' := by
  refine .nothing st _ server' hsm fun _ hn => ?_
  cases hn
  refine ⟨hi, fun t hs => ?_⟩
  rcases ha with hnn | heq
  · cases hnn.symm.trans hs
  · rw [← heq, hs]

theorem Grants.return {r : Option (Result Unit)} (hs : server.SameStreams server') :
    Grants c server st (.returned r) server' :=
  .nothing st _ server' hs fun _ hn => by cases hn

theorem Grants.closing {stg : Stage} {next : Next} (hs : server.SameStreams server')
    (ha : stg.awaits = next.stream?) (st : List SessionId) :
    Grants c server stg (next.closing st) server' := by
  cases st with
  | nil =>
    cases next with
    | lookup => exact .step hs rfl (.inr ha.symm)
    | shutdown => exact .return hs
  | cons => exact .step hs rfl (.inr ha.symm)

theorem grants_serveDecoded (c : Config) (p : Octets) (sr : Server) :
    Grants c sr (.serve p) (sr.serveDecoded c p).1 (sr.serveDecoded c p).2 := by
  unfold serveDecoded
  split
  · exact .return (.refl sr)
  rename_i he len passwordHash hd
  split
  · exact .return (.refl sr)
  · exact .return (.refl sr)
  · exact .return (.refl sr)
  rename_i hp
  have ha : announced c p = some (passwordHash, he.migrateId.getD 0) := by simp [announced, hd, hp]
  dsimp only
  split_ifs with hr hz
  · exact .step ⟨rfl, rfl, fun _ _ h => h⟩ rfl (.inl rfl)
  · exact .id p _ _ _ _ ha (by rw [if_pos hr])
  · exact .id p _ _ _ _ ha (by rw [if_neg hr])

theorem grants_lookup {st : StreamId} {c : Caller}
    (h : server.lookup st d = some (c, server')) : Grants cn server (.lookup st d) c server' := by
  obtain ⟨a, hs, h⟩ := map_eq_some_iff.mp h
  split at h
  · rename_i ss hf
    cases h
    exact .found st d ss a
      (server.modifySession ss (·.touch server.now)).unlock hs hf
      ((SameStreams.modifySession ..).trans (.unlock _))
  · cases h
    exact .step (.refl _) rfl (.inr rfl)

theorem grants_insertSession {st : StreamId} {c : Caller}
    (h : server.insertSession st d ss = some (c, server')) :
    Grants cn server (.insert st d ss) c server' := by
  obtain ⟨a, hs, h⟩ := map_eq_some_iff.mp h
  cases h
  exact .kept st d ss a _ hs ((SameStreams.modifySession ..).trans (.unlock _))

theorem grants_takeResponse {st : StreamId} {c : Caller}
    (h : server.takeResponse st ss = some (c, server')) :
    Grants cn server (.serving st ss) c server' := by
  have hp : server.SameStreams (server.modifyStream st Stream.pop) := .modifyStream _ _ fun _ => rfl
  unfold takeResponse at h
  split at h
  · cases h
  · cases h
    exact .step (hp.trans (.modifySession ..)) rfl (.inl rfl)
  · cases h
    exact .step (hp.trans (.modifyStream _ _ fun _ => rfl)) rfl (.inl rfl)

theorem grants_poll (h : server.poll c ind ch st = some (cl, server')) :
    Grants c server st cl server' := by
  have hr : ∀ t, server.SameStreams (server.modifyStream t Stream.finish) :=
    fun t => .modifyStream _ _ fun _ => rfl
  have hl : ∀ t, server.SameStreams (server.modifyStream t Stream.detach) :=
    fun t => .modifyStream _ _ fun _ => rfl
  cases st with
  | serve p =>
    have hg := grants_serveDecoded c p server
    rw [some.inj h] at hg
    exact hg
  | reply t =>
    dsimp only [poll] at h
    split at h <;> cases h
    · exact .step (.refl _) rfl (.inr rfl)
    · exact .return (hr t)
  | first t =>
    dsimp only [poll] at h
    split at h <;> cases h
    · exact .step (.refl server) rfl (.inr rfl)
    · exact .step (.refl server) rfl (.inr rfl)
    · exact .return (hr t)
  | lock =>
    dsimp only [poll] at h
    split_ifs at h
    cases h
    exact .step ⟨rfl, rfl, fun _ _ h => h⟩ rfl (.inr rfl)
  | sweep t d =>
    cases h
    exact .closing (.takeOut c.order (.lookup t d) _ server) rfl _
  | close =>
    cases h
    exact .step (.refl server) rfl (.inr rfl)
  | collect =>
    obtain ⟨cls, -, h⟩ := map_eq_some_iff.mp h
    cases h
    exact .step (.refl server) rfl (.inr rfl)
  | notify _ sn =>
    cases sn with
    | nil =>
      cases h
      exact .step (.refl server) rfl (.inr rfl)
    | cons =>
      obtain ⟨sent, hs, h⟩ := map_eq_some_iff.mp h
      cases h
      exact .step (.sendMessage hs) rfl (.inr rfl)
  | stop _ stl =>
    cases h
    exact .closing (.modifySession ..) rfl stl
  | lookup => exact grants_lookup h
  | opening t d =>
    dsimp only [poll] at h
    split at h <;> cases h
    · exact .opened t d _
    · exact .return ((SameStreams.unlock server).trans (.modifyStream _ _ fun _ => rfl))
  | insert => exact grants_insertSession h
  | route | routed =>
    cases h
    exact .step (.modifySession ..) rfl (.inl rfl)
  | send t | back t =>
    dsimp only [poll] at h
    split at h <;> cases h
    · exact .step (.refl server) rfl (.inl rfl)
    · exact .step (hl t) rfl (.inl rfl)
  | serving t =>
    dsimp only [poll] at h
    split at h
    · cases h
      exact .step (.refl server) rfl (.inl rfl)
    · cases h
      exact .step (.refl server) rfl (.inl rfl)
    · cases h
      exact .step (hl t) rfl (.inl rfl)
    · exact grants_takeResponse h
    · cases h
  | leave =>
    obtain ⟨sh, -, h⟩ := map_eq_some_iff.mp h
    cases h
    exact .step (.modifySession ..) rfl (.inl rfl)
  | left =>
    cases h
    exact .return ((SameStreams.modifySession ..).trans (.modifyStream _ _ fun _ => rfl))
  | drain =>
    cases h
    exact .closing (.takeOut c.order .shutdown _ server) rfl _
  | reader =>
    obtain ⟨sh, -, h⟩ := bind_eq_some_iff.mp h
    obtain ⟨server', hrd, h⟩ := map_eq_some_iff.mp h
    cases h
    exact .step (.runReader hrd) rfl (.inl rfl)
  | clock =>
    dsimp only [poll] at h
    split at h <;> cases h
    exact .step ⟨rfl, rfl, fun _ _ h => h⟩ rfl (.inl rfl)

theorem grants_exec (h : server.exec c ind ch st = some (cl, server')) :
    Grants c server st cl server' := by
  unfold exec at h
  split at h
  · split_ifs at h
    cases h
    exact .return (.abandon st _)
  · exact grants_poll h

/-- The sessions can be told apart by the migrate ids of the streams that get them. -/
structure Keyed (key : SessionId → UInt64) (server : Server) : Prop where
  streams : ∀ identity ∈ server.identities, ∀ session, identity.2 = some session →
    session < server.sessions.length ∧ key session = identity.1.migrateId
  udpSessions : ∀ id session, server.udpSessions.get? id = some session →
    session < server.sessions.length ∧ key session = id
  owner : ∀ a ∈ server.announcements, ∀ b ∈ server.announcements,
    a.migrateId = b.migrateId → a.passwordHash = b.passwordHash

/-- If the stream was given its migrate id, then nobody else has it. -/
def Alone (server : Server) (stream : StreamId) : Prop :=
  ∃ a, server.announcements[stream]? = some a ∧ (a.requested = 0 →
    ∀ (j : ℕ) (b : Announcement), server.announcements[j]? = some b → j ≠ stream →
      b.migrateId ≠ a.migrateId)

structure Sees (key : SessionId → UInt64) (server : Server) (stage : Stage) : Prop where
  awaits : ∀ stream, stage.awaits = some stream → server.Alone stream
  inserts : ∀ stream session, stage.inserts = some (stream, session) →
    session < server.sessions.length ∧
      ∃ a, server.announcements[stream]? = some a ∧ key session = a.migrateId

end Server

open Server

/-- A stream that asks for a new id meets a counter whose value no stream has had; a stream that
announces an id meets streams with this id only if they have its password, and none of them was
given the id and is still to get its session. -/
def respected (config : Config) (s : Proxies) : Calls.Event Request Choice → Bool
  | .start _ | .resume _ .dropped => true
  | .resume index _ =>
    match s.calls[index]? with
    | some (.running (.serve packet)) =>
      match announced config packet with
      | none => true
      | some (passwordHash, requested) =>
        if requested = 0 then
          s.shared.announcements.all fun a => a.migrateId ≠ s.shared.nextMigrateId
        else
          (s.shared.announcements.all fun a =>
            a.migrateId = requested → a.passwordHash = passwordHash) &&
          !s.anyAt fun stage => (stage.awaits.bind fun stream =>
            s.shared.announcements[stream]?).any fun a => a.requested = 0 ∧ a.migrateId = requested
    | _ => true

variable {config : Config} {server server' : Server} {key key' : SessionId → UInt64} {stage : Stage}
  {caller : Caller} {s : Proxies} {index i : ℕ} {st : Stream}

theorem Server.identities_of_streams (h : server.streams[i]? = some st) :
    server.identities[i]? = some st.identity := by
  rw [identities, getElem?_map, h, map_some]

theorem Server.announcements_of_streams (h : server.streams[i]? = some st) :
    server.announcements[i]? = some st.identity.1 := by
  rw [announcements, getElem?_map, h, map_some]

theorem Server.announcements_eq_map (sr : Server) :
    sr.announcements = sr.identities.map Prod.fst := by
  simp [announcements, identities]

theorem Server.announcements_attach (st : StreamId) (ss : SessionId) (sr : Server) :
    (sr.modifyStream st (Stream.attach ss)).announcements = sr.announcements := by
  refine ext_getElem? fun i => ?_
  simp only [announcements, modifyStream, getElem?_map, getElem?_modify]
  cases sr.streams[i]? with
  | none => rfl
  | some => by_cases hi : st = i <;> simp [hi, Stream.attach, Stream.identity]

theorem Server.SameStreams.announcements (h : server.SameStreams server') :
    server'.announcements = server.announcements := by
  rw [server'.announcements_eq_map, h.identities, server.announcements_eq_map]

theorem Server.Alone.congr {stream : StreamId} (h : server.Alone stream)
    (heq : server'.announcements = server.announcements) : server'.Alone stream := by
  unfold Alone
  rw [heq]
  exact h

theorem Server.Sees.mono (h : server.Sees key stage)
    (heq : server'.announcements = server.announcements)
    (hs : server.sessions.length ≤ server'.sessions.length)
    (hk : ∀ ss < server.sessions.length, key' ss = key ss) : server'.Sees key' stage := by
  refine ⟨fun t hst => (h.awaits t hst).congr heq, ?_⟩
  intro t ss hi
  obtain ⟨hlt, hid⟩ := h.inserts t ss hi
  rw [heq, hk ss hlt]
  exact ⟨hlt.trans_le hs, hid⟩

theorem Server.Sees.of_none (key : SessionId → UInt64) (sr : Server)
    (ha : stage.awaits = none) (hi : stage.inserts = none) : sr.Sees key stage := by
  refine ⟨fun t hs => ?_, fun t _ hp => ?_⟩
  · cases ha.symm.trans hs
  · cases hi.symm.trans hp

theorem Server.Keyed.same (h : server.Keyed key) (hs : server.SameStreams server') :
    server'.Keyed key := by
  refine ⟨?_, fun id ss hf => ?_, ?_⟩
  · rw [hs.identities, hs.sessions]
    exact h.streams
  · rw [hs.sessions]
    exact h.udpSessions id ss (hs.udpSessions id ss hf)
  · rw [hs.announcements]
    exact h.owner

variable {a : Announcement} {ss : SessionId} {id : UInt64} {c : Choice}

theorem Server.Keyed.attach {st : StreamId} (h : server.Keyed key)
    (hs : server.announcements[st]? = some a) (hss : ss < server.sessions.length)
    (hk : key ss = a.migrateId) :
    (server.modifyStream st (Stream.attach ss)).Keyed key := by
  refine ⟨fun idn hid ss' hss' => ?_, h.udpSessions, ?_⟩
  · rw [server.identities_modifyStream st (g := fun idn => (idn.1, some ss))
      fun _ => rfl] at hid
    obtain ⟨i, hi⟩ := getElem?_of_mem hid
    rw [getElem?_modify] at hi
    by_cases hs' : st = i
    · subst i
      rw [server.announcements_eq_map, getElem?_map] at hs
      cases hat : server.identities[st]? with
      | none =>
        rw [hat] at hs
        cases hs
      | some =>
        simp only [hat, Option.map_eq_map, Option.map_some, Option.some.injEq]
          at hi hs
        subst hi hs
        cases hss'
        exact ⟨hss, hk⟩
    · simp only [hs', if_false, id_map'] at hi
      exact h.streams idn (mem_of_getElem? hi) ss' hss'
  · rw [server.announcements_attach]
    exact h.owner

/-- The condition, for a stream that is about to get its migrate id. -/
structure Respected (s : Proxies) (a : Announcement) : Prop where
  owner : ∀ b ∈ s.shared.announcements, b.migrateId = a.migrateId → b.passwordHash = a.passwordHash
  fresh : a.requested = 0 → ∀ b ∈ s.shared.announcements, b.migrateId ≠ a.migrateId
  awaited : ∀ i stage stream b, s.RunsAt i stage → stage.awaits = some stream →
    s.shared.announcements[stream]? = some b → b.requested = 0 → b.migrateId ≠ a.migrateId

theorem respected_of_serve {p : Octets} {ps : PasswordHash} {r : UInt64}
    (hs : s.RunsAt index (.serve p)) (ha : announced config p = some (ps, r))
    (hid : id = if r = 0 then s.shared.nextMigrateId else r) (hc : c ≠ .dropped)
    (h : respected config s (.resume index c) = true) :
    Respected s ⟨ps, r, id⟩ := by
  have hat : s.calls[index]? = some (.running (.serve p)) := hs
  simp only [respected, hat, ha] at h
  split_ifs at h hid with hr
  · subst hid
    have hf : ∀ b ∈ s.shared.announcements, b.migrateId ≠ s.shared.nextMigrateId := by simpa using h
    exact ⟨fun b hb heq => absurd heq (hf b hb), fun _ => hf,
      fun _ _ _ b _ _ hb _ => hf b (mem_of_getElem? hb)⟩
  subst hid
  rw [Bool.and_eq_true, Bool.not_eq_true'] at h
  refine ⟨fun b hb => of_decide_eq_true (all_eq_true.mp h.1 b hb), fun hz => absurd hz hr, ?_⟩
  intro i _ t b hrn haw hb hz heq
  have hn := hrn.eq_false h.2
  simp [haw, hb, hz, heq] at hn

theorem Server.announcements_enrol (n : UInt64) (sr : Server) (hs : st.identity = (a, none)) :
    (sr.enrol st n).announcements = sr.announcements ++ [a] := by
  simp [announcements, enrol, hs]

theorem Server.Keyed.enrol (h : s.shared.Keyed key) (hr : Respected s a)
    (hst : st.identity = (a, none)) (n : UInt64) :
    (s.shared.enrol st n).Keyed key := by
  refine ⟨fun idn hi ss hs => ?_, h.udpSessions, ?_⟩
  · simp only [identities, Server.enrol, map_append, map_cons, map_nil,
      mem_append, mem_singleton] at hi
    rcases hi with hbf | rfl
    · exact h.streams idn hbf ss hs
    · rw [hst] at hs
      cases hs
  · rw [s.shared.announcements_enrol n hst]
    simp only [forall_mem_append, forall_mem_singleton]
    refine ⟨fun b hb => ⟨h.owner b hb, hr.owner b hb⟩, fun b hb heq => ?_, fun _ => trivial⟩
    exact (hr.owner b hb heq.symm).symm

theorem Server.alone_enrol (hrs : Respected s a) (hs : st.identity = (a, none)) (n : UInt64) :
    (s.shared.enrol st n).Alone s.shared.streams.length := by
  have hl : s.shared.announcements.length = s.shared.streams.length := length_map ..
  unfold Alone
  rw [s.shared.announcements_enrol n hs, ← hl, getElem?_concat_length]
  refine ⟨a, rfl, fun hr j b hb _ => ?_⟩
  have hlt := (List.getElem?_eq_some_iff.mp hb).1
  rw [List.length_append, List.length_singleton] at hlt
  rw [List.getElem?_append_left (by omega)] at hb
  exact hrs.fresh hr b (List.mem_of_getElem? hb)

theorem Server.Sees.enrol (h : s.shared.Sees key stage) (hrn : s.RunsAt i stage)
    (hrs : Respected s a) (hs : st.identity = (a, none)) (n : UInt64) :
    (s.shared.enrol st n).Sees key stage := by
  have hbf : ∀ {j : ℕ} {b : Announcement}, s.shared.announcements[j]? = some b →
      (s.shared.announcements ++ [a])[j]? = some b := fun hb => by
    rw [getElem?_append_left (List.getElem?_eq_some_iff.mp hb).1, hb]
  refine ⟨fun aw ha => ?_, fun st' ss hi => ?_⟩
  · obtain ⟨b, hb, hal⟩ := h.awaits aw ha
    unfold Alone
    rw [s.shared.announcements_enrol n hs]
    refine ⟨b, hbf hb, fun hr j c hc hne => ?_⟩
    by_cases hj : j < s.shared.announcements.length
    · rw [List.getElem?_append_left hj] at hc
      exact hal hr j c hc hne
    rw [List.getElem?_append_right (by omega)] at hc
    obtain rfl : a = c := by
      have hmem := List.mem_of_getElem? hc
      rw [List.mem_singleton] at hmem
      exact hmem.symm
    exact (hrs.awaited i _ aw b hrn ha hb hr).symm
  · obtain ⟨hss, b, hb, hk⟩ := h.inserts st' ss hi
    rw [s.shared.announcements_enrol n hs]
    exact ⟨hss, b, hbf hb, hk⟩

theorem Server.Keyed.opened (h : server.Keyed key) (session : ServerUdpSession) (id : UInt64) :
    { server with sessions := server.sessions ++ [session] }.Keyed
      (Function.update key server.sessions.length id) := by
  have hk : ∀ session < server.sessions.length,
      session < (server.sessions ++ [‹ServerUdpSession›]).length ∧
        update key server.sessions.length id session = key session := by
    intro session hlt
    rw [update_of_ne hlt.ne, length_append]
    exact ⟨by omega, rfl⟩
  refine ⟨fun idn hi session hs => ?_, fun id' session hf => ?_, h.owner⟩
  · obtain ⟨hlt, hid⟩ := h.streams idn hi _ hs
    obtain ⟨hlt', heq⟩ := hk _ hlt
    exact ⟨hlt', heq.trans hid⟩
  · obtain ⟨hlt, hid⟩ := h.udpSessions id' _ hf
    obtain ⟨hlt', heq⟩ := hk _ hlt
    exact ⟨hlt', heq.trans hid⟩

theorem Server.Keyed.insert (h : server.Keyed key)
    (hs : ss < server.sessions.length) (hk : key ss = id) :
    { server with udpSessions := server.udpSessions.insert id ss }.Keyed key := by
  refine ⟨h.streams, fun id' ss' hf => ?_, h.owner⟩
  rw [AssocMap.get?_insert] at hf
  split_ifs at hf with heq
  · cases hf
    exact ⟨hs, hk.trans heq.symm⟩
  · exact h.udpSessions id' ss' hf

/-- The sessions are told apart, and every call can rely on that. -/
def Isolated (key : SessionId → UInt64) (s : Proxies) : Prop :=
  s.Upholds (fun server => server.Keyed key) fun server _ stage => server.Sees key stage

theorem Isolated.others (h : Isolated key s) (heq : server'.announcements = s.shared.announcements)
    (hs : s.shared.sessions.length ≤ server'.sessions.length)
    (hk : ∀ ss < s.shared.sessions.length, key' ss = key ss) :
    ∀ i other, i ≠ index → s.RunsAt i other → server'.Sees key' other :=
  fun i other _ ho => (h.stages i other ho).mono heq hs hk

theorem Isolated.moved (h : Isolated key s) (hstg : s.RunsAt index stage)
    (hr : respected config s (.resume index c) = true)
    (he : s.shared.exec config index c stage = some (caller, server')) :
    ∃ key', Isolated key' (s.moved index caller server') := by
  have hss := h.stages _ _ hstg
  have hg := grants_exec he
  cases hg with
  | nothing _ _ _ hs hn =>
    refine ⟨key, Upholds.moved hstg (h.shared.same hs) (fun next hc => ?_)
      (h.others hs.announcements hs.sessions.ge fun _ _ => rfl)⟩
    obtain ⟨hin, haw⟩ := hn next hc
    refine ⟨fun t hst => ?_, fun t ss hp => ?_⟩
    · exact (hss.awaits t (haw t hst)).congr hs.announcements
    · cases hin.symm.trans hp
  | id _ _ _ _ nextMigrateId han hid =>
    have hch : c ≠ .dropped := by
      rintro rfl
      cases he
    have hnew := respected_of_serve hstg han hid hch hr
    refine ⟨key, Upholds.moved hstg (h.shared.enrol hnew rfl nextMigrateId)
      (fun next hc => ?_)
      fun i o _ ho => (h.stages i o ho).enrol ho hnew rfl nextMigrateId⟩
    cases hc
    refine ⟨fun t hst => ?_, fun _ _ hp => ?_⟩
    · cases hst
      exact alone_enrol hnew rfl nextMigrateId
    · cases hp
  | found t _ ss an server' hst hf hs =>
    obtain ⟨hlt, hk⟩ := h.shared.udpSessions an.migrateId ss hf
    have heq := (server'.announcements_attach t ss).trans hs.announcements
    have han : server'.announcements[t]? = some an.identity.1 := by
      rw [hs.announcements]
      exact announcements_of_streams hst
    refine ⟨key, Upholds.moved hstg ((h.shared.same hs).attach han (hs.sessions ▸ hlt) hk)
      (fun next hc => ?_) (h.others heq hs.sessions.ge fun _ _ => rfl)⟩
    cases hc
    exact .of_none key _ rfl rfl
  | opened t _ ss =>
    obtain ⟨a, ha, -⟩ := hss.awaits t rfl
    have hlt : s.shared.sessions.length < (s.shared.sessions ++ [ss]).length := by simp
    have heq := announcements_attach t s.shared.sessions.length
      { s.shared with sessions := s.shared.sessions ++ [ss] }
    refine ⟨update key s.shared.sessions.length a.migrateId, Upholds.moved hstg
      ((h.shared.opened ss a.migrateId).attach ha hlt (update_self ..))
      (fun next hc => ?_) (h.others heq hlt.le fun i hi => update_of_ne hi.ne ..)⟩
    cases hc
    refine ⟨fun _ haw => ?_, fun _ _ hp => ?_⟩
    · cases haw
    · cases hp
      rw [heq]
      exact ⟨hlt, a, ha, update_self ..⟩
  | kept t _ ss _ _ hst hs =>
    obtain ⟨hlt, a, ha, hk⟩ := hss.inserts t ss rfl
    obtain rfl := some.inj (ha.symm.trans (announcements_of_streams hst))
    refine ⟨key, Upholds.moved hstg ((h.shared.insert hlt hk).same hs)
      (fun next hc => ?_) (h.others hs.announcements hs.sessions.ge fun _ _ => rfl)⟩
    cases hc
    exact .of_none key _ rfl rfl

theorem Isolated.step (h : Isolated key s) (e : Event Request Choice)
    (hr : respected config s e = true) :
    ∃ key', Isolated key' (Calls.step (machine config) s e) := by
  generalize he : Calls.step (machine config) s e = s'
  cases step_effect he with
  | waits => exact ⟨key, h⟩
  | starts r =>
    refine ⟨key, h.started ?_⟩
    cases r <;> exact .of_none key _ rfl rfl
  | acts _ _ _ _ _ hs hex => exact h.moved hs hr hex

theorem isolated_new (key : SessionId → UInt64) : Isolated key ⟨.new, []⟩ := by
  refine ⟨⟨?_, ?_, ?_⟩, by simp [Calls.RunsAt]⟩
  · simp [new, identities]
  · simp [new]
  · simp [new, announcements]

theorem Isolated.shares (h : Isolated key s) {a b : Stream}
    (ha : a ∈ s.shared.streams) (hb : b ∈ s.shared.streams) (hass : a.session = some ss)
    (hbs : b.session = some ss) : a.migrateId = b.migrateId := by
  have hk := (h.shared.streams _ (mem_map_of_mem ha) ss hass).2
  exact hk.symm.trans (h.shared.streams _ (mem_map_of_mem hb) ss hbs).2

theorem Server.Grants.gains {b after : Identity}
    (h : server.Grants config stage caller server') (hb : server.identities[i]? = some b)
    (ha : server'.identities[i]? = some after) (hne : after.2 ≠ b.2) :
    stage.awaits = some i ∧ server'.announcements = server.announcements := by
  have hmv : server'.identities[i]? ≠ server.identities[i]? := by
    intro heq
    rw [ha, hb] at heq
    cases heq
    exact hne rfl
  cases h with
  | nothing _ _ _ hs => exact absurd (by rw [hs.identities]) hmv
  | id =>
    have hlt := (List.getElem?_eq_some_iff.mp hb).1
    rw [identities, enrol, map_append] at hmv
    exact absurd (getElem?_append_left hlt) hmv
  | found t _ ss _ server' _ _ hs =>
    rw [server'.identities_modifyStream t (g := fun idn => (idn.1, some ss))
      fun _ => rfl, hs.identities, getElem?_modify] at ha
    refine ⟨?_, (server'.announcements_attach t ss).trans hs.announcements⟩
    by_cases hi : t = i
    · exact congrArg some hi
    · simp only [hi, if_false, id_map', hb, Option.some.injEq] at ha
      exact absurd (congrArg Prod.snd ha.symm) hne
  | opened t =>
    rw [identities_modifyStream t _
      (g := fun idn => (idn.1, some server.sessions.length)) fun _ => rfl,
      getElem?_modify] at ha
    refine ⟨?_, announcements_attach t _ _⟩
    by_cases hi : t = i
    · exact congrArg some hi
    · simp only [hi, if_false, id_map'] at ha
      cases hb.symm.trans ha
      exact absurd rfl hne
  | kept _ _ _ _ server' _ hs =>
    have hidn : server'.identities = server.identities := hs.identities
    exact absurd (by rw [hidn]) hmv

/-- A stream that has asked for a new migrate id gets the session. -/
def Server.GetsNew (server server' : Server) (i : StreamId) (session : SessionId) : Prop :=
  ∃ before after, server.streams[i]? = some before ∧ before.requested = 0 ∧
    before.session ≠ some session ∧ server'.streams[i]? = some after ∧
    after.session = some session

theorem Isolated.getsNew {j : ℕ} {o : Stream} {session : SessionId} (h : Isolated key s)
    (e : Calls.Event Request Choice) (hrs : respected config s e = true)
    (hgt : s.shared.GetsNew (Calls.step (machine config) s e).shared i session)
    (ho : (Calls.step (machine config) s e).shared.streams[j]? = some o)
    (hj : j ≠ i) : o.session ≠ some session := by
  obtain ⟨b, after, hbf, hr, hne, haf, hs⟩ := hgt
  intro hsh
  obtain ⟨key', h'⟩ := h.step e hrs
  have hsm := h'.shares (mem_of_getElem? ho) (mem_of_getElem? haf) hsh hs
  generalize he : Calls.step (machine config) s e = s' at haf ho ⊢
  cases Calls.step_effect he with
  | waits =>
    rw [hbf] at haf
    cases haf
    exact hne hs
  | starts =>
    have hst : s.shared.streams[i]? = some after := haf
    rw [hbf] at hst
    cases hst
    exact hne hs
  | acts index _ stage _ _ hstg hex =>
    have hg : after.identity.2 ≠ b.identity.2 := fun heq => hne (heq.symm.trans hs)
    obtain ⟨haw, han⟩ := (grants_exec hex).gains
      (identities_of_streams hbf) (identities_of_streams haf) hg
    obtain ⟨a, ha, hal⟩ := (h.stages _ _ hstg).awaits i haw
    have hb := announcements_of_streams ho
    have ha' := announcements_of_streams haf
    dsimp only [Calls.moved] at hb ha'
    rw [han] at hb ha'
    obtain rfl := some.inj (ha.symm.trans (announcements_of_streams hbf))
    obtain heq := some.inj (ha.symm.trans ha')
    apply hal hr j _ hb hj
    rw [heq]
    exact hsm

end ServerProxy

open ServerProxy in
/-- If clients announce only migrate ids that are theirs and that the counter does not hand out,
then streams with different passwords never get the same session, and the session that a stream
gets for a new id has been given to nobody else. -/
theorem serverProxy_isolates (config : ServerProxy.Config)
    (events : List (Calls.Event ServerProxy.Request Choice))
    (hevents : Run.Meets (Calls.step (Server.machine config)) (fun s e => respected config s e)
      ⟨.new, []⟩ events) :
    (∀ a ∈ (after config events).shared.streams, ∀ b ∈ (after config events).shared.streams,
      ∀ session, a.session = some session → b.session = some session →
        a.passwordHash = b.passwordHash) ∧
    ∀ e i j other session, respected config (after config events) e = true →
      (after config events).shared.GetsNew (after config (events ++ [e])).shared i session →
      (after config (events ++ [e])).shared.streams[j]? = some other → j ≠ i →
      other.session ≠ some session := by
  obtain ⟨key, h⟩ : ∃ key, Isolated key (after _ _) :=
    Run.invariant (P := fun s => ∃ key, Isolated key s) _
      (fun _ e h hr => h.elim fun _ h => h.step e hr) _ _ ⟨fun _ => 0, isolated_new _⟩ hevents
  refine ⟨fun a ha b hb session hass hbs => ?_, ?_⟩
  · exact h.shared.owner _ (mem_map_of_mem ha) _ (mem_map_of_mem hb) (h.shares ha hb hass hbs)
  intro e i j other session hr hg ho hj
  have hstep : after config (events ++ [e]) =
      Calls.step (Server.machine config) (after config events) e := Run.run_append ..
  rw [hstep] at hg ho
  exact h.getsNew e hr hg ho hj

open ServerProxy in
theorem serverProxy_isolates_continued :
    (after twoUsers (exampleStream 0 0 1 false ++ exampleStream 1 1 1 true ++
      exampleStream 2 0 2 false)).shared.streams.map (·.session) = [some 0, some 0, some 1] ∧
    ∀ a ∈ (after twoUsers (exampleStream 0 0 1 false ++ exampleStream 1 1 1 true ++
      exampleStream 2 0 2 false)).shared.streams,
    ∀ b ∈ (after twoUsers (exampleStream 0 0 1 false ++ exampleStream 1 1 1 true ++
      exampleStream 2 0 2 false)).shared.streams,
      ∀ session, a.session = some session → b.session = some session →
        a.passwordHash = b.passwordHash := by
  refine ⟨by decide +kernel, (serverProxy_isolates _ _ (by decide +kernel)).1⟩

open ServerProxy in
/-- A client announces the migrate id that the counter hands out next. The stream of another
client, which asks for a new id, gets its session. -/
theorem serverProxy_shares_session :
    (after twoUsers (exampleStream 0 1 1 false ++ exampleStream 1 0 2 true)).shared.streams.map
      (fun stream => (stream.requested, stream.session, stream.phase)) =
        [(1, some 0, .attached), (0, some 0, .attached)] ∧
    (after twoUsers (exampleStream 0 1 1 false ++ exampleStream 1 0 2 true)).shared.streams.map
      (·.passwordHash) = [Vector.replicate 32 1, Vector.replicate 32 2] := by
  decide +kernel

end Doradus
