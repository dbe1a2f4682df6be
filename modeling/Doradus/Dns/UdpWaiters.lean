import Doradus.Lib.AssocMap
import Doradus.Lib.Run
import Doradus.Types.DomainName

/-!
# The waiters of the UDP DNS client

Every `query_packet_once` files the sender of a oneshot channel in one shared map, under the id,
name and type of its query. Whoever removes an entry sends a reply through it or drops it, which
its call reads as `closed`; the first reply counts. Each socket has a receiver; one that meets an
error empties the map, whichever sockets the calls in it use.
-/

namespace Doradus.UdpDns

abbrev PendingKey := UInt16 × DomainName × UInt16

inductive Reply
  | response (packet : ℕ)
  | bindError | sendError | timeout | closed | receiveError
deriving DecidableEq

/-- A call is in `socket()`; has its socket and is not in the map yet; is in `send_to`, with what
its channel holds; waits for its channel; or is over. -/
inductive Phase
  | binding
  | holding (socket : ℕ)
  | sending (socket : ℕ) (reply : Option Reply)
  | waiting (socket : ℕ)
  | done (reply : Reply)
  | cancelled
deriving DecidableEq

namespace Phase

/-- The socket of a call that has no reply yet and is to be found in the map. -/
def awaits : Phase → Option ℕ
  | .sending socket none => some socket
  | .waiting socket => some socket
  | _ => none

def isOver : Phase → Bool
  | .done _ => true
  | .cancelled => true
  | _ => false

/-- The channel of the call gets a reply, or is closed. -/
def take (reply : Reply) : Phase → Phase
  | .sending socket none => .sending socket (some reply)
  | .waiting _ => .done reply
  | phase => phase

variable {phase : Phase}

theorem take_eq_self (h : phase.awaits = none) (reply : Reply) : phase.take reply = phase := by
  unfold take
  split <;> simp_all [awaits]

@[simp] theorem awaits_take (reply : Reply) (phase : Phase) : (phase.take reply).awaits = none := by
  unfold take
  split <;> first | rfl | (unfold awaits; split <;> simp_all)

end Phase

structure Call where
  key : PendingKey
  phase : Phase
deriving DecidableEq

def Call.take (reply : Reply) (call : Call) : Call := { call with phase := call.phase.take reply }

structure ClientState where
  /-- The stored socket. -/
  socket : Option ℕ
  /-- Whether the receiver of each socket is running. -/
  receivers : List Bool
  calls : List Call
  pending : AssocMap PendingKey ℕ

inductive Input
  | start (key : PendingKey)
  | bound (c : ℕ) (ok : Bool)
  | register (c : ℕ)
  | sent (c : ℕ) (ok : Bool)
  | timeout (c : ℕ)
  | cancel (c : ℕ)
  | response (socket : ℕ) (key : PendingKey) (packet : ℕ)
  | receiveError (socket : ℕ)

/-- The call that takes the step, or is dropped in it. -/
def Input.subject : Input → Option ℕ
  | .bound c _ | .register c | .sent c _ | .timeout c | .cancel c => some c
  | .start _ | .response _ _ _ | .receiveError _ => none

namespace ClientState

def new : ClientState := ⟨none, [], [], ∅⟩

variable (s : ClientState)

def setPhase (c : ℕ) (phase : Phase) : ClientState :=
  { s with calls := s.calls.modify c fun call => { call with phase } }

/-- Remove the entry of a key, whoever filed it, and send `reply` through it. -/
def take (key : PendingKey) (reply : Reply) : ClientState :=
  match s.pending.get? key with
  | some owner =>
    { s with calls := s.calls.modify owner (Call.take reply), pending := s.pending.erase key }
  | none => s

/-- `socket()` has bound a socket; another call may have stored one meanwhile. -/
def bound (c : ℕ) : ClientState :=
  match s.socket with
  | some socket => s.setPhase c (.holding socket)
  | none =>
    { s.setPhase c (.holding s.receivers.length) with
      socket := some s.receivers.length
      receivers := s.receivers ++ [true] }

/-- Every sender in the map gets the error. -/
def drain (socket : ℕ) : ClientState where
  socket := if s.socket = some socket then none else s.socket
  receivers := s.receivers.set socket false
  calls := s.calls.mapIdx fun c call =>
    if s.pending.get? call.key = some c then call.take .receiveError else call
  pending := ∅

def step : Input → ClientState
  | .start key =>
    { s with calls := s.calls ++ [⟨key, match s.socket with
      | some socket => .holding socket
      | none => .binding⟩] }
  | .bound c ok =>
    match s.calls[c]? with
    | some ⟨_, .binding⟩ => if ok then s.bound c else s.setPhase c (.done .bindError)
    | _ => s
  | .register c =>
    match s.calls[c]? with
    | some ⟨key, .holding socket⟩ =>
      let replaced := s.take key .closed
      { replaced.setPhase c (.sending socket none) with pending := replaced.pending.insert key c }
    | _ => s
  | .sent c ok =>
    match s.calls[c]? with
    | some ⟨key, .sending socket reply⟩ =>
      if ok then s.setPhase c ((reply.map Phase.done).getD (.waiting socket))
      else (s.setPhase c (.done .sendError)).take key .closed
    | _ => s
  | .timeout c =>
    match s.calls[c]? with
    | some ⟨key, .waiting _⟩ => (s.setPhase c (.done .timeout)).take key .closed
    | _ => s
  | .cancel c =>
    match s.calls[c]? with
    | some call => if call.phase.isOver then s else s.setPhase c .cancelled
    | none => s
  | .response socket key packet =>
    if s.receivers[socket]? = some true then s.take key (.response packet) else s
  | .receiveError socket => if s.receivers[socket]? = some true then s.drain socket else s

/-- No call with the key awaits a reply. -/
def Vacant (key : PendingKey) : Prop := ∀ call ∈ s.calls, call.key = key → call.phase.awaits = none

/-- A query is filed only while no equal one awaits its reply, and only if the receiver of its
socket runs; a send does not fail after the reply when an equal query has been filed since; a call
that awaits its reply is not dropped, and no receiver meets an error while one does. -/
def Distinct : Input → Prop
  | .register c => ∀ key socket, s.calls[c]? = some ⟨key, .holding socket⟩ →
    s.receivers[socket]? = some true ∧ s.Vacant key
  | .sent c ok => ∀ key socket reply, s.calls[c]? = some ⟨key, .sending socket (some reply)⟩ →
    ok = false → s.Vacant key
  | .cancel c => ∀ call, s.calls[c]? = some call → call.phase.awaits = none
  | .receiveError socket => s.receivers[socket]? = some true →
    ∀ call ∈ s.calls, call.phase.awaits = none
  | _ => True

structure Sound : Prop where
  entries : ∀ key c, s.pending.get? key = some c ↔
    ∃ call, s.calls[c]? = some call ∧ call.key = key ∧ call.phase.awaits ≠ none
  attended : ∀ call ∈ s.calls, ∀ socket, call.phase.awaits = some socket →
    s.receivers[socket]? = some true

end ClientState

open ClientState

/-- The map is in order, and the calls other than the given one are as they were. -/
def Keeps (c : Option ℕ) (s s' : ClientState) : Prop :=
  s'.Sound ∧ ∀ (c' : ℕ) call, s.calls[c']? = some call → c ≠ some c' → s'.calls[c']? = some call

namespace ClientState.Sound

variable {s : ClientState} (h : s.Sound) {c : ℕ} {key : PendingKey} {call : Call}
include h

theorem pending_eq_none (hv : s.Vacant key) : s.pending.get? key = none := by
  rcases hget : s.pending.get? key with _ | owner
  · rfl
  · obtain ⟨call, hc, hk, ha⟩ := (h.entries key owner).1 hget
    exact absurd (hv call (List.mem_of_getElem? hc) hk) ha

theorem pending_eq_some (hc : s.calls[c]? = some call) (ha : call.phase.awaits ≠ none) :
    s.pending.get? call.key = some c :=
  (h.entries call.key c).2 ⟨call, hc, rfl, ha⟩

theorem eq_of_awaits (c' : ℕ) (call' : Call) (hc : s.calls[c]? = some call)
    (ha : call.phase.awaits ≠ none) (hc' : s.calls[c']? = some call')
    (ha' : call'.phase.awaits ≠ none) (hk : call'.key = call.key) : c' = c := by
  have he := h.pending_eq_some hc ha
  rw [← hk, h.pending_eq_some hc' ha'] at he
  exact Option.some.inj he

/-- What becomes of the map when one call changes: `pending` has its entry exactly if it awaits. -/
theorem update {s' : ClientState} (phase : Phase) (hc : s.calls[c]? = some call)
    (hcalls : ∀ c' : ℕ, s'.calls[c']? = if c' = c then some { call with phase } else s.calls[c']?)
    (hpending : ∀ key, s'.pending.get? key =
      if key = call.key ∧ (phase.awaits ≠ none ∨ call.phase.awaits ≠ none) then
        if phase.awaits ≠ none then some c else none
      else s.pending.get? key)
    (hreceivers : ∀ socket : ℕ, s.receivers[socket]? = some true →
      s'.receivers[socket]? = some true)
    (hvacant : phase.awaits ≠ none → call.phase.awaits = none → s.Vacant call.key)
    (hrunning : ∀ socket : ℕ, phase.awaits = some socket → s'.receivers[socket]? = some true) :
    s'.Sound := by
  refine ⟨fun key c' => ?_, fun call' hmem socket ha => ?_⟩
  · have he := h.entries key c'
    have hk := h.entries call.key c
    have heq (call' : Call) := h.eq_of_awaits c' call' hc
    have hv (hv : s.Vacant call.key) (call' : Call) (hc' : s.calls[c']? = some call') :=
      hv call' (List.mem_of_getElem? hc')
    rw [hpending, hcalls]
    grind
  · obtain ⟨c', hc'⟩ := List.mem_iff_getElem?.mp hmem
    rw [hcalls] at hc'
    split_ifs at hc' with heq
    · cases hc'
      exact hrunning socket ha
    · exact hreceivers socket (h.attended call' (List.mem_of_getElem? hc') socket ha)

theorem take (key : PendingKey) (reply : Reply) : (s.take key reply).Sound := by
  unfold ClientState.take
  split
  · rename_i owner hget
    obtain ⟨call, hc, rfl, ha⟩ := (h.entries key owner).1 hget
    refine h.update (call.phase.take reply) hc (fun c' => ?_) (fun key' => ?_)
      (fun _ => id) (by simp) (by simp)
    · simp only [List.getElem?_modify]
      grind [Call.take]
    · simp only [AssocMap.get?_erase]
      grind [Phase.awaits_take]
  · exact h

theorem calls_take (key : PendingKey) (reply : Reply) (c : ℕ) : (s.take key reply).calls[c]? =
    s.calls[c]?.map fun call => if call.key = key then call.take reply else call := by
  unfold ClientState.take
  rcases hc : s.calls[c]? with _ | call
  · split <;> simp_all
  have htake (ha : call.phase.awaits = none) : call.take reply = call := by
    rw [Call.take, Phase.take_eq_self ha]
  have he := h.entries key
  have hp := h.pending_eq_some hc
  split
  · simp only [List.getElem?_modify]
    grind
  · grind

theorem take_of_vacant (hv : s.Vacant key) (reply : Reply) : s.take key reply = s := by
  rw [ClientState.take, h.pending_eq_none hv]

theorem keeps_refl (c : Option ℕ) : Keeps c s s := ⟨h, fun _ _ hc _ => hc⟩

omit h in
theorem keeps_update {s' : ClientState} {updated : Option Call}
    (hcalls : ∀ c' : ℕ, s'.calls[c']? = if c' = c then updated else s.calls[c']?)
    (hs : s'.Sound) : Keeps (some c) s s' := by
  refine ⟨hs, fun c' call' hc' hne => ?_⟩
  rw [hcalls, if_neg fun he => hne (congrArg some he.symm), hc']

/-- A failed send or a timeout of a call that awaits its reply removes its own entry. -/
theorem keeps_fail (hc : s.calls[c]? = some call) (ha : call.phase.awaits ≠ none) (reply : Reply) :
    Keeps (some c) s ((s.setPhase c (.done reply)).take call.key .closed) := by
  have hp : (s.setPhase c (.done reply)).pending.get? call.key = some c := h.pending_eq_some hc ha
  have hcalls (c' : ℕ) : ((s.setPhase c (.done reply)).take call.key .closed).calls[c']? =
      if c' = c then some { call with phase := .done reply } else s.calls[c']? := by
    rw [ClientState.take, hp]
    simp only [ClientState.setPhase, List.getElem?_modify]
    grind [Call.take, Phase.take]
  refine keeps_update hcalls (h.update _ hc hcalls (fun key => ?_) ?_ (absurd rfl)
    (by simp [Phase.awaits]))
  · rw [ClientState.take, hp]
    simp only [ClientState.setPhase, AssocMap.get?_erase]
    grind [Phase.awaits]
  · rw [ClientState.take, hp]
    exact fun _ => id

theorem keeps_setPhase (hc : s.calls[c]? = some call) (phase : Phase)
    (ha : phase.awaits = call.phase.awaits) : Keeps (some c) s (s.setPhase c phase) := by
  have hcalls (c' : ℕ) : (s.setPhase c phase).calls[c']? =
      if c' = c then some { call with phase } else s.calls[c']? := by
    simp only [ClientState.setPhase, List.getElem?_modify]
    grind
  refine keeps_update hcalls (h.update _ hc hcalls (fun key => ?_) (fun _ => id)
    (fun hn hv => absurd (ha.trans hv) hn) fun socket hs => ?_)
  · have hp := h.pending_eq_some hc
    grind [ClientState.setPhase]
  · exact h.attended call (List.mem_of_getElem? hc) socket (ha ▸ hs)

theorem keeps_start (key : PendingKey) : Keeps none s (s.step (.start key)) := by
  refine ⟨⟨fun key' c => ?_, fun call hmem socket ha => ?_⟩, fun c call hc _ => ?_⟩
  · have he := h.entries key' c
    simp only [ClientState.step, List.getElem?_append]
    grind [Phase.awaits]
  · rcases List.mem_append.mp hmem with hmem | hmem
    · exact h.attended call hmem socket ha
    · obtain rfl := List.mem_singleton.mp hmem
      revert ha
      dsimp only
      split <;> simp [Phase.awaits]
  · exact (List.getElem?_append_left (List.getElem?_eq_some_iff.mp hc).1).trans hc

theorem keeps_bound (hc : s.calls[c]? = some call) (hb : call.phase = .binding) :
    Keeps (some c) s (s.bound c) := by
  have hold (socket : ℕ) := h.keeps_setPhase hc (.holding socket) (by rw [hb]; rfl)
  unfold ClientState.bound
  split
  · exact hold _
  · obtain ⟨hs, hcalls⟩ := hold s.receivers.length
    refine ⟨⟨hs.entries, fun call hmem socket ha => ?_⟩, hcalls⟩
    have hr := hs.attended call hmem socket ha
    exact (List.getElem?_append_left (List.getElem?_eq_some_iff.mp hr).1).trans hr

theorem keeps_register {socket : ℕ} (hc : s.calls[c]? = some ⟨key, .holding socket⟩)
    (hr : s.receivers[socket]? = some true) (hv : s.Vacant key) :
    Keeps (some c) s { s.setPhase c (.sending socket none) with
      pending := s.pending.insert key c } := by
  have hcalls (c' : ℕ) : (s.setPhase c (.sending socket none)).calls[c']? =
      if c' = c then some ⟨key, .sending socket none⟩ else s.calls[c']? := by
    simp only [ClientState.setPhase, List.getElem?_modify]
    grind
  refine keeps_update hcalls
    (h.update _ hc hcalls (fun key' => ?_) (fun _ => id) (fun _ _ => hv) ?_)
  · simp only [AssocMap.get?_insert]
    grind [Phase.awaits]
  · rintro _ ⟨⟩
    exact hr

theorem keeps_drain (hn : ∀ call ∈ s.calls, call.phase.awaits = none) (socket : ℕ) :
    Keeps none s (s.drain socket) := by
  have hnone (c : ℕ) (call : Call) : s.pending.get? call.key ≠ some c := fun hp => by
    obtain ⟨call', hc', -, ha⟩ := (h.entries _ _).1 hp
    exact ha (hn call' (List.mem_of_getElem? hc'))
  have hcalls : (s.drain socket).calls = s.calls := by
    refine List.ext_getElem? fun c => ?_
    simp only [drain, List.getElem?_mapIdx]
    rcases hc : s.calls[c]? with _ | call
    · rfl
    · simp [hnone c call]
  refine ⟨⟨fun key c => ?_, fun call hmem socket ha => ?_⟩, fun c _ hc _ => by rw [hcalls, hc]⟩
  · rw [hcalls]
    refine iff_of_false (by simp [drain]) ?_
    rintro ⟨call, hc, -, ha⟩
    exact ha (hn call (List.mem_of_getElem? hc))
  · rw [hcalls] at hmem
    rw [hn call hmem] at ha
    cases ha

/-- A step that meets the condition keeps the map in order and touches no other call; a response
is the exception. -/
theorem keeps_step {input : Input} (hd : s.Distinct input)
    (hr : ∀ socket key packet, input ≠ .response socket key packet) :
    Keeps input.subject s (s.step input) := by
  cases input with
  | start key => exact h.keeps_start key
  | bound c ok =>
    dsimp only [ClientState.step]
    split
    · rename_i hc
      split_ifs
      · exact h.keeps_bound hc rfl
      · exact h.keeps_setPhase hc _ rfl
    · exact h.keeps_refl _
  | register c =>
    dsimp only [ClientState.step]
    split
    · rename_i key socket hc
      obtain ⟨hr, hv⟩ := hd key socket hc
      rw [h.take_of_vacant hv]
      exact h.keeps_register hc hr hv
    · exact h.keeps_refl _
  | sent c ok =>
    dsimp only [ClientState.step]
    split
    · rename_i key socket reply hc
      split_ifs with hok
      · cases reply <;> exact h.keeps_setPhase hc _ rfl
      · cases reply with
        | none => exact h.keeps_fail hc nofun .sendError
        | some reply =>
          have hv := hd key socket reply hc (Bool.eq_false_of_not_eq_true hok)
          have he : (s.setPhase c (.done .sendError)).pending.get? key = none :=
            h.pending_eq_none hv
          rw [ClientState.take, he]
          exact h.keeps_setPhase hc _ rfl
    · exact h.keeps_refl _
  | timeout c =>
    dsimp only [ClientState.step]
    split
    · rename_i hc
      exact h.keeps_fail hc nofun .timeout
    · exact h.keeps_refl _
  | cancel c =>
    dsimp only [ClientState.step]
    split
    · rename_i call hc
      split_ifs
      · exact h.keeps_refl _
      · exact h.keeps_setPhase hc _ (hd call hc).symm
    · exact h.keeps_refl _
  | response => exact absurd rfl (hr _ _ _)
  | receiveError socket =>
    dsimp only [ClientState.step]
    split_ifs with hr
    · exact h.keeps_drain (hd hr) socket
    · exact h.keeps_refl _

theorem step {input : Input} (hd : s.Distinct input) : (s.step input).Sound := by
  cases input with
  | response =>
    dsimp only [ClientState.step]
    split_ifs
    · exact h.take _ _
    · exact h
  | _ => exact (h.keeps_step hd nofun).1

/-- A response that comes to the socket of a call which awaits it goes to that call. -/
theorem answered (hc : s.calls[c]? = some call) {socket : ℕ} (ha : call.phase.awaits = some socket)
    (packet : ℕ) : (s.step (.response socket call.key packet)).calls[c]? =
      some (call.take (.response packet)) := by
  rw [ClientState.step, if_pos (h.attended call (List.mem_of_getElem? hc) socket ha), h.calls_take,
    hc, Option.map_some, if_pos rfl]

end ClientState.Sound

def query (id : UInt16) : PendingKey := (id, ⟨"q.test".toList, by decide⟩, 1)

end Doradus.UdpDns
