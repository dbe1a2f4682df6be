import Doradus.Lib.Calls
import Doradus.Protocol.QuicCodec

/-!
# Associations of a QUIC connection

The associations of a client session or of a server dispatcher with their receive queues,
which share one counter of queued octets. Each stage of a call ends with one access to what
the calls share: an atomic, a lock, the queue of an association. It acts on one association,
and changes the counter by what it changes in the queue and in what the call has still to
give back.
-/

namespace Doradus

namespace Quic

/-- The part of `QuicServerConfig` that bounds associations and queues. -/
structure QueueConfig where
  maxAssociations : ℕ
  rxQueueCapacity : ℕ
  rxMemoryBudget : ℕ

/-- Whether the sender is in place, the number of its clones, and the call that has locked the
receiver. -/
structure Association where
  id : UInt32
  sender : Bool
  clones : ℕ
  queue : List Octets
  receiver : Option ℕ
  reassembler : FragmentReassembler
  closed : Bool

def Association.new (id : UInt32) : Association :=
  ⟨id, true, 0, [], none, .new fragmentReassemblyTimeout maxIncompleteBytesPerAssociation, false⟩

def Association.bytes (association : Association) : ℕ := (association.queue.map List.length).sum

/-- A `ClientSession` or a `ServerDispatcher`. Associations are known by their place in the
list; the table has those that are not removed. -/
structure Session where
  queuedBytes : ℕ
  associations : List Association
  table : AssocMap UInt32 ℕ
  tableLocked : Bool

def Session.new : Session := ⟨0, [], ∅, false⟩

def Session.put (s : Session) (a : ℕ) (association : Association) : Session :=
  { s with associations := s.associations.set a association }

/-- What a call does after `close_sender`: it may have to release the table, and it may have
other associations to close. -/
structure After where
  locked : Bool
  next : List ℕ

inductive Action where
  | assemble (frame : Frame) (now : Instant)
  | cloneSender (payload : Octets)
  | reserve (payload : Octets)
  | offer (payload : Octets) (queued : ℕ)
  | refund (payload : Octets)
  | dropSender
  | lockReceiver (size : ℕ)
  | receive (size : ℕ)
  | received (size : ℕ) (payload : Octets)
  | close
  | removeOwn
  | markClosed (after : After)
  | takeSender (after : After)
  | lockDrain (after : After)
  | drain (after : After)
  | drained (payload : Octets) (after : After)

inductive Stage where
  | openAssociation (id : UInt32)
  | removeAssociation (id : UInt32)
  | takeTable
  | on (a : ℕ) (action : Action)

inductive Returned where
  | done
  | received (result : Result Octets)

abbrev Caller := Call Stage Returned

inductive Request where
  | openAssociation (id : UInt32)
  | receiveFrame (a : ℕ) (frame : Frame) (now : Instant)
  | recv (a size : ℕ)
  | close (a : ℕ)
  | closeSender (a : ℕ)
  | removeAssociation (id : UInt32)
  | endDispatcher

def Request.enter : Request → Stage
  | .openAssociation id => .openAssociation id
  | .receiveFrame a frame now => .on a (.assemble frame now)
  | .recv a size => .on a (.lockReceiver size)
  | .close a => .on a .close
  | .closeSender a => .on a (.markClosed ⟨false, []⟩)
  | .removeAssociation id => .removeAssociation id
  | .endDispatcher => .takeTable

/-- `close_sender` for some associations, one after another. -/
def closeSenders : List ℕ → Caller
  | [] => .returned .done
  | a :: next => .running (.on a (.markClosed ⟨false, next⟩))

/-- The budget admits the payload, and the queue has room for it. -/
def accepts (config : QueueConfig) (association : Association) (payload : Octets) (queued : ℕ) :
    Bool :=
  min (queued + payload.length) usizeMax ≤ config.rxMemoryBudget &&
    association.queue.length < config.rxQueueCapacity

def recvResult (size : ℕ) (payload : Octets) : Result Octets :=
  if size < payload.length then
    .error ⟨.invalidInput, "QUIC datagram receive buffer is too small"⟩
  else .ok payload

namespace Session

variable (config : QueueConfig) (ord : AssocMap.IterOrder) (call : ℕ) (ownerAlive : Bool)

/-- `open_association` of a client, `association` of a server. -/
def openAssociation (s : Session) (id : UInt32) : Session :=
  if s.table.contains id ∨ config.maxAssociations ≤ s.table.size then s
  else { s with
    associations := s.associations ++ [.new id]
    table := s.table.insert id s.associations.length }

def execAction (s : Session) (a : ℕ) (association : Association) :
    Action → Option (Caller × Session)
  | .assemble frame now =>
    let (payload, reassembler) := (association.reassembler.push ord frame now).value
    some (payload.elim (.returned .done) fun payload => .running (.on a (.cloneSender payload)),
      s.put a { association with reassembler := reassembler })
  | .cloneSender payload =>
    if association.sender then
      some (.running (.on a (.reserve payload)),
        s.put a { association with clones := association.clones + 1 })
    else some (.returned .done, s)
  | .reserve payload =>
    some (.running (.on a (.offer payload s.queuedBytes)),
      { s with queuedBytes := s.queuedBytes + payload.length })
  | .offer payload queued =>
    if accepts config association payload queued then
      some (.running (.on a .dropSender),
        s.put a { association with queue := association.queue ++ [payload] })
    else some (.running (.on a (.refund payload)), s)
  | .refund payload =>
    some (.running (.on a .dropSender), { s with queuedBytes := s.queuedBytes - payload.length })
  | .dropSender =>
    some (.returned .done, s.put a { association with clones := association.clones - 1 })
  | .lockReceiver size =>
    if association.receiver = none then
      some (.running (.on a (.receive size)), s.put a { association with receiver := some call })
    else none
  | .receive size =>
    match association.queue with
    | payload :: queue =>
      some (.running (.on a (.received size payload)), s.put a { association with queue := queue })
    | [] =>
      if association.sender = false ∧ association.clones = 0 then
        some (.returned (.received (.error ⟨.closed, "QUIC datagram association closed"⟩)),
          s.put a { association with receiver := none })
      else none
  | .received size payload =>
    some (.returned (.received (recvResult size payload)),
      { s.put a { association with receiver := none } with
        queuedBytes := s.queuedBytes - payload.length })
  | .close =>
    some (.running (.on a (if ownerAlive then .removeOwn else .markClosed ⟨false, []⟩)),
      s.put a { association with closed := true })
  | .removeOwn =>
    if s.tableLocked then none
    else
      match s.table.get? association.id with
      | none => some (.running (.on a (.markClosed ⟨false, []⟩)), s)
      | some other =>
        some (.running (.on other (.markClosed ⟨true, [a]⟩)),
          { s with table := s.table.erase association.id, tableLocked := true })
  | .markClosed after =>
    some (.running (.on a (.takeSender after)), s.put a { association with closed := true })
  | .takeSender after =>
    some (.running (.on a (.lockDrain after)), s.put a { association with sender := false })
  | .lockDrain after =>
    if association.receiver = none then
      some (.running (.on a (.drain after)), s.put a { association with receiver := some call })
    else none
  | .drain after =>
    match association.queue with
    | payload :: queue =>
      some (.running (.on a (.drained payload after)), s.put a { association with queue := queue })
    | [] =>
      some (closeSenders after.next, { s.put a { association with receiver := none } with
          tableLocked := s.tableLocked && !after.locked })
  | .drained payload after =>
    some (.running (.on a (.drain after)), { s with queuedBytes := s.queuedBytes - payload.length })

def exec (s : Session) : Stage → Option (Caller × Session)
  | .openAssociation id =>
    if s.tableLocked then none else some (.returned .done, s.openAssociation config id)
  | .removeAssociation id =>
    if s.tableLocked then none
    else
      match s.table.get? id with
      | none => some (.returned .done, s)
      | some a => some (.running (.on a (.markClosed ⟨true, []⟩)),
          { s with table := s.table.erase id, tableLocked := true })
  | .takeTable =>
    if s.tableLocked then none
    else some (closeSenders ((ord s.table.entries).map Prod.snd), { s with table := ∅ })
  | .on a action =>
    s.associations[a]?.bind fun association =>
      s.execAction config ord call ownerAlive a association action

/-- The calls on a session. The environment decides whether the owner of an association that
is closed is still there. -/
def machine : Calls.Machine Session Stage Returned Request Bool :=
  ⟨Request.enter, fun call ownerAlive stage s => s.exec config ord call ownerAlive stage⟩

end Session

namespace Action

def owed : Action → ℕ
  | .offer payload _ => payload.length
  | .refund payload => payload.length
  | .received _ payload => payload.length
  | .drained payload _ => payload.length
  | _ => 0

def charge (count : ℕ) : Action → ℕ
  | .reserve payload => count + payload.length
  | .refund payload => count - payload.length
  | .received _ payload => count - payload.length
  | .drained payload _ => count - payload.length
  | _ => count

def holdsReceiver : Action → Bool
  | .receive _ => true
  | .received _ _ => true
  | .drain _ => true
  | .drained _ _ => true
  | _ => false

def holdsClone : Action → Bool
  | .reserve _ => true
  | .offer _ _ => true
  | .refund _ => true
  | .dropSender => true
  | _ => false

def receivesFrame : Action → Bool
  | .assemble _ _ => true
  | .cloneSender _ => true
  | action => action.holdsClone

def takes : Action → Bool
  | .close => true
  | .removeOwn => true
  | .markClosed _ => true
  | .takeSender _ => true
  | _ => false

def drains : Action → Bool
  | .lockDrain _ => true
  | .drain _ => true
  | .drained _ _ => true
  | action => action.takes

def next : Action → List ℕ
  | .markClosed after => after.next
  | .takeSender after => after.next
  | .lockDrain after => after.next
  | .drain after => after.next
  | .drained _ after => after.next
  | _ => []

end Action

namespace Stage

def owed : Stage → ℕ
  | .on _ action => action.owed
  | _ => 0

/-- The octets of one association that the call still has in the counter. -/
def owedTo (b : ℕ) : Stage → ℕ
  | .on a action => if a = b then action.owed else 0
  | _ => 0

def HoldsReceiver (b : ℕ) : Stage → Prop
  | .on a action => a = b ∧ action.holdsReceiver = true
  | _ => False

def HoldsClone (b : ℕ) : Stage → Prop
  | .on a action => a = b ∧ action.holdsClone = true
  | _ => False

def ReceivesFrame (b : ℕ) : Stage → Prop
  | .on a action => a = b ∧ action.receivesFrame = true
  | _ => False

def Takes (b : ℕ) : Stage → Prop
  | .on a action => (a = b ∧ action.takes = true) ∨ b ∈ action.next
  | _ => False

def Closes (b : ℕ) : Stage → Prop
  | .on a action => (a = b ∧ action.drains = true) ∨ b ∈ action.next
  | _ => False

end Stage

namespace Session

variable {s s' : Session} {config : QueueConfig} {ord : AssocMap.IterOrder} {index a : ℕ}
  {ownerAlive : Bool} {association association' : Association} {action : Action} {stage : Stage}
  {caller : Caller}

inductive Acts (config : QueueConfig) (index a : ℕ) (association : Association) :
    Action → Caller → Association → Prop
  | incomplete (frame : Frame) (now : Instant) (reassembler : FragmentReassembler) :
      Acts config index a association (.assemble frame now) (.returned .done)
        { association with reassembler := reassembler }
  | complete (frame : Frame) (now : Instant) (payload : Octets)
      (reassembler : FragmentReassembler) :
      Acts config index a association (.assemble frame now)
        (.running (.on a (.cloneSender payload))) { association with reassembler := reassembler }
  | cloned (payload : Octets) (hsender : association.sender = true) :
      Acts config index a association (.cloneSender payload) (.running (.on a (.reserve payload)))
        { association with clones := association.clones + 1 }
  | senderless (payload : Octets) :
      Acts config index a association (.cloneSender payload) (.returned .done) association
  | reserved (payload : Octets) (queued : ℕ) : Acts config index a association (.reserve payload)
        (.running (.on a (.offer payload queued))) association
  | enqueued (payload : Octets) (queued : ℕ)
      (haccepts : accepts config association payload queued) :
      Acts config index a association (.offer payload queued) (.running (.on a .dropSender))
        { association with queue := association.queue ++ [payload] }
  | refused (payload : Octets) (queued : ℕ) :
      Acts config index a association (.offer payload queued)
        (.running (.on a (.refund payload))) association
  | refunded (payload : Octets) :
      Acts config index a association (.refund payload) (.running (.on a .dropSender)) association
  | dropped : Acts config index a association .dropSender (.returned .done)
        { association with clones := association.clones - 1 }
  | lockedReceiver (size : ℕ) (hfree : association.receiver = none) :
      Acts config index a association (.lockReceiver size) (.running (.on a (.receive size)))
        { association with receiver := some index }
  | popped (size : ℕ) (payload : Octets) (queue : List Octets)
      (hqueue : association.queue = payload :: queue) :
      Acts config index a association (.receive size)
        (.running (.on a (.received size payload))) { association with queue := queue }
  | disconnected (size : ℕ) (result : Result Octets) :
      Acts config index a association (.receive size) (.returned (.received result))
        { association with receiver := none }
  | delivered (size : ℕ) (payload : Octets) (result : Result Octets) :
      Acts config index a association (.received size payload) (.returned (.received result))
        { association with receiver := none }
  | closed (action : Action) (haction : action = .removeOwn ∨ action = .markClosed ⟨false, []⟩) :
      Acts config index a association .close (.running (.on a action))
        { association with closed := true }
  | kept : Acts config index a association .removeOwn (.running (.on a (.markClosed ⟨false, []⟩)))
        association
  | removed (other : ℕ) : Acts config index a association .removeOwn
        (.running (.on other (.markClosed ⟨true, [a]⟩))) association
  | marked (after : After) :
      Acts config index a association (.markClosed after) (.running (.on a (.takeSender after)))
        { association with closed := true }
  | took (after : After) :
      Acts config index a association (.takeSender after) (.running (.on a (.lockDrain after)))
        { association with sender := false }
  | lockedDrain (after : After) (hfree : association.receiver = none) :
      Acts config index a association (.lockDrain after) (.running (.on a (.drain after)))
        { association with receiver := some index }
  | drainedOne (after : After) (payload : Octets) (queue : List Octets)
      (hqueue : association.queue = payload :: queue) :
      Acts config index a association (.drain after) (.running (.on a (.drained payload after)))
        { association with queue := queue }
  | drainedAll (after : After) (hqueue : association.queue = []) :
      Acts config index a association (.drain after) (closeSenders after.next)
        { association with receiver := none }
  | returnedOne (payload : Octets) (after : After) :
      Acts config index a association (.drained payload after) (.running (.on a (.drain after)))
        association

def queueBytes (s : Session) : ℕ := (s.associations.map Association.bytes).sum

def liveBytes (s : Session) : ℕ :=
  ((s.associations.filter fun association => !association.closed).map Association.bytes).sum

theorem execAction_acts (hg : s.associations[a]? = some association)
    (h : s.execAction config ord index ownerAlive a association action = some (caller, s')) :
    ∃ association', Acts config index a association action caller association' ∧
      s'.associations = s.associations.set a association' ∧
      s'.queuedBytes = action.charge s.queuedBytes := by
  have hs : s.associations = s.associations.set a association := by
    obtain ⟨hlt, rfl⟩ := List.getElem?_eq_some_iff.mp hg
    exact (List.set_getElem_self hlt).symm
  cases action with
  | assemble fr now =>
    rcases hp : (association.reassembler.push ord fr now).value with ⟨p, r⟩
    simp only [execAction, hp] at h
    cases p with
    | none =>
      cases h
      exact ⟨_, .incomplete fr now r, rfl, rfl⟩
    | some p =>
      cases h
      exact ⟨_, .complete fr now p r, rfl, rfl⟩
  | cloneSender p =>
    unfold execAction at h
    dsimp only at h
    split_ifs at h with hsn
    · cases h
      exact ⟨_, .cloned p hsn, rfl, rfl⟩
    · cases h
      exact ⟨_, .senderless p, hs, rfl⟩
  | reserve p =>
    cases h
    exact ⟨_, .reserved p _, hs, rfl⟩
  | offer p q =>
    unfold execAction at h
    dsimp only at h
    split_ifs at h with ha
    · cases h
      exact ⟨_, .enqueued p q ha, rfl, rfl⟩
    · cases h
      exact ⟨_, .refused p q, hs, rfl⟩
  | refund p =>
    cases h
    exact ⟨_, .refunded p, hs, rfl⟩
  | dropSender =>
    cases h
    exact ⟨_, .dropped, rfl, rfl⟩
  | lockReceiver size =>
    unfold execAction at h
    dsimp only at h
    split_ifs at h with hf
    cases h
    exact ⟨_, .lockedReceiver size hf, rfl, rfl⟩
  | receive size =>
    unfold execAction at h
    dsimp only at h
    split at h
    · rename_i p qu hq
      cases h
      exact ⟨_, .popped size p qu hq, rfl, rfl⟩
    · split_ifs at h
      cases h
      exact ⟨_, .disconnected size _, rfl, rfl⟩
  | received size p =>
    cases h
    exact ⟨_, .delivered size p _, rfl, rfl⟩
  | close =>
    cases h
    refine ⟨_, .closed _ ?_, rfl, rfl⟩
    cases ownerAlive
    · exact Or.inr rfl
    · exact Or.inl rfl
  | removeOwn =>
    unfold execAction at h
    dsimp only at h
    split_ifs at h
    split at h
    · cases h
      exact ⟨_, .kept, hs, rfl⟩
    · rename_i o ho
      cases h
      exact ⟨_, .removed o, hs, rfl⟩
  | markClosed w =>
    cases h
    exact ⟨_, .marked w, rfl, rfl⟩
  | takeSender w =>
    cases h
    exact ⟨_, .took w, rfl, rfl⟩
  | lockDrain w =>
    unfold execAction at h
    dsimp only at h
    split_ifs at h with hf
    cases h
    exact ⟨_, .lockedDrain w hf, rfl, rfl⟩
  | drain w =>
    unfold execAction at h
    dsimp only at h
    split at h
    · rename_i p qu hq
      cases h
      exact ⟨_, .drainedOne w p qu hq, rfl, rfl⟩
    · rename_i hq
      cases h
      exact ⟨_, .drainedAll w hq, rfl, rfl⟩
  | drained p w =>
    cases h
    exact ⟨_, .returnedOne p w, hs, rfl⟩

/-- All that a stage can do: it closes nothing, it begins to close associations, or it acts on
its association. -/
inductive Does (config : QueueConfig) (index : ℕ) (s : Session) : Stage → Caller → Session → Prop
  | passes (stage : Stage) (s' : Session) (hstage : ∀ a action, stage ≠ .on a action)
      (hassociations : s'.associations = s.associations) (hbytes : s'.queuedBytes = s.queuedBytes) :
      Does config index s stage (.returned .done) s'
  | opens (id : UInt32) (s' : Session)
      (hassociations : s'.associations = s.associations ++ [.new id])
      (hbytes : s'.queuedBytes = s.queuedBytes) :
      Does config index s (.openAssociation id) (.returned .done) s'
  | closes (stage : Stage) (a : ℕ) (after : After) (s' : Session)
      (hstage : ∀ a action, stage ≠ .on a action)
      (hassociations : s'.associations = s.associations) (hbytes : s'.queuedBytes = s.queuedBytes) :
      Does config index s stage (.running (.on a (.markClosed after))) s'
  | acts (a : ℕ) (action : Action) (caller : Caller) (s' : Session)
      (association association' : Association) (hget : s.associations[a]? = some association)
      (hacts : Acts config index a association action caller association')
      (hassociations : s'.associations = s.associations.set a association')
      (hbytes : s'.queuedBytes = action.charge s.queuedBytes) :
      Does config index s (.on a action) caller s'

theorem exec_does (h : s.exec config ord index ownerAlive stage = some (caller, s')) :
    Does config index s stage caller s' := by
  cases stage with
  | openAssociation id =>
    unfold exec openAssociation at h
    dsimp only at h
    split_ifs at h
    · cases h
      exact .passes _ _ (by simp) rfl rfl
    · cases h
      exact .opens id _ rfl rfl
  | removeAssociation =>
    unfold exec at h
    dsimp only at h
    split_ifs at h
    split at h
    · cases h
      exact .passes _ _ (by simp) rfl rfl
    · cases h
      exact .closes _ _ _ _ (by simp) rfl rfl
  | takeTable =>
    unfold exec at h
    split_ifs at h
    generalize (ord s.table.entries).map Prod.snd = handles at h
    cases handles with
    | nil =>
      cases h
      exact .passes _ _ (by simp) rfl rfl
    | cons =>
      cases h
      exact .closes _ _ _ _ (by simp) rfl rfl
  | on a action =>
    obtain ⟨association, hg, he⟩ := Option.bind_eq_some_iff.mp h
    obtain ⟨association', hac, ha, hb⟩ := execAction_acts hg he
    exact .acts a action caller s' association association' hg hac ha hb

end Session

namespace Session.Acts

variable {config : QueueConfig} {index a b count : ℕ} {association association' : Association}
  {action : Action} {caller : Caller} {stage : Stage}

variable (h : Acts config index a association action caller association')
include h

attribute [local simp] Association.bytes

theorem balance (hle : action.owed ≤ count) :
    action.charge count + (association.bytes + action.owed) =
      count + (association'.bytes + caller.weight Stage.owed) := by
  cases h with
  | enqueued => simp [Action.charge, Action.owed, Call.weight, Stage.owed]
  | popped _ _ _ hq | drainedOne _ _ _ hq =>
    simp [Action.charge, Action.owed, Call.weight, Stage.owed, hq]
    omega
  | drainedAll =>
    unfold closeSenders
    split <;> rfl
  | closed _ ha => rcases ha with rfl | rfl <;> rfl
  | reserved payload | refunded payload | delivered size payload result
  | returnedOne payload w =>
    simp only [Action.charge, Action.owed, Association.bytes, Call.weight, Stage.owed] at hle ⊢
    omega
  | _ => rfl

theorem holdsReceiver (hh : action.holdsReceiver = true → association.receiver = some index)
    (ho : Call.Ongoing (Stage.HoldsReceiver b) caller) :
    a = b ∧ association'.receiver = some index := by
  cases h with
  | drainedAll w =>
    obtain ⟨l, next⟩ := w
    cases next <;>
      simp [closeSenders, Call.Ongoing, Stage.HoldsReceiver, Action.holdsReceiver] at ho
  | closed _ ha =>
    rcases ha with rfl | rfl <;>
      simp [Call.Ongoing, Stage.HoldsReceiver, Action.holdsReceiver] at ho
  | _ => simp_all [Call.Ongoing, Stage.HoldsReceiver, Action.holdsReceiver]

theorem receiver_cases :
    association'.receiver = association.receiver ∨ association.receiver = none ∨
      action.holdsReceiver = true := by
  cases h <;> simp_all [Action.holdsReceiver]

theorem takes_next (hb : b ∈ action.next) : Call.Ongoing (Stage.Takes b) caller := by
  cases h with
  | drainedAll w =>
    obtain ⟨l, next⟩ := w
    cases next with
    | nil => cases hb
    | cons =>
      rcases List.mem_cons.mp hb with rfl | hb
      · exact Or.inl ⟨rfl, rfl⟩
      · exact Or.inr hb
  | _ => simp_all [Action.next, Call.Ongoing, Stage.Takes]

theorem takes (hc : association'.closed = true) (hs : association'.sender = true)
    (hn : ¬ Call.Ongoing (Stage.Takes a) caller) :
    association.closed = true ∧ association.sender = true ∧ action.takes = false := by
  cases h with
  | closed _ ha => rcases ha with rfl | rfl <;> simp_all [Call.Ongoing, Stage.Takes, Action.takes]
  | _ => simp_all [Call.Ongoing, Stage.Takes, Action.takes, Action.next]

theorem drains (hs : association'.sender = false) (hn : ¬ Call.Ongoing (Stage.Closes a) caller) :
    (association.sender = false ∧ action.drains = false) ∨
      (action.holdsReceiver = true ∧ association.queue = [] ∧ association'.queue = []) := by
  cases h with
  | closed _ ha =>
    rcases ha with rfl | rfl <;> simp_all [Call.Ongoing, Stage.Closes, Action.drains, Action.takes]
  | _ => simp_all [Call.Ongoing, Stage.Closes, Action.drains, Action.takes, Action.next,
      Action.holdsReceiver]

theorem bytes_le (hk : ∀ p q, action = .offer p q → accepts config association p q = true → p = [] ∨
      association.sender = true)
    (hs : association.sender = false) : association'.bytes ≤ association.bytes := by
  cases h with
  | enqueued p q ha =>
    rcases hk p q rfl ha with rfl | hsn
    · simp
    · rw [hsn] at hs
      cases hs
  | popped _ _ _ hq | drainedOne _ _ _ hq => simp [hq]
  | _ => exact le_rfl

theorem owedTo_le (hc : caller = .running stage) (hcl : ¬ stage.HoldsClone b) :
    stage.owedTo b = 0 ∨ (a = b ∧ stage.owedTo b ≤ association.bytes) := by
  cases h with
  | popped _ _ _ hq | drainedOne _ _ _ hq =>
    cases hc
    by_cases hb : a = b
    · simp [Stage.owedTo, Action.owed, hq, hb]
    · simp [Stage.owedTo, hb]
  | drainedAll w =>
    obtain ⟨l, next⟩ := w
    cases next with
    | nil => cases hc
    | cons =>
      cases hc
      simp [Stage.owedTo, Action.owed]
  | closed _ ha => rcases ha with rfl | rfl <;> cases hc <;> simp [Stage.owedTo, Action.owed]
  | incomplete | senderless | dropped | disconnected | delivered => cases hc
  | _ =>
    cases hc
    simp_all [Stage.owedTo, Action.owed, Stage.HoldsClone, Action.holdsClone]

theorem holdsClone (ho : Call.Ongoing (Stage.HoldsClone b) caller) :
    a = b ∧ action.receivesFrame = true ∧
      (action.holdsClone = true ∨ association.sender = true) := by
  cases h with
  | drainedAll w =>
    obtain ⟨l, next⟩ := w
    cases next <;> simp [closeSenders, Call.Ongoing, Stage.HoldsClone, Action.holdsClone] at ho
  | closed _ ha =>
    rcases ha with rfl | rfl <;>
      simp [Call.Ongoing, Stage.HoldsClone, Action.holdsClone] at ho
  | _ => simp_all [Call.Ongoing, Stage.HoldsClone, Action.holdsClone, Action.receivesFrame]

theorem sender_eq_false (hs : association.sender = false) : association'.sender = false := by
  cases h <;> simp_all

end Session.Acts

namespace Session.Does

variable {config : QueueConfig} {s s' : Session} {index a b : ℕ} {stage : Stage} {caller : Caller}
  {association association' : Association} {action : Action}

theorem associations_cases (h : Does config index s stage caller s')
    (hg : s'.associations[b]? = some association') :
    (s.associations[b]? = some association' ∧ ∀ action, stage ≠ .on b action) ∨
      (s.associations[b]? = none ∧ ∃ id, association' = .new id) ∨
      ∃ association action, stage = .on b action ∧ s.associations[b]? = some association ∧
        Acts config index b association action caller association' := by
  cases h with
  | passes _ _ hn ha | closes _ _ _ _ hn ha => exact Or.inl ⟨ha ▸ hg, hn b⟩
  | opens id _ ha =>
    rw [ha, List.getElem?_append] at hg
    split_ifs at hg with hlt
    · exact Or.inl ⟨hg, by simp⟩
    · have hnew := List.mem_singleton.mp (List.mem_of_getElem? hg)
      exact Or.inr (Or.inl ⟨List.getElem?_eq_none (Nat.not_lt.mp hlt), id, hnew⟩)
  | acts a action _ _ association _ hbf hac ha =>
    rw [ha] at hg
    by_cases hb : a = b
    · subst hb
      rw [List.getElem?_set_self (List.getElem?_eq_some_iff.mp hbf).1] at hg
      cases hg
      exact Or.inr (Or.inr ⟨association, action, rfl, hbf, hac⟩)
    rw [List.getElem?_set_ne hb] at hg
    refine Or.inl ⟨hg, ?_⟩
    rintro action' heq
    cases heq
    exact hb rfl

theorem exists_association (h : Does config index s stage caller s')
    (hg : s.associations[b]? = some association) :
    ∃ association', s'.associations[b]? = some association' := by
  have hlt := (List.getElem?_eq_some_iff.mp hg).1
  suffices hlt' : b < s'.associations.length from ⟨_, List.getElem?_eq_getElem hlt'⟩
  cases h with
  | passes _ _ _ ha | closes _ _ _ _ _ ha => rwa [ha]
  | opens _ _ ha =>
    rw [ha, List.length_append]
    exact Nat.lt_add_right _ hlt
  | acts _ _ _ _ _ _ _ _ ha => rwa [ha, List.length_set]

theorem takes_next (h : Does config index s (.on a action) caller s') (hb : b ∈ action.next) :
    Call.Ongoing (Stage.Takes b) caller := by
  cases h with
  | passes _ _ hn | closes _ _ _ _ hn => exact (hn a action rfl).elim
  | acts _ _ _ _ _ _ _ ha => exact ha.takes_next hb

theorem owedTo_le {next : Stage} (h : Does config index s stage caller s')
    (hc : caller = .running next) (hcl : ¬ next.HoldsClone b) :
    next.owedTo b = 0 ∨
      ∃ association, s.associations[b]? = some association ∧ next.owedTo b ≤ association.bytes := by
  cases h with
  | passes | opens => cases hc
  | closes =>
    cases hc
    simp [Stage.owedTo, Action.owed]
  | acts _ _ _ _ association _ hb ha =>
    rcases ha.owedTo_le hc hcl with hz | ⟨rfl, hle⟩
    · exact Or.inl hz
    · exact Or.inr ⟨association, hb, hle⟩

theorem holdsClone (h : Does config index s stage caller s')
    (ho : Call.Ongoing (Stage.HoldsClone b) caller) :
    stage.ReceivesFrame b ∧ (stage.HoldsClone b ∨
      ∃ association, s.associations[b]? = some association ∧ association.sender = true) := by
  cases h with
  | passes | opens => cases ho
  | closes => cases ho.2
  | acts _ _ _ _ association _ hb ha =>
    obtain ⟨rfl, hr, hc | hs⟩ := ha.holdsClone ho
    · exact ⟨⟨rfl, hr⟩, Or.inl ⟨rfl, hc⟩⟩
    · exact ⟨⟨rfl, hr⟩, Or.inr ⟨association, hb, hs⟩⟩

end Session.Does

end Quic

end Doradus
