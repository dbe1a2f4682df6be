import Doradus.Protocol.QuicAssociation

/-!
# The accounting of the QUIC receive queues

The counter is what is queued and what calls in progress have reserved or have still to give
back. A queue whose sender has been taken is drained by the call that took it; what a call
enqueues after that stays in the counter.
-/

namespace Doradus

namespace Quic

open Calls Quic.Session Association Call Stage

/-- No payload, unless it is empty, enters a queue whose sender has been taken. -/
def Session.keepsOpen (config : QueueConfig) (s : Session) : Stage → Bool
  | .on a (.offer payload queued) => s.associations[a]?.all fun association =>
      !accepts config association payload queued || payload.isEmpty || association.sender
  | _ => true

def keepsOpen (config : QueueConfig) (s : Calls Session Stage Returned) :
    Calls.Event Request Bool → Bool
  | .start _ => true
  | .resume index _ =>
    match s.calls[index]? with
    | some (.running stage) => s.shared.keepsOpen config stage
    | _ => true

abbrev Sessions := Calls Session Stage Returned

/-- Nothing of the association is in the counter, apart from what calls with a clone of the
sender have reserved. -/
structure Settled (s : Sessions) (b : ℕ) (association : Association) : Prop where
  bytes_eq : association.bytes = 0
  owedTo_eq : ∀ i stage, s.RunsAt i stage → ¬ stage.HoldsClone b → stage.owedTo b = 0

structure Accounted (s : Sessions) : Prop where
  balance : s.shared.queuedBytes = s.shared.queueBytes + s.weight Stage.owed
  locked : ∀ i stage b, s.RunsAt i stage → stage.HoldsReceiver b →
    ∃ association, s.shared.associations[b]? = some association ∧ association.receiver = some i
  closing : ∀ b association, s.shared.associations[b]? = some association →
    association.closed = true → association.sender = true →
      ∃ i stage, s.RunsAt i stage ∧ stage.Takes b
  draining : ∀ b association, s.shared.associations[b]? = some association →
    association.sender = false →
    (∃ i stage, s.RunsAt i stage ∧ stage.Closes b) ∨ Settled s b association

variable {config : QueueConfig} {ord : AssocMap.IterOrder} {s : Sessions} {index b : ℕ}
  {stage : Stage} {caller : Caller} {shared : Session}

theorem Stage.Takes.closes (h : stage.Takes b) : stage.Closes b := by
  cases stage with
  | on _ ac =>
    rcases h with ⟨rfl, ht⟩ | hn
    · refine Or.inl ⟨rfl, ?_⟩
      cases ac <;> simp_all [Action.takes, Action.drains]
    · exact Or.inr hn
  | _ => cases h

theorem Stage.owed_eq_zero (h : ∀ a ac, stage ≠ .on a ac) : stage.owed = 0 := by
  cases stage with
  | on a ac => exact (h a ac rfl).elim
  | _ => rfl

section

variable (h : Accounted s)
include h

theorem Accounted.owed_le (hs : s.RunsAt index stage) : stage.owed ≤ s.shared.queuedBytes := by
  rw [h.balance]
  exact (le_weight _ hs).trans (Nat.le_add_left _ _)

theorem Accounted.balance_moved (hs : s.RunsAt index stage)
    (hd : Session.Does config index s.shared stage caller shared) :
    shared.queuedBytes = shared.queueBytes + (s.moved index caller shared).weight owed := by
  have hw := Calls.weight_moved owed caller shared hs
  have hbl := h.balance
  have hle := h.owed_le hs
  unfold Session.queueBytes at *
  cases hd with
  | passes _ _ hn ha hb =>
    have ho := owed_eq_zero hn
    rw [ha]
    simp only [Call.weight] at hw
    omega
  | opens _ _ ha hb =>
    rw [ha, hb, hbl]
    simp [Association.bytes, Association.new] at hw ⊢
    exact hw.symm
  | closes _ _ _ _ hn ha hb =>
    have ho := owed_eq_zero hn
    rw [ha, hb]
    simp only [Call.weight, owed, Action.owed] at hw ho
    omega
  | acts _ _ _ _ _ ass' hg hac ha hb =>
    have hset := Calls.sum_map_set Association.bytes (b := ass') hg
    have hact := hac.balance hle
    rw [ha, hb]
    simp only [owed] at hw
    omega

theorem Accounted.locked_moved (hs : s.RunsAt index stage)
    (hd : Session.Does config index s.shared stage caller shared) (i : ℕ) (o : Stage) (b : ℕ)
    (hot : (s.moved index caller shared).RunsAt i o) (hh : o.HoldsReceiver b) :
    ∃ ass, shared.associations[b]? = some ass ∧ ass.receiver = some i := by
  rcases (Calls.runsAt_moved hs).mp hot with ⟨rfl, hrn⟩ | ⟨hne, hb⟩
  · cases hd with
    | passes | opens => cases hrn
    | closes =>
      cases hrn
      cases hh.2
    | acts a _ caller _ _ ass' hg hac ha =>
      have ho : Ongoing (Stage.HoldsReceiver b) caller := by
        rw [hrn]
        exact hh
      obtain ⟨rfl, hr⟩ := hac.holdsReceiver (fun hhl => by
        obtain ⟨l, hl, hi⟩ := h.locked _ _ a hs ⟨rfl, hhl⟩
        rw [hg] at hl
        cases hl
        exact hi) ho
      refine ⟨ass', ?_, hr⟩
      rw [ha, List.getElem?_set_self (List.getElem?_eq_some_iff.mp hg).1]
  · obtain ⟨ass, hg, hr⟩ := h.locked i o b hb hh
    obtain ⟨ass', hg'⟩ := hd.exists_association hg
    refine ⟨ass', hg', ?_⟩
    rcases hd.associations_cases hg' with ⟨hsm, -⟩ | ⟨hn, -⟩ | ⟨before, ac, rfl, hb', hac⟩
    · rw [hg] at hsm
      cases hsm
      exact hr
    · rw [hg] at hn
      cases hn
    rw [hg] at hb'
    cases hb'
    rcases hac.receiver_cases with hsm | hn | hhl
    · rw [hsm, hr]
    · rw [hr] at hn
      cases hn
    obtain ⟨l, hl, hi⟩ := h.locked _ _ b hs ⟨rfl, hhl⟩
    rw [hg] at hl
    cases hl
    rw [hr] at hi
    exact (hne (Option.some.inj hi)).elim

theorem Accounted.closing_moved (hst : s.RunsAt index stage)
    (hd : Does config index s.shared stage caller shared) (b : ℕ)
    (association' : Association) (hg : shared.associations[b]? = some association')
    (hc : association'.closed = true) (hs : association'.sender = true) :
    ∃ i stage, (s.moved index caller shared).RunsAt i stage ∧ stage.Takes b := by
  by_cases ho : Call.Ongoing (Stage.Takes b) caller
  · exact exists_moved_of_ongoing _ hst ho
  rcases hd.associations_cases hg with ⟨hsm, hnot⟩ | ⟨-, id, rfl⟩ | ⟨association, ac, rfl, hb, ha⟩
  · refine exists_moved_of_not _ _ hst ?_ (h.closing b _ hsm hc hs)
    intro ht
    cases stage with
    | on _ ac =>
      rcases ht with ⟨rfl, -⟩ | hn
      · exact hnot ac rfl
      · exact ho (hd.takes_next hn)
    | _ => cases ht
  · cases hc
  obtain ⟨hc', hs', hnot⟩ := ha.takes hc hs ho
  refine exists_moved_of_not _ _ hst ?_ (h.closing b _ hb hc' hs')
  rintro (⟨-, ht⟩ | hn)
  · rw [hnot] at ht
    cases ht
  · exact ho (hd.takes_next hn)

end

theorem Stage.not_closes (hds : Does config index s.shared stage caller shared)
    (ho : ¬ Call.Ongoing (Stage.Closes b) caller)
    (hdr : ∀ ac, stage = .on b ac → ac.drains = false) : ¬ stage.Closes b := by
  have ht : ¬ Call.Ongoing (Stage.Takes b) caller := by
    intro h
    cases caller with
    | running => exact ho (Stage.Takes.closes h)
    | returned => cases h
  intro hc
  cases stage with
  | on _ ac =>
    rcases hc with ⟨rfl, hd⟩ | hn
    · rw [hdr ac rfl] at hd
      cases hd
    · exact ht (hds.takes_next hn)
  | _ => cases hc

theorem Stage.holdsReceiver_of_owedTo (ho : stage.owedTo b ≠ 0) (hc : ¬ stage.HoldsClone b) :
    stage.HoldsReceiver b := by
  cases stage with
  | on a ac =>
    by_cases hb : a = b
    · cases ac <;> simp_all [owedTo, Action.owed, Stage.HoldsClone, Action.holdsClone,
        Stage.HoldsReceiver, Action.holdsReceiver]
    · simp [owedTo, hb] at ho
  | _ => simp [owedTo] at ho

theorem owedTo_moved (hs : s.RunsAt index stage)
    (hd : Does config index s.shared stage caller shared)
    (hby : ∀ a, s.shared.associations[b]? = some a → a.bytes = 0)
    (ho : ∀ i o, i ≠ index → s.RunsAt i o → ¬ o.HoldsClone b → o.owedTo b = 0) (i : ℕ) (o : Stage)
    (hot : (s.moved index caller shared).RunsAt i o) (hc : ¬ o.HoldsClone b) : o.owedTo b = 0 := by
  rcases (runsAt_moved hs).mp hot with ⟨-, hr⟩ | ⟨hne, hb⟩
  · rcases hd.owedTo_le hr hc with hz | ⟨a, hg, hle⟩
    · exact hz
    · rw [hby a hg] at hle
      exact Nat.le_zero.mp hle
  · exact ho i o hne hb hc

variable {a : Association} {s₀ : Sessions}

theorem keepsOpen_offer {ac : Action} (hk : s.shared.keepsOpen config (.on b ac) = true)
    (hg : s.shared.associations[b]? = some a) (p : Octets) (q : ℕ) (hac : ac = .offer p q)
    (ha : accepts config a p q = true) : p = [] ∨ a.sender = true := by
  subst hac
  simpa [Session.keepsOpen, hg, ha] using hk

theorem Accounted.draining_moved (h : Accounted s) (hst : s.RunsAt index stage)
    (hk : s.shared.keepsOpen config stage = true)
    (hd : Does config index s.shared stage caller shared) (b : ℕ)
    (a' : Association) (hg : shared.associations[b]? = some a') (hsn : a'.sender = false) :
    (∃ i stage, (s.moved index caller shared).RunsAt i stage ∧ stage.Closes b) ∨
      Settled (s.moved index caller shared) b a' := by
  by_cases ho : Ongoing (Stage.Closes b) caller
  · exact .inl (exists_moved_of_ongoing _ hst ho)
  rcases hd.associations_cases hg with ⟨hsm, hn⟩ | ⟨-, id, rfl⟩ | ⟨a, ac, rfl, hb, hac⟩
  · rcases h.draining b a' hsm hsn with hcl | hs
    · refine .inl (exists_moved_of_not _ _ hst ?_ hcl)
      exact not_closes hd ho fun ac ha => (hn ac ha).elim
    refine .inr ⟨hs.bytes_eq, owedTo_moved hst hd ?_ ?_⟩
    · intro a hb
      rw [hsm] at hb
      cases hb
      exact hs.bytes_eq
    · exact fun i o _ hot hc => hs.owedTo_eq i o hot hc
  · cases hsn
  have hby : a.bytes = 0 → ∀ x, s.shared.associations[b]? = some x → x.bytes = 0 := by
    intro hz x hx
    rw [hb] at hx
    cases hx
    exact hz
  rcases hac.drains hsn ho with ⟨hsn', hdr⟩ | ⟨hh, hq, hq'⟩
  · rcases h.draining b a hb hsn' with hcl | hs
    · refine .inl (exists_moved_of_not _ _ hst ?_ hcl)
      refine not_closes hd ho fun _ ha => ?_
      cases ha
      exact hdr
    · have hle := hac.bytes_le (keepsOpen_offer hk hb) hsn'
      rw [hs.bytes_eq] at hle
      exact .inr ⟨Nat.le_zero.mp hle, owedTo_moved hst hd (hby hs.bytes_eq)
        fun i o _ hot hc => hs.owedTo_eq i o hot hc⟩
  · refine .inr ⟨by simp [bytes, hq'], owedTo_moved hst hd (hby (by simp [bytes, hq])) ?_⟩
    intro i o hne hot hc
    by_contra howed
    obtain ⟨x, hx, hi⟩ := h.locked i o b hot (holdsReceiver_of_owedTo howed hc)
    obtain ⟨y, hy, hin⟩ := h.locked index _ b hst ⟨rfl, hh⟩
    rw [hx] at hy
    cases hy
    rw [hi] at hin
    exact hne (Option.some.inj hin)

theorem Accounted.moved (h : Accounted s) (hs : s.RunsAt index stage)
    (hk : s.shared.keepsOpen config stage = true)
    (hd : Does config index s.shared stage caller shared) :
    Accounted (s.moved index caller shared) where
  balance := h.balance_moved hs hd
  locked := h.locked_moved hs hd
  closing := h.closing_moved hs hd
  draining := h.draining_moved hs hk hd

theorem Request.enter_spec (r : Request) (b : ℕ) :
    r.enter.owed = 0 ∧ r.enter.owedTo b = 0 ∧ ¬ r.enter.HoldsReceiver b ∧
      ¬ r.enter.HoldsClone b := by
  cases r <;> simp [Request.enter, owed, owedTo, Action.owed, Stage.HoldsReceiver,
    Action.holdsReceiver, Stage.HoldsClone, Action.holdsClone]

theorem Accounted.started (h : Accounted s) (r : Request) : Accounted (s.started r.enter) where
  balance := by
    rw [weight_started, (r.enter_spec 0).1]
    exact h.balance
  locked := by
    intro i stage b hstg hh
    rcases runsAt_started.mp hstg with hb | ⟨-, rfl⟩
    · exact h.locked i _ b hb hh
    · exact ((r.enter_spec b).2.2.1 hh).elim
  closing := by
    intro b a hg hc hs
    exact exists_started _ (h.closing b a hg hc hs)
  draining := by
    intro b a hg hs
    rcases h.draining b a hg hs with hcl | hst
    · exact .inl (exists_started _ hcl)
    refine .inr ⟨hst.bytes_eq, fun i stage hstg hcln => ?_⟩
    rcases runsAt_started.mp hstg with hb | ⟨-, rfl⟩
    · exact hst.owedTo_eq i _ hb hcln
    · exact (r.enter_spec b).2.1

theorem keepsOpen_runsAt {c : Bool} (h : keepsOpen config s (.resume index c) = true)
    (hs : s.RunsAt index stage) : s.shared.keepsOpen config stage = true := by
  rw [keepsOpen, hs] at h
  exact h

theorem Accounted.step (h : Accounted s) (e : Event Request Bool)
    (hk : keepsOpen config s e = true) :
    Accounted (step (machine config ord) s e) := by
  generalize he : Calls.step (Session.machine config ord) s e = s'
  cases step_effect he with
  | waits => exact h
  | starts r => exact h.started r
  | acts _ _ _ _ _ hs hex => exact h.moved hs (keepsOpen_runsAt hk hs) (exec_does hex)

/-- The association is closed: it takes no new clones, and only calls that received a frame
before have one. -/
structure ClosedSince (s₀ : Sessions) (b : ℕ) (s : Sessions) : Prop where
  empty : ∃ association, s.shared.associations[b]? = some association ∧
    association.sender = false ∧ association.bytes = 0
  owedTo_eq : ∀ i stage, s.RunsAt i stage → ¬ stage.HoldsClone b → stage.owedTo b = 0
  clones : ∀ i stage, s.RunsAt i stage → stage.HoldsClone b →
    ∃ stage₀, s₀.RunsAt i stage₀ ∧ stage₀.ReceivesFrame b

theorem Stage.HoldsClone.receivesFrame (h : stage.HoldsClone b) : stage.ReceivesFrame b := by
  cases stage with
  | on _ ac =>
    obtain ⟨rfl, hc⟩ := h
    refine ⟨rfl, ?_⟩
    cases ac <;> simp_all [Action.holdsClone, Action.receivesFrame]
  | _ => cases h

theorem Accounted.closedSince (h : Accounted s)
    (hg : s.shared.associations[b]? = some a) (hc : a.closed = true)
    (hn : ∀ i stage, s.RunsAt i stage → ¬ stage.Closes b) : ClosedSince s b s := by
  have hs : a.sender = false := by
    by_contra hs
    obtain ⟨i, stage, hst, ht⟩ := h.closing b a hg hc (Bool.eq_true_of_not_eq_false hs)
    exact hn i _ hst ht.closes
  rcases h.draining b a hg hs with ⟨i, stage, hst, hcl⟩ | hse
  · exact (hn i _ hst hcl).elim
  · exact ⟨⟨a, hg, hs, hse.bytes_eq⟩, hse.owedTo_eq,
      fun i stage hst hcln => ⟨stage, hst, hcln.receivesFrame⟩⟩

theorem ClosedSince.moved (h : ClosedSince s₀ b s) (hst : s.RunsAt index stage)
    (hk : s.shared.keepsOpen config stage = true)
    (hd : Does config index s.shared stage caller shared) :
    ClosedSince s₀ b (s.moved index caller shared) := by
  obtain ⟨a, hg, hs, hby⟩ := h.empty
  refine ⟨?_, owedTo_moved hst hd ?_ fun i o _ => h.owedTo_eq i o, ?_⟩
  · obtain ⟨a', hg'⟩ := hd.exists_association hg
    refine ⟨a', hg', ?_⟩
    rcases hd.associations_cases hg' with ⟨hsm, -⟩ | ⟨hn, -⟩ | ⟨before, action, rfl, hb, ha⟩
    · rw [hg] at hsm
      cases hsm
      exact ⟨hs, hby⟩
    · rw [hg] at hn
      cases hn
    rw [hg] at hb
    cases hb
    have hle := ha.bytes_le (keepsOpen_offer hk hg) hs
    rw [hby] at hle
    exact ⟨ha.sender_eq_false hs, Nat.le_zero.mp hle⟩
  · intro x hx
    rw [hg] at hx
    cases hx
    exact hby
  intro i o hot hc
  rcases (runsAt_moved hst).mp hot with ⟨rfl, hr⟩ | ⟨-, hb⟩
  · have ho : Ongoing (Stage.HoldsClone b) caller := by
      rw [hr]
      exact hc
    obtain ⟨-, hh | ⟨x, hx, hsn⟩⟩ := hd.holdsClone ho
    · exact h.clones i _ hst hh
    rw [hg] at hx
    cases hx
    rw [hs] at hsn
    cases hsn
  · exact h.clones i o hb hc

theorem ClosedSince.step (h : ClosedSince s₀ b s) (e : Event Request Bool)
    (hk : keepsOpen config s e = true) :
    ClosedSince s₀ b (step (machine config ord) s e) := by
  generalize he : Calls.step (Session.machine config ord) s e = s'
  cases step_effect he with
  | waits => exact h
  | starts r =>
    refine ⟨h.empty, fun i stage hs hc => ?_, fun i stage hs hc => ?_⟩
    · rcases runsAt_started.mp hs with hb | ⟨-, rfl⟩
      · exact h.owedTo_eq i _ hb hc
      · exact (r.enter_spec b).2.1
    · rcases runsAt_started.mp hs with hb | ⟨-, rfl⟩
      · exact h.clones i _ hb hc
      · exact ((r.enter_spec b).2.2.2 hc).elim
  | acts _ _ _ _ _ hs hex => exact h.moved hs (keepsOpen_runsAt hk hs) (exec_does hex)

/-- What an association has in the counter: what is queued, and what calls owe. -/
def contribution (s : Sessions) (b : ℕ) : ℕ :=
  s.shared.associations[b]?.elim 0 Association.bytes + s.weight (Stage.owedTo b)

theorem ClosedSince.contribution_eq (h : ClosedSince s₀ b s)
    (hrt : ∀ i stage, s₀.RunsAt i stage → stage.ReceivesFrame b →
      ∃ r, s.calls[i]? = some (.returned r)) : contribution s b = 0 := by
  obtain ⟨a, hg, -, hb⟩ := h.empty
  have ho : s.weight (owedTo b) = 0 := by
    apply weight_eq_zero
    intro i stage hs
    apply h.owedTo_eq i _ hs
    intro hc
    obtain ⟨stage₀, hst, hr⟩ := h.clones i _ hs hc
    obtain ⟨r, hrs⟩ := hrt i _ hst hr
    cases hs.symm.trans hrs
  rw [contribution, hg, ho]
  exact hb

theorem Accounted.queuedBytes_eq (h : Accounted s) (hq : s.Quiet) :
    s.shared.queuedBytes = s.shared.liveBytes := by
  have hcl : ∀ a ∈ s.shared.associations, a.closed = true → a.bytes = 0 := by
    intro a hmem hcl
    obtain ⟨b, hg⟩ := List.getElem?_of_mem hmem
    obtain ⟨x, hx, -, hb⟩ := (h.closedSince hg hcl fun i _ hs => (hq.not_runsAt hs).elim).empty
    rw [hg] at hx
    cases hx
    exact hb
  rw [h.balance, Calls.weight_eq_zero _ fun _ _ hs => (hq.not_runsAt hs).elim, Nat.add_zero,
    queueBytes, liveBytes]
  generalize s.shared.associations = ass at hcl
  induction ass with
  | nil => rfl
  | cons a _ ih =>
    have hr := ih fun x hx => hcl x (List.mem_cons_of_mem _ hx)
    cases hc : a.closed with
    | false => simp [hc, hr]
    | true => simp [hc, hr, hcl a List.mem_cons_self hc]

end Quic

open Quic in
/-- If no payload enters a queue whose sender has been taken, then without calls in progress
the counter is what the live associations have queued; and an association that has been closed
has nothing in it once the frames that were being received have been dealt with. -/
theorem quicQueue_accounted (config : QueueConfig) (ord : AssocMap.IterOrder)
    (events : List (Calls.Event Request Bool))
    (hevents : Run.Meets (Calls.step (Session.machine config ord)) (fun s e => keepsOpen config s e)
      ⟨.new, []⟩ events) :
    let s := Run.run (Calls.step (Session.machine config ord)) ⟨.new, []⟩ events
    (s.Quiet → s.shared.queuedBytes = s.shared.liveBytes) ∧
      ∀ b association, s.shared.associations[b]? = some association → association.closed = true →
        (∀ i stage, s.RunsAt i stage → ¬ stage.Closes b) →
        ∀ later, Run.Meets (Calls.step (Session.machine config ord))
            (fun s e => keepsOpen config s e) s later →
          let s' := Run.run (Calls.step (Session.machine config ord)) s later
          (∀ i stage, s.RunsAt i stage → stage.ReceivesFrame b →
            ∃ result, s'.calls[i]? = some (.returned result)) →
          contribution s' b = 0 := by
  intro s
  have hs : Accounted s := Run.invariant (Calls.step (Session.machine config ord))
    (fun _ e h hk => h.step e hk) events _
    ⟨rfl, by simp [Calls.RunsAt], by simp [Session.new], by simp [Session.new]⟩ hevents
  refine ⟨hs.queuedBytes_eq, ?_⟩
  intro b association hget hc hn later hl s' hr
  have hs' : ClosedSince s b s' := Run.invariant (Calls.step (Session.machine config ord))
    (fun _ e h hk => h.step e hk) later _ (hs.closedSince hget hc hn) hl
  exact hs'.contribution_eq hr

def Quic.exampleQueueConfig : QueueConfig := ⟨4, 4, 100⟩

abbrev Quic.Script := List (Calls.Event Request Bool)

/-- A frame is received, up to the given stage, the association is closed, and the rest of
the frame's call is done. -/
def Quic.exampleEvents (before after : ℕ) : Script :=
  ([.start (.openAssociation 1), .resume 0 true,
    .start (.receiveFrame 0 (.single 1 [7]) 0)] : Script) ++
    (List.replicate before (.resume 1 true) : Script) ++ (.start (.close 0) ::
    List.replicate 12 (.resume 2 true) : Script) ++ (List.replicate after (.resume 1 true) : Script)

open Quic in
theorem quicQueue_accounted_received :
    let s := Run.run (Calls.step (Session.machine exampleQueueConfig .stored)) ⟨.new, []⟩
      (exampleEvents 5 0)
    s.Quiet ∧ s.shared.queuedBytes = s.shared.liveBytes := by
  have he : Run.Meets (Calls.step (Session.machine exampleQueueConfig .stored))
      (fun s e => keepsOpen exampleQueueConfig s e) ⟨.new, []⟩ (exampleEvents 5 0) := by
    decide +kernel
  intro s
  have hq : s.Quiet := by decide +kernel
  exact ⟨hq, (quicQueue_accounted _ .stored _ he).1 hq⟩

open Quic in
/-- A payload that is enqueued after its association was closed stays in the counter. -/
theorem quicQueue_leaks_late_payload :
    let s := Run.run (Calls.step (Session.machine exampleQueueConfig .stored)) ⟨.new, []⟩
      (exampleEvents 2 3)
    s.Quiet ∧ s.shared.associations.map Association.closed = [true] ∧ s.shared.queuedBytes = 1 ∧
      s.shared.liveBytes = 0 := by
  decide +kernel

end Doradus
