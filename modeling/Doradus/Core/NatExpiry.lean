import Doradus.Core.NatInvariant

/-!
# Lazy and eager expiry

An operation that meets an expired binding of its own source drops it first,
except `insert`; and none of them looks at the age of the binding that holds a
requested endpoint. Compared with a table that was swept at the same instant,
an operation answers differently exactly when such a binding hampers it.
-/

namespace Doradus

open NatTable NatState Option AssocMap

/-- Whether an operation fails, succeeds without a binding, or finds one. -/
inductive NatAnswer where
  | failed
  | missed
  | found
  deriving DecidableEq, Repr

/-- The operations whose answer depends on the age of bindings. -/
inductive NatRequest where
  | insert (key : NatKey) (translated : SocketAddr) (idleTimeout : Duration)
  | touch (key : NatKey)
  | bindTranslated (network : Network) (source translated : SocketAddr)
  | lookupTranslated (ord : AssocMap.IterOrder) (network : Network)
      (translated externalSource : SocketAddr)
  | lookupSource (network : Network) (source : SocketAddr)

def NatAnswer.ofLookup {α : Type} : Result (Option α) → NatAnswer
  | .error _ => failed
  | .ok none => missed
  | .ok (some _) => found

def NatAnswer.ofBind : Result NatEntry → NatAnswer
  | .error _ => failed
  | .ok _ => found

/-- An `insert` finds a binding when it counts a reuse. -/
def NatAnswer.ofInsert (reuses : UInt64) : Result Unit × NatTable → NatAnswer
  | (.error _, _) => failed
  | (.ok (), t) => if t.metrics.reuses = reuses then missed else found

/-- The answer of an operation that reads only `now` from the clock. -/
def NatTable.answer (t : NatTable) (now : Instant) : NatRequest → Option NatAnswer
  | .insert key translated idleTimeout =>
    some (.ofInsert t.metrics.reuses (t.insert key translated idleTimeout now))
  | .touch key => (t.touch key now now).map fun r => .ofLookup r.1
  | .bindTranslated network source translated =>
    (t.bindTranslated network source translated now).map fun r => .ofBind r.1
  | .lookupTranslated ord network translated externalSource =>
    (t.lookupTranslated ord network translated externalSource now now).map fun r => .ofLookup r.1
  | .lookupSource network source => (t.lookupSource network source now).map fun r => .ofLookup r.1

namespace NatState

/-- The binding of a source that has not expired. -/
def live? (s : NatState) (now : Instant) (key : NatBindingKey) : Option NatBinding :=
  (s.entries.get? key).filter fun b => !b.entry.isExpired now

/-- The source that holds an endpoint by a binding that has not expired. -/
def liveOwner? (s : NatState) (now : Instant) (endpoint : NatEndpointKey) : Option NatBindingKey :=
  (s.translated.get? endpoint).filter fun key => (s.live? now key).isSome

def heldByExpired (s : NatState) (now : Instant) (endpoint : NatEndpointKey) : Bool :=
  (s.translated.get? endpoint).isSome && (s.liveOwner? now endpoint).isNone

/-- An expired binding makes a difference: an `insert` meets one of its own
source and either reuses it or is refused because of its endpoint, although no
live binding holds the requested one; or a requested endpoint that would be
free is held by an expired binding. -/
def Hampered (s : NatState) (now : Instant) : NatRequest → Prop
  | .insert key translated idleTimeout =>
    idleTimeout ≠ 0 ∧
      match s.entries.get? key.bindingKey with
      | some own => own.entry.isExpired now = true ∧ (own.entry.translated = translated ∨
            s.liveOwner? now ⟨key.network, translated⟩ = none)
      | none => s.heldByExpired now ⟨key.network, translated⟩ = true
  | .bindTranslated network source translated =>
    ∃ own ∈ s.live? now ⟨network, source⟩, own.entry.translated ≠ translated ∧
      s.heldByExpired now ⟨network, translated⟩ = true
  | _ => False

variable {s s' : NatState} {now : Instant}

theorem owner_cases (s : NatState) (now : Instant) (en : NatEndpointKey) :
    (s.translated.get? en).isSome = ((s.liveOwner? now en).isSome || s.heldByExpired now en) := by
  unfold heldByExpired liveOwner?
  cases s.translated.get? en with
  | none => rfl
  | some key => cases hl : (s.live? now key).isSome <;> simp [Option.filter, hl]

variable {en : NatEndpointKey} {key : NatBindingKey}

theorem heldByExpired_of_live
    (h : (s.liveOwner? now en).isSome = true) : s.heldByExpired now en = false := by
  rw [heldByExpired, isNone_eq_false_iff.mpr h, Bool.and_false]

/-- What a sweep leaves: the live bindings and their endpoints. -/
structure Swept (s : NatState) (now : Instant) (s' : NatState) : Prop where
  entries : ∀ key, s'.entries.get? key = s.live? now key
  translated : ∀ endpoint, s'.translated.get? endpoint = s.liveOwner? now endpoint

theorem live?_eq_some {b : NatBinding} :
    s.live? now key = some b ↔ s.entries.get? key = some b ∧ b.entry.isExpired now = false := by
  rw [live?, filter_eq_some_iff, Bool.not_eq_true']

theorem liveOwner?_eq_some : s.liveOwner? now en = some key ↔
      s.translated.get? en = some key ∧ ∃ binding, s.live? now key = some binding := by
  rw [liveOwner?, filter_eq_some_iff, isSome_iff_exists]

theorem swept_of_entries (h : s.Ok) (h' : s'.Ok)
    (hen : ∀ key, s'.entries.get? key = s.live? now key) : Swept s now s' := by
  refine ⟨hen, ?_⟩
  intro _
  ext key
  rw [← h'.inverse, liveOwner?_eq_some, ← h.inverse, hen]
  constructor
  · intro he
    obtain ⟨b, hb, he⟩ := he
    exact ⟨⟨b, (live?_eq_some.mp hb).1, he⟩, b, hb⟩
  intro he
  obtain ⟨⟨b, hb, he⟩, b', hb'⟩ := he
  have heq := (live?_eq_some.mp hb').1
  rw [hb] at heq
  cases heq
  exact ⟨b, hb', he⟩

theorem Swept.live? (h : Swept s now s') (key : NatBindingKey) :
    s'.live? now key = s.live? now key := by
  ext binding
  rw [live?_eq_some, h.entries, live?_eq_some]
  tauto

theorem Swept.liveOwner? (h : Swept s now s') (endpoint : NatEndpointKey) :
    s'.liveOwner? now endpoint = s.liveOwner? now endpoint := by
  ext key
  rw [liveOwner?_eq_some, h.translated, liveOwner?_eq_some, h.live?]
  tauto

theorem Ok.ownedByOther (h : s.Ok) {tr : SocketAddr}
    (hown : ∀ b ∈ s.entries.get? key, b.entry.translated ≠ tr) :
    s.ownedByOther key tr = (s.translated.get? ⟨key.network, tr⟩).isSome := by
  cases ho : s.translated.get? ⟨key.network, tr⟩ with
  | none => rw [NatState.ownedByOther, ho]; rfl
  | some o =>
    have hne : o ≠ key := by
      rintro rfl
      obtain ⟨b, hb, he⟩ := h.inverse.get?_fwd ho
      exact hown b hb (congrArg NatEndpointKey.address he)
    rw [NatState.ownedByOther, ho]
    simpa using hne

end NatState

namespace NatTable

variable {t t' : NatTable} {now : Instant}

section

theorem answer_insert (t : NatTable) (now : Instant) (key : NatKey) (tr : SocketAddr)
    (idl : Duration) :
    t.answer now (.insert key tr idl) = some (
      if idl = 0 then .failed
      else
        match t.state.entries.get? key.bindingKey with
        | some own => if own.entry.translated = tr then .found else .failed
        | none => if t.state.ownedByOther key.bindingKey tr then .failed else .missed) := by
  simp only [answer, insert]
  by_cases hz : idl = 0
  · simp [hz, NatAnswer.ofInsert]
  rw [if_neg hz, if_neg hz]
  cases t.state.entries.get? key.bindingKey with
  | none =>
    split_ifs
    · rfl
    · simp [NatAnswer.ofInsert]
  | some own =>
    dsimp only
    by_cases ho : own.entry.translated = tr
    · rw [if_neg (not_not.mpr ho), if_pos ho]
      simp [NatAnswer.ofInsert]
    · rw [if_pos ho, if_neg ho]
      rfl

def foundIf (b : Bool) : Option NatAnswer := some (if b then .found else .missed)

attribute [local simp] NatAnswer.ofLookup

theorem answer_touch (h : t.state.Ok) (key : NatKey) :
    t.answer now (.touch key) = foundIf (t.state.live? now key.bindingKey).isSome := by
  simp only [answer, touch, live?]
  cases hb : t.state.entries.get? key.bindingKey with
  | none => rfl
  | some b =>
    by_cases he : b.entry.isExpired now = true
    · simp [he, h.removeBinding hb, foundIf]
    · simp [he, foundIf]

theorem answer_lookupSource (h : t.state.Ok) (nt : Network) (sr : SocketAddr) :
    t.answer now (.lookupSource nt sr) = foundIf (t.state.live? now ⟨nt, sr⟩).isSome := by
  simp only [answer, lookupSource, live?]
  cases hb : t.state.entries.get? ⟨nt, sr⟩ with
  | none => rfl
  | some b =>
    by_cases he : b.entry.isExpired now = true
    · simp [he, expire, h.removeBinding hb, foundIf]
    · simp [he, foundIf]

theorem answer_lookupTranslated (h : t.state.Ok) (ord : IterOrder) (nt : Network)
    (tr ex : SocketAddr) :
    t.answer now (.lookupTranslated ord nt tr ex) =
      foundIf (t.state.liveOwner? now ⟨nt, tr⟩).isSome := by
  simp only [answer, lookupTranslated, liveOwner?, live?, count]
  cases ho : t.state.translated.get? ⟨nt, tr⟩ with
  | none => rfl
  | some o =>
    obtain ⟨b, hb, _⟩ := h.inverse.get?_fwd ho
    by_cases he : b.entry.isExpired now = true
    · simp [hb, he, expire, h.removeBinding hb, foundIf]
    have hf : (b.flows ord o).head? ≠ none := by
      rw [ne_eq, List.head?_eq_none_iff, NatBinding.flows, List.map_eq_nil_iff,
        ← List.length_eq_zero_iff, IterOrder.length]
      exact h.inhabited o b hb
    obtain ⟨flow, hf⟩ := ne_none_iff_exists'.mp hf
    simp [hb, he, hf, foundIf]

theorem answer_bindTranslated (h : t.state.Ok) (nt : Network) (sr tr : SocketAddr) :
    t.answer now (.bindTranslated nt sr tr) = some (
      match t.state.live? now ⟨nt, sr⟩ with
      | none => .failed
      | some own =>
        if own.entry.translated = tr then .found
        else if t.state.ownedByOther ⟨nt, sr⟩ tr then .failed else .found) := by
  simp only [answer, bindTranslated, live?]
  cases hb : t.state.entries.get? ⟨nt, sr⟩ with
  | none => rfl
  | some own =>
    by_cases he : own.entry.isExpired now = true
    · simp [he, expire, h.removeBinding hb, NatAnswer.ofBind, Option.filter]
    · simp only [Option.filter, he, Bool.not_false, if_true, Bool.false_eq_true, if_false]
      split_ifs <;> rfl

end

section

variable (h : t.state.Ok) (h' : t'.state.Ok) (hswept : NatState.Swept t.state now t'.state)
include h' hswept

theorem ownedByOther_swept {key : NatBindingKey} {tr : SocketAddr}
    (ho : ∀ b ∈ t.state.live? now key, b.entry.translated ≠ tr) :
    t'.state.ownedByOther key tr = (t.state.liveOwner? now ⟨key.network, tr⟩).isSome := by
  rw [h'.ownedByOther (hswept.entries key ▸ ho), hswept.translated]

include h in
theorem answer_insert_iff (key : NatKey) (tr : SocketAddr) (idl : Duration) :
    t.answer now (.insert key tr idl) =
        t'.answer now (.insert key tr idl) ↔ ¬ t.state.Hampered now (.insert key tr idl) := by
  rw [answer_insert, answer_insert, Hampered, hswept.entries]
  by_cases hz : idl = 0
  · simp [hz]
  rw [if_neg hz, if_neg hz]
  cases hb : t.state.entries.get? key.bindingKey with
  | none =>
    have hlv : t.state.live? now key.bindingKey = none := by
      rw [live?, hb]
      rfl
    have hs : t'.state.ownedByOther key.bindingKey tr = _ :=
      ownedByOther_swept h' hswept (by simp [hlv])
    have hf : t.state.ownedByOther key.bindingKey tr = _ := h.ownedByOther (by simp [hb])
    rw [owner_cases t.state now] at hf
    simp only [hlv, hf, hs, some.injEq]
    cases hl : (t.state.liveOwner? now ⟨key.network, tr⟩).isSome with
    | true => simp [NatKey.bindingKey, hl, heldByExpired_of_live hl]
    | false => simp [NatKey.bindingKey, hl, hz]
  | some own =>
    cases he : own.entry.isExpired now with
    | true =>
      have hlv : t.state.live? now key.bindingKey = none := by simp [live?, hb, Option.filter, he]
      have hs : t'.state.ownedByOther key.bindingKey tr = _ :=
        ownedByOther_swept h' hswept (by simp [hlv])
      simp only [hlv, hs, some.injEq]
      by_cases ho : own.entry.translated = tr
      · cases hl : t.state.liveOwner? now ⟨key.network, tr⟩ <;>
          simp [NatKey.bindingKey, hl, ho, hz, he]
      · cases hl : t.state.liveOwner? now ⟨key.network, tr⟩ <;>
          simp [NatKey.bindingKey, hl, ho, hz, he]
    | false =>
      have hlv : t.state.live? now key.bindingKey = some own := by
        simp [live?, hb, Option.filter, he]
      simp [hlv, he]

include h in
theorem answer_bindTranslated_iff (nt : Network) (sr tr : SocketAddr) :
    t.answer now (.bindTranslated nt sr tr) = t'.answer now (.bindTranslated nt sr tr) ↔
      ¬ t.state.Hampered now (.bindTranslated nt sr tr) := by
  rw [answer_bindTranslated h, answer_bindTranslated h', Hampered, hswept.live?]
  cases hlv : t.state.live? now ⟨nt, sr⟩ with
  | none => simp
  | some own =>
    by_cases ho : own.entry.translated = tr
    · simp [ho]
    have hb := (live?_eq_some.mp hlv).1
    have hs : t'.state.ownedByOther ⟨nt, sr⟩ tr = _ :=
      ownedByOther_swept h' hswept (by simpa [hlv] using ho)
    have hf : t.state.ownedByOther ⟨nt, sr⟩ tr = _ := h.ownedByOther (by simpa [hb] using ho)
    rw [owner_cases t.state now] at hf
    simp only [hf, hs, some.injEq, if_neg ho]
    cases hl : (t.state.liveOwner? now ⟨nt, tr⟩).isSome with
    | true => simp [heldByExpired_of_live hl]
    | false => simp [ho]

include h in
theorem answer_swept_iff (request : NatRequest) :
    t.answer now request = t'.answer now request ↔ ¬ t.state.Hampered now request := by
  cases request with
  | insert key tr idleTimeout => exact answer_insert_iff h h' hswept key tr _
  | touch => simp [answer_touch h, answer_touch h', hswept.live?, Hampered]
  | bindTranslated nw sr tr => exact answer_bindTranslated_iff h h' hswept nw sr tr
  | lookupTranslated =>
    simp [answer_lookupTranslated h, answer_lookupTranslated h', hswept.liveOwner?, Hampered]
  | lookupSource => simp [answer_lookupSource h, answer_lookupSource h', hswept.live?, Hampered]

end

theorem answer_isSome (h : t.state.Ok) (r : NatRequest) : (t.answer now r).isSome = true := by
  cases r with
  | insert => rfl
  | touch => rw [answer_touch h]; rfl
  | bindTranslated => rw [answer_bindTranslated h]; rfl
  | lookupTranslated => rw [answer_lookupTranslated h]; rfl
  | lookupSource => rw [answer_lookupSource h]; rfl

end NatTable

/-- In every reachable table, at every instant, an operation answers as it
would after a sweep at that instant exactly when no expired binding hampers
it. -/
theorem natTable_lazyExpiry_iff (inputs : List NatInput) (ord : AssocMap.IterOrder) (now : Instant)
    (request : NatRequest) :
    ∃ t r swept, Run.run NatTable.stepIfRunning (some .new) inputs = some t ∧
      t.sweepKeys ord now = some (r, swept) ∧ (t.answer now request).isSome = true ∧
      (t.answer now request = swept.answer now request ↔ ¬ t.state.Hampered now request) := by
  obtain ⟨t, ht, hok⟩ := run_ok _
  obtain ⟨r, swept, hs, hswept, he⟩ := hok.sweepKeys ord now
  exact ⟨t, r, swept, ht, hs, answer_isSome hok.state _,
    answer_swept_iff hok.state hswept.state (swept_of_entries hok.state hswept.state he) _⟩

def localAddr (host : UInt8) (port : UInt16) : SocketAddr := .v4 ⟨#v[10, 0, 0, host]⟩ port

def staleKey (host : UInt8) : NatKey := ⟨.udp, localAddr host 5000, localAddr 9 53⟩

def staleInputs : List NatInput :=
  [.insert (staleKey 1) (localAddr 100 1) 10 0, .insert (staleKey 2) (localAddr 100 2) 10 5]

/-- At instant 10 the expired binding is reused, blocks another endpoint for its
own source, and blocks its endpoint for new and for existing sources. -/
theorem natTable_hampered_by_expired : ∃ t r swept,
    Run.run NatTable.stepIfRunning (some .new) staleInputs = some t ∧
    t.sweepKeys .stored 10 = some (r, swept) ∧
    ∀ request ∈ [NatRequest.insert (staleKey 1) (localAddr 100 1) 10,
        .insert (staleKey 1) (localAddr 100 3) 10, .insert (staleKey 3) (localAddr 100 1) 10,
        .bindTranslated .udp (localAddr 2 5000) (localAddr 100 1)],
      t.answer 10 request ≠ swept.answer 10 request := by
  have he : (match Run.run stepIfRunning (some .new) staleInputs with
      | some t =>
        match t.sweepKeys .stored 10 with
        | some (_, swept) =>
          decide (∀ request ∈ [NatRequest.insert (staleKey 1) (localAddr 100 1) 10,
              .insert (staleKey 1) (localAddr 100 3) 10, .insert (staleKey 3) (localAddr 100 1) 10,
              .bindTranslated .udp (localAddr 2 5000) (localAddr 100 1)],
            t.answer 10 request ≠ swept.answer 10 request)
        | none => false
      | none => false) = true := by decide +kernel
  obtain ⟨t, ht, hok⟩ := run_ok staleInputs
  obtain ⟨r, swept, hs, _⟩ := hok.sweepKeys .stored 10
  rw [ht] at he
  simp only [hs] at he
  exact ⟨t, r, swept, ht, hs, of_decide_eq_true he⟩

theorem NatState.Ok.liveOwner?_iff {s : NatState} (h : s.Ok) (now : Instant) (nt : Network)
    (tr source : SocketAddr) : s.liveOwner? now ⟨nt, tr⟩ = some ⟨nt, source⟩ ↔
      ∃ b, s.live? now ⟨nt, source⟩ = some b ∧ b.entry.translated = tr := by
  rw [liveOwner?_eq_some, ← h.inverse]
  constructor
  · rintro ⟨⟨b, hb, he⟩, b', hl⟩
    cases hb.symm.trans (live?_eq_some.mp hl).1
    cases he
    exact ⟨b, hl, rfl⟩
  · rintro ⟨b, hl, rfl⟩
    exact ⟨⟨b, (live?_eq_some.mp hl).1, rfl⟩, b, hl⟩

theorem NatTable.lookupTranslated_flow {t : NatTable} (h : t.state.Ok) (ord : IterOrder)
    (nt : Network) (tr ex : SocketAddr) (c now : Instant) :
    ∃ flow t', t.lookupTranslated ord nt tr ex c now = some (.ok flow, t') ∧
      ∀ source, (∃ destination, flow = some ⟨nt, source, destination⟩) ↔
        t.state.liveOwner? c ⟨nt, tr⟩ = some ⟨nt, source⟩ := by
  simp only [lookupTranslated, NatTable.count]
  cases ho : t.state.translated.get? ⟨nt, tr⟩ with
  | none => exact ⟨_, _, rfl, fun source => by simp [liveOwner?, ho]⟩
  | some key =>
    obtain ⟨b, hb, he⟩ := h.inverse.get?_fwd ho
    cases he
    cases hx : b.entry.isExpired c with
    | true =>
      simp only [hb, hx, if_true, expire, h.removeBinding hb]
      exact ⟨_, _, rfl, fun source => by simp [liveOwner?, live?, ho, hb, hx, Option.filter]⟩
    | false =>
      obtain ⟨e, l, hf⟩ : ∃ e l, ord b.destinations.entries = e :: l := by
        apply List.exists_cons_of_length_pos
        rw [IterOrder.length]
        exact Nat.pos_of_ne_zero (h.inhabited key b hb)
      simp only [hb, hx]
      refine ⟨_, _, rfl, fun source => ?_⟩
      obtain ⟨nt, sr⟩ := key
      simp [liveOwner?, live?, ho, hb, hx, NatBinding.flows, hf, Option.filter]

/-- What any peer sends to a translated endpoint goes to the source that holds the endpoint by a
binding that has not expired, and to no other one. -/
theorem natTable_full_cone (inputs : List NatInput) (ord : AssocMap.IterOrder) (network : Network)
    (translated external : SocketAddr) (checked now : Instant) :
    ∃ t flow t', Run.run NatTable.stepIfRunning (some .new) inputs = some t ∧
      t.lookupTranslated ord network translated external checked now = some (.ok flow, t') ∧
      ∀ source, (∃ destination, flow = some ⟨network, source, destination⟩) ↔
        ∃ binding, t.state.live? checked ⟨network, source⟩ = some binding ∧
          binding.entry.translated = translated := by
  obtain ⟨t, ht, hs, -⟩ := run_ok inputs
  obtain ⟨flow, t', hl, hf⟩ := lookupTranslated_flow hs ord network translated external checked now
  exact ⟨t, flow, t', ht, hl, fun source => (hf source).trans (hs.liveOwner?_iff ..)⟩

end Doradus
