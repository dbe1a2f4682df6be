import Doradus.Core.NatTable
import Doradus.Lib.Run

/-!
# The invariant of the NAT table

The reverse index is the inverse of the bindings, every binding has a flow, the
number of active destinations is the number of flows, and every binding ever
allocated is still there, has expired or was closed. The counters are `u64`
values; they count exactly as long as fewer than `2 ^ 64` operations have run.
-/

namespace Doradus

open NatTable NatState Option Prod List AssocMap NatBinding

def NatBinding.endpoint (key : NatBindingKey) (binding : NatBinding) : NatEndpointKey :=
  ⟨key.network, binding.entry.translated⟩

def NatBinding.flowCount (_key : NatBindingKey) (binding : NatBinding) : ℕ :=
  binding.destinations.size

structure NatState.Ok (s : NatState) : Prop where
  inverse : AssocMap.Inverse NatBinding.endpoint s.entries s.translated
  inhabited : ∀ key binding, s.entries.get? key = some binding → binding.destinations.size ≠ 0
  active : s.activeDestinations = s.entries.total NatBinding.flowCount

namespace NatState

variable {s : NatState} {key : NatBindingKey} {binding : NatBinding}

theorem Ok.size_le (h : s.Ok) (hb : s.entries.get? key = some binding) :
    binding.destinations.size ≤ s.activeDestinations := by
  rw [h.active, ← s.entries.total_erase _ hb]
  exact Nat.le_add_right _ _

theorem Ok.removeBinding (h : s.Ok) (hb : s.entries.get? key = some binding) :
    s.removeBinding key = some (some binding, s.drop key binding) := by
  rw [NatState.removeBinding, hb]
  exact if_pos (h.size_le hb)

theorem Ok.drop (h : s.Ok) (hb : s.entries.get? key = some binding) : (s.drop key binding).Ok where
  inverse := h.inverse.erase hb
  inhabited := by
    intro k b hk
    exact h.inhabited k b (of_get?_erase hk).2
  active := by
    have ht := s.entries.total_erase flowCount hb
    rw [NatState.drop, h.active, ← ht]
    exact Nat.add_sub_cancel_left _ _

variable {g : NatBinding → NatBinding} {n : ℕ}

theorem Ok.total_modify (h : s.Ok) (hb : s.entries.get? key = some binding)
    (hn : n + binding.destinations.size = s.activeDestinations + (g binding).destinations.size) :
    n = (s.entries.modify key g).total flowCount := by
  have ht := s.entries.total_modify flowCount g hb
  have ha := h.active
  simp only [flowCount] at ht
  omega

theorem Ok.modify (h : s.Ok) (hb : s.entries.get? key = some binding)
    (he : ∀ b, (g b).entry.translated = b.entry.translated)
    (hne : (g binding).destinations.size ≠ 0)
    (hn : n + binding.destinations.size = s.activeDestinations + (g binding).destinations.size) :
    Ok ⟨s.entries.modify key g, s.translated, n⟩ where
  inverse := h.inverse.modify fun b => by
    rw [endpoint, he]
    rfl
  inhabited := by
    intro k b hk
    rw [get?_modify] at hk
    split_ifs at hk with heq
    · subst heq
      rw [hb] at hk
      cases hk
      exact hne
    · exact h.inhabited k b hk
  active := h.total_modify hb hn

theorem Ok.see (h : s.Ok) (hb : s.entries.get? key = some binding) (d : SocketAddr)
    (now : Instant) : (s.see key binding d now).Ok := by
  have hs := binding.destinations.size_insert d ()
  apply h.modify hb
  · exact fun _ => rfl
  · have := h.inhabited key _ hb
    rw [hs]
    omega
  · rw [hs]
    omega

theorem Ok.refresh (h : s.Ok) (hb : s.entries.get? key = some binding) (now : Instant) :
    (s.refresh key now).Ok := by
  apply h.modify hb
  · exact fun _ => rfl
  · exact h.inhabited key binding hb
  · rfl

theorem ownedByOther_eq_false {tr : SocketAddr} (h : s.ownedByOther key tr = false)
    {o : NatBindingKey} (ho : s.translated.get? ⟨key.network, tr⟩ = some o) : o = key := by
  rw [ownedByOther, ho] at h
  simpa using h

theorem Ok.insert (h : s.Ok) (hb : s.entries.get? key = none)
    (hf : s.ownedByOther key binding.entry.translated = false)
    (ho : binding.destinations.size = 1) :
    Ok ⟨s.entries.insert key binding,
      s.translated.insert ⟨key.network, binding.entry.translated⟩ key,
      s.activeDestinations + 1⟩ where
  inverse := by
    apply h.inverse.insert
    · intro k hk
      exact ownedByOther_eq_false hf hk
    · intro b hk
      rw [hb] at hk
      cases hk
  inhabited := by
    intro k b hk
    rcases of_get?_insert hk with ⟨-, rfl⟩ | hk
    · omega
    · exact h.inhabited k b hk
  active := by
    have ht := s.entries.total_insert_of_none flowCount binding hb
    rw [ht, ← h.active, flowCount, ho]
    exact Nat.add_comm _ _

theorem Ok.rebind (h : s.Ok) (hb : s.entries.get? key = some binding) {translated : SocketAddr}
    (hf : s.ownedByOther key translated = false) (now : Instant) :
    Ok
      { s with
        entries := s.entries.modify key fun b =>
          { b with entry := { b.entry with translated := translated, lastSeen := now } }
        translated := (s.translated.erase ⟨key.network, binding.entry.translated⟩).insert
          ⟨key.network, translated⟩ key } where
  inverse := by
    apply h.inverse.rebind hb
    intro k hk
    exact ownedByOther_eq_false hf hk
  inhabited := by
    intro k b hk
    rw [get?_modify] at hk
    split_ifs at hk
    · obtain ⟨b', hb', rfl⟩ := map_eq_some_iff.mp hk
      exact h.inhabited k b' hb'
    · exact h.inhabited k b hk
  active := h.total_modify hb rfl

end NatState

namespace NatTable

variable {t t' : NatTable} {n : ℕ}

/-- At most `n` bindings were ever allocated; each is active, has expired or
was closed. -/
def Accounted (n : ℕ) (t : NatTable) : Prop :=
  ∃ expired closed : ℕ, t.state.entries.size + expired + closed ≤ n ∧
    t.metrics.allocations = .ofNat (t.state.entries.size + expired + closed) ∧
    t.metrics.expiredBindings = .ofNat expired ∧ t.metrics.explicitCloses = .ofNat closed

section

variable (h : t.Accounted n)
include h

theorem Accounted.keep (hs : t'.state.entries.size = t.state.entries.size)
    (ha : t'.metrics.allocations = t.metrics.allocations)
    (he : t'.metrics.expiredBindings = t.metrics.expiredBindings)
    (hc : t'.metrics.explicitCloses = t.metrics.explicitCloses) : t'.Accounted (n + 1) := by
  obtain ⟨ex, c, hle, hal, hex, hcl⟩ := h
  refine ⟨ex, c, ?_, ?_, he.trans hex, hc.trans hcl⟩
  · omega
  · rw [ha, hs, hal]

theorem Accounted.allocate (hs : t'.state.entries.size = t.state.entries.size + 1)
    (ha : t'.metrics.allocations = t.metrics.allocations + 1)
    (he : t'.metrics.expiredBindings = t.metrics.expiredBindings)
    (hc : t'.metrics.explicitCloses = t.metrics.explicitCloses) : t'.Accounted (n + 1) := by
  obtain ⟨ex, c, hle, hal, hex, hcl⟩ := h
  refine ⟨ex, c, ?_, ?_, he.trans hex, hc.trans hcl⟩
  · omega
  have hsum : t'.state.entries.size + ex + c = t.state.entries.size + ex + c + 1 := by omega
  rw [ha, hsum, hal, UInt64.ofNat_add _ 1]
  rfl

theorem Accounted.expire {k : ℕ} (hs : t'.state.entries.size + k = t.state.entries.size)
    (ha : t'.metrics.allocations = t.metrics.allocations)
    (he : t'.metrics.expiredBindings = t.metrics.expiredBindings + .ofNat k)
    (hc : t'.metrics.explicitCloses = t.metrics.explicitCloses) : t'.Accounted (n + 1) := by
  obtain ⟨ex, closed, hle, hal, hex, hcl⟩ := h
  refine ⟨ex + k, closed, ?_, ?_, ?_, hc.trans hcl⟩
  · omega
  · have hsum : t'.state.entries.size + (ex + k) + closed =
        t.state.entries.size + ex + closed := by omega
    rw [ha, hsum, hal]
  · rw [he, hex, UInt64.ofNat_add]

theorem Accounted.close (hs : t'.state.entries.size + 1 = t.state.entries.size)
    (ha : t'.metrics.allocations = t.metrics.allocations)
    (he : t'.metrics.expiredBindings = t.metrics.expiredBindings)
    (hc : t'.metrics.explicitCloses = t.metrics.explicitCloses + 1) : t'.Accounted (n + 1) := by
  obtain ⟨ex, closed, hle, hal, hex, hcl⟩ := h
  refine ⟨ex, closed + 1, ?_, ?_, he.trans hex, ?_⟩
  · omega
  · have hsum : t'.state.entries.size + ex + (closed + 1) =
        t.state.entries.size + ex + closed := by omega
    rw [ha, hsum, hal]
  · rw [hc, hcl, UInt64.ofNat_add]
    rfl

end

structure Ok (n : ℕ) (t : NatTable) : Prop where
  state : t.state.Ok
  accounted : t.Accounted n

theorem ok_new : new.Ok 0 := ⟨⟨Inverse.empty, nofun, rfl⟩, 0, 0, le_rfl, rfl, rfl, rfl⟩

variable {key : NatKey} {bindingKey : NatBindingKey} {binding : NatBinding} {s : NatState}

theorem size_drop (hb : s.entries.get? bindingKey = some binding) :
    (s.drop bindingKey binding).entries.size + 1 = s.entries.size :=
  s.entries.size_erase hb

section

variable (h : t.Ok n)
include h

theorem Ok.later : t.Ok (n + 1) := ⟨h.state, h.accounted.keep rfl rfl rfl rfl⟩

theorem Ok.expire (hb : t.state.entries.get? bindingKey = some binding) :
    ∃ t', t.expire bindingKey = some t' ∧ t'.Ok (n + 1) := by
  rw [NatTable.expire, h.state.removeBinding hb]
  exact ⟨_, rfl, h.state.drop hb, h.accounted.expire (size_drop hb) rfl rfl rfl⟩

theorem Ok.insert (key : NatKey) (tr : SocketAddr) (idl : Duration)
    (now : Instant) : (t.insert key tr idl now).2.Ok (n + 1) := by
  unfold NatTable.insert
  have hs := h.later
  by_cases hz : idl = 0
  · rw [if_pos hz]
    exact hs
  rw [if_neg hz]
  split
  · next binding hb =>
    split_ifs
    · exact hs
    · exact ⟨h.state.see hb _ _, h.accounted.keep (size_modify _ _ _) rfl rfl rfl⟩
  next hb =>
  split_ifs with ho
  · exact hs
  · exact ⟨h.state.insert hb (Bool.not_eq_true _ ▸ ho) rfl,
      h.accounted.allocate (size_insert_of_none _ _ hb) rfl rfl rfl⟩

theorem Ok.touch (key : NatKey) (c now : Instant) :
    ∃ r t', t.touch key c now = some (r, t') ∧ t'.Ok (n + 1) := by
  unfold NatTable.touch
  split
  · exact ⟨_, _, rfl, h.state, h.accounted.keep rfl rfl rfl rfl⟩
  next binding hb =>
  split_ifs
  · rw [h.state.removeBinding hb]
    exact ⟨_, _, rfl, h.state.drop hb, h.accounted.expire (size_drop hb) rfl rfl rfl⟩
  · exact ⟨_, _, rfl, h.state.see hb _ _, h.accounted.keep (size_modify _ _ _) rfl rfl rfl⟩

theorem Ok.bindTranslated (nt : Network) (sr tr : SocketAddr) (now : Instant) :
    ∃ r t', t.bindTranslated nt sr tr now = some (r, t') ∧ t'.Ok (n + 1) := by
  unfold NatTable.bindTranslated
  have hs := h.later
  dsimp only
  split
  · exact ⟨_, _, rfl, hs⟩
  next current hb =>
  split_ifs with he hown ho
  · obtain ⟨t', ht', hok⟩ := h.expire hb
    rw [ht']
    exact ⟨_, _, rfl, hok⟩
  · exact ⟨_, _, rfl, h.state.refresh hb _, h.accounted.keep (size_modify _ _ _) rfl rfl rfl⟩
  · exact ⟨_, _, rfl, hs⟩
  · exact ⟨_, _, rfl, h.state.rebind hb (Bool.not_eq_true _ ▸ ho) _,
      h.accounted.keep (size_modify _ _ _) rfl rfl rfl⟩

theorem Ok.removeSource (nt : Network) (sr : SocketAddr) :
    ∃ r t', t.removeSource nt sr = some (r, t') ∧ t'.Ok (n + 1) := by
  unfold NatTable.removeSource
  cases hb : t.state.entries.get? ⟨nt, sr⟩ with
  | none =>
    rw [removeBinding, hb]
    exact ⟨_, _, rfl, h.state, h.accounted.keep rfl rfl rfl rfl⟩
  | some =>
    rw [h.state.removeBinding hb]
    exact ⟨_, _, rfl, h.state.drop hb, h.accounted.close (size_drop hb) rfl rfl rfl⟩

theorem Ok.lookupSource (nt : Network) (sr : SocketAddr) (now : Instant) :
    ∃ r t', t.lookupSource nt sr now = some (r, t') ∧ t'.Ok (n + 1) := by
  unfold NatTable.lookupSource
  have hs := h.later
  split
  · exact ⟨_, _, rfl, hs⟩
  next current hb =>
  split_ifs
  · obtain ⟨t', ht', hok⟩ := h.expire hb
    rw [ht']
    exact ⟨_, _, rfl, hok⟩
  · exact ⟨_, _, rfl, hs⟩

theorem Ok.lookupTranslated (ord : IterOrder) (nt : Network) (tr ex : SocketAddr)
    (c now : Instant) :
    ∃ r t', t.lookupTranslated ord nt tr ex c now = some (r, t') ∧ t'.Ok (n + 1) := by
  unfold NatTable.lookupTranslated
  dsimp only
  have hc : (t.count fun m => { m with reverseLookups := m.reverseLookups + 1 }).Ok n :=
    ⟨h.state, h.accounted⟩
  have hs := hc.later
  split
  · exact ⟨_, _, rfl, hs⟩
  next key hk =>
  split
  · exact ⟨_, _, rfl, hs⟩
  next current hb =>
  split_ifs
  · obtain ⟨t', ht', hok⟩ := hc.expire hb
    rw [ht']
    exact ⟨_, _, rfl, hok⟩
  · exact ⟨_, _, rfl, hc.state.refresh hb _, hc.accounted.keep (size_modify _ _ _) rfl rfl rfl⟩
  · exact ⟨_, _, rfl, hc.state.refresh hb _, hc.accounted.keep (size_modify _ _ _) rfl rfl rfl⟩

end

theorem removeBinding_erased (hb : s.entries.get? bindingKey = some binding)
    {d : SocketAddr} (hl : (binding.destinations.erase d).size = 0) :
    removeBinding
        ⟨s.entries.modify bindingKey fun b =>
            { b with destinations := b.destinations.erase d },
          s.translated, s.activeDestinations - binding.destinations.size⟩ bindingKey =
      some (some { binding with destinations := binding.destinations.erase d },
        s.drop bindingKey binding) := by
  unfold NatState.removeBinding
  rw [get?_modify, if_pos rfl, hb]
  dsimp only [map_some]
  rw [NatState.drop, erase_modify, hl]
  rfl

theorem Ok.remove (h : t.Ok n) (key : NatKey) :
    ∃ r t', t.remove key = some (r, t') ∧ t'.Ok (n + 1) := by
  unfold NatTable.remove
  split
  · exact ⟨_, _, rfl, h.state, h.accounted.keep rfl rfl rfl rfl⟩
  next binding hb =>
  have hs := binding.destinations.size_erase_add key.destination
  have hle := h.state.size_le hb
  rw [if_pos (by omega)]
  by_cases hl : (binding.destinations.erase key.destination).size = 0
  · have ho : (if binding.destinations.contains key.destination then 1 else 0) =
        binding.destinations.size := by omega
    rw [if_neg (by omega), ho, removeBinding_erased hb hl]
    exact ⟨_, _, rfl, h.state.drop hb, h.accounted.close (size_drop hb) rfl rfl rfl⟩
  rw [if_pos hl]
  refine ⟨_, _, rfl, ?_, h.accounted.keep (size_modify _ _ _) rfl rfl rfl⟩
  apply h.state.modify hb
  · exact fun _ => rfl
  · exact hl
  · dsimp only
    omega

theorem removeBindings_ok (h : s.Ok) {keys : List NatBindingKey}
    (hn : keys.Nodup) (hp : ∀ k ∈ keys, ∃ b, s.entries.get? k = some b) :
    ∃ s', removeBindings s keys = some s' ∧ s'.Ok ∧ s'.entries.size + keys.length = s.entries.size ∧
      ∀ k, s'.entries.get? k = if k ∈ keys then none else s.entries.get? k := by
  induction keys generalizing s with
  | nil => exact ⟨s, rfl, h, rfl, by simp⟩
  | cons key keys ih =>
    rw [nodup_cons] at hn
    obtain ⟨binding, hb⟩ := hp key (mem_cons_self ..)
    have hr : ∀ k ∈ keys, ∃ b, (s.drop key binding).entries.get? k = some b := by
      intro k hk
      obtain ⟨b, hbk⟩ := hp k (mem_cons_of_mem key hk)
      refine ⟨b, ?_⟩
      rw [NatState.drop, get?_erase_of_ne _ (ne_of_mem_of_not_mem hk hn.1), hbk]
    obtain ⟨s', hs', hok, hsz, hg⟩ := ih (h.drop hb) hn.2 hr
    have hd := size_drop hb
    refine ⟨s', ?_, hok, ?_, ?_⟩
    · rw [removeBindings, foldlM_cons, h.removeBinding hb]
      exact hs'
    · rw [length_cons]
      omega
    intro k
    rw [hg, NatState.drop, get?_erase]
    by_cases hk : k = key
    · simp [hk]
    · simp [hk]

theorem nodup_expiredBindings (t : NatTable) (ord : IterOrder) (now : Instant) :
    ((t.expiredBindings ord now).map fst).Nodup := by
  have hn := (((ord.perm t.state.entries.entries).map fst).nodup_iff).mpr
    t.state.entries.nodup
  exact hn.sublist (filter_sublist.map fst)

theorem mem_expiredBindings {ord : IterOrder} {now : Instant}
    {e : NatBindingKey × NatBinding} : e ∈ t.expiredBindings ord now ↔
      t.state.entries.get? e.1 = some e.2 ∧ e.2.entry.isExpired now = true := by
  rw [expiredBindings, mem_filter, IterOrder.mem, get?_eq_some_iff]

theorem Ok.sweepKeys (h : t.Ok n) (ord : IterOrder) (now : Instant) :
    ∃ r t', t.sweepKeys ord now = some (r, t') ∧ t'.Ok (n + 1) ∧ ∀ k, t'.state.entries.get? k =
        (t.state.entries.get? k).filter fun b => !b.entry.isExpired now := by
  have hp : ∀ k ∈ (t.expiredBindings ord now).map fst, ∃ b, t.state.entries.get? k = some b := by
    intro k hk
    obtain ⟨e, he, rfl⟩ := mem_map.mp hk
    exact ⟨e.2, (mem_expiredBindings.mp he).1⟩
  obtain ⟨s', hs', hok, hsz, hg⟩ := removeBindings_ok h.state (nodup_expiredBindings t ord now) hp
  unfold NatTable.sweepKeys
  dsimp only
  rw [hs']
  rw [length_map] at hsz
  refine ⟨_, _, rfl, ⟨hok, h.accounted.expire hsz rfl rfl rfl⟩, ?_⟩
  intro k
  rw [hg]
  cases hb : t.state.entries.get? k with
  | none => simp
  | some b =>
    have hmem : k ∈ (t.expiredBindings ord now).map fst ↔ b.entry.isExpired now = true := by
      constructor
      · intro hk
        obtain ⟨e, he, rfl⟩ := mem_map.mp hk
        obtain ⟨he, hex⟩ := mem_expiredBindings.mp he
        rw [hb] at he
        cases he
        exact hex
      · intro hex
        exact mem_map.mpr ⟨(k, b), mem_expiredBindings.mpr ⟨hb, hex⟩, rfl⟩
    by_cases hex : b.entry.isExpired now = true
    · rw [if_pos (hmem.mpr hex)]
      simp [Option.filter, hex]
    · rw [if_neg (mt hmem.mp hex)]
      simp [Option.filter, hex]

theorem exists_map_snd {α : Type} {x : Option (α × NatTable)}
    (h : ∃ r t', x = some (r, t') ∧ t'.Ok n) : ∃ t', x.map Prod.snd = some t' ∧ t'.Ok n := by
  obtain ⟨r, t', rfl, hok⟩ := h
  exact ⟨t', rfl, hok⟩

theorem Ok.step (h : t.Ok n) (inp : NatInput) : ∃ t', t.step inp = some t' ∧ t'.Ok (n + 1) := by
  cases inp with
  | insert key tr _ now => exact ⟨_, rfl, h.insert key tr _ now⟩
  | touch key c now => exact exists_map_snd (h.touch key c now)
  | bindTranslated nw sr tr now => exact exists_map_snd (h.bindTranslated nw sr tr now)
  | remove key => exact exists_map_snd (h.remove key)
  | removeSource nw sr => exact exists_map_snd (h.removeSource nw sr)
  | sweepKeys ord now =>
    obtain ⟨r, t', ht', hok, _⟩ := h.sweepKeys ord now
    exact exists_map_snd ⟨r, t', ht', hok⟩
  | lookupTranslated ord nw tr ex c now =>
    exact exists_map_snd (h.lookupTranslated ord nw tr ex c now)
  | lookupSource nw sr now => exact exists_map_snd (h.lookupSource nw sr now)

def stepIfRunning (t : Option NatTable) (input : NatInput) : Option NatTable :=
  t.bind fun t => t.step input

theorem run_ok (inp : List NatInput) :
    ∃ t, Run.run stepIfRunning (some .new) inp = some t ∧ t.Ok inp.length := by
  have hr := Run.invariant_counted (P := fun n o => ∃ t, o = some t ∧ Ok n t)
    stepIfRunning (by
      rintro n o a ⟨t, rfl, hok⟩
      exact hok.step a) inp 0 (some .new) ⟨_, rfl, ok_new⟩
  rwa [Nat.zero_add] at hr

end NatTable

/-- After every sequence of operations, at whatever clock values, the table is
there and both indexes, the flows and the counters agree. -/
theorem natTable_invariant (inputs : List NatInput) :
    ∃ t, Run.run NatTable.stepIfRunning (some .new) inputs = some t ∧
      (∀ network address key, t.state.translated.get? ⟨network, address⟩ = some key ↔
        ∃ binding, t.state.entries.get? key = some binding ∧
          binding.entry.translated = address ∧ key.network = network) ∧
      (∀ key binding, t.state.entries.get? key = some binding → 0 < binding.destinations.size) ∧
      t.state.activeDestinations =
        (t.state.entries.entries.map fun e => e.2.destinations.size).sum ∧
      t.metrics.allocations = .ofNat t.state.entries.size + t.metrics.expiredBindings +
        t.metrics.explicitCloses ∧
      (inputs.length < 2 ^ 64 → t.metrics.allocations.toNat = t.state.entries.size +
        t.metrics.expiredBindings.toNat + t.metrics.explicitCloses.toNat) := by
  obtain ⟨t, ht, hs, expired, closed, hle, ha, hex, hc⟩ := NatTable.run_ok _
  refine ⟨t, ht, ?_, ?_, hs.active, ?_, ?_⟩
  · intro network address key
    rw [← hs.inverse]
    constructor
    · intro h
      obtain ⟨binding, hb, he⟩ := h
      cases he
      exact ⟨binding, hb, rfl, rfl⟩
    · intro h
      obtain ⟨binding, hb, rfl, rfl⟩ := h
      exact ⟨binding, hb, rfl⟩
  · intro key binding hb
    exact Nat.pos_of_ne_zero (hs.inhabited key _ hb)
  · rw [ha, hex, hc, UInt64.ofNat_add, UInt64.ofNat_add]
  intro _
  rw [ha, hex, hc]
  simp only [UInt64.toNat_ofNat']
  rw [Nat.mod_eq_of_lt (by omega), Nat.mod_eq_of_lt (by omega), Nat.mod_eq_of_lt (by omega)]

end Doradus
