import Doradus.Lib.Bytes
import Doradus.Types.Flow
import Doradus.Trie.DomainTrie

/-!
# The longest-prefix trie and the combined trie

A binary trie per address family. Its abstraction is the value stored under each bit path; `search`
returns the value of the longest stored prefix of the address. In the combined trie a pattern with
a slash is a CIDR, any other a domain pattern. `keyOf` is the key a pattern denotes after the
trie's canonicalisation.
-/

namespace Doradus

open List

def addressBits (address : IpAddr) : List Bool :=
  (List.range address.width).map fun index =>
    let byte := address.octets.getD (index / 8) 0
    byte &&& (1 <<< (7 - index % 8).toUInt8) != 0

/-- A boxed child that is not there is `absent`. -/
inductive CidrNode (α : Type) where
  | absent
  | node (value : Option α) (zero one : CidrNode α)

namespace CidrNode

variable {α : Type}

def empty : CidrNode α := .node none .absent .absent

def value : CidrNode α → Option α
  | .absent => none
  | .node v _ _ => v

def child (b : Bool) : CidrNode α → CidrNode α
  | .absent => .absent
  | .node _ zero one => if b then one else zero

/-- `get_or_insert_with`, then replace the child on one side. -/
def setChild (n : CidrNode α) (b : Bool) (c : CidrNode α) : CidrNode α :=
  match n with
  | .absent => if b then .node none .absent c else .node none c .absent
  | .node v zero one => if b then .node v zero c else .node v c one

def setValue (v : Option α) : CidrNode α → CidrNode α
  | .absent => .node v .absent .absent
  | .node _ zero one => .node v zero one

def insertBits (v : α) : CidrNode α → List Bool → Option α × CidrNode α
  | n, [] => (n.value, n.setValue (some v))
  | n, b :: bits =>
    let r := insertBits v (n.child b) bits
    (r.1, n.setChild b r.2)

def searchBits : CidrNode α → Option α → List Bool → Option α
  | _, best, [] => best
  | n, best, b :: bits =>
    match n.child b with
    | .absent => best
    | .node v zero one => searchBits (.node v zero one) (if v.isSome then v else best) bits

def stored : CidrNode α → List Bool → Option α
  | n, [] => n.value
  | n, b :: bits => (n.child b).stored bits

@[simp] theorem value_setChild (b : Bool) (c n : CidrNode α) :
    (n.setChild b c).value = n.value := by
  cases n <;> cases b <;> rfl

@[simp] theorem child_setChild_self (b : Bool) (c n : CidrNode α) :
    (n.setChild b c).child b = c := by
  cases n <;> cases b <;> rfl

theorem child_setChild_of_ne {b b' : Bool} (h : b' ≠ b) (c n : CidrNode α) :
    (n.setChild b c).child b' = n.child b' := by
  cases n <;> cases b <;> cases b' <;> first | rfl | exact absurd rfl h

@[simp] theorem value_setValue (v : Option α) (n : CidrNode α) : (n.setValue v).value = v := by
  cases n <;> rfl

@[simp] theorem child_setValue (v : Option α) (b : Bool) (n : CidrNode α) :
    (n.setValue v).child b = n.child b := by
  cases n <;> cases b <;> rfl

@[simp] theorem stored_absent (bits : List Bool) : (absent : CidrNode α).stored bits = none := by
  induction bits with
  | nil => rfl
  | cons _ _ ih => simpa [stored, child] using ih

@[simp] theorem stored_empty (bits : List Bool) : (empty : CidrNode α).stored bits = none := by
  cases bits with
  | nil => rfl
  | cons b => cases b <;> simp [stored, child, empty]

theorem insertBits_fst (v : α) (n : CidrNode α) (bits : List Bool) :
    (insertBits v n bits).1 = n.stored bits := by
  induction bits generalizing n with
  | nil => rfl
  | cons _ _ ih => simp [insertBits, stored, ih]

theorem stored_insertBits (v : α) (n : CidrNode α) (bits path : List Bool) :
    (insertBits v n bits).2.stored path = if path = bits then some v else n.stored path := by
  induction bits generalizing n path with
  | nil =>
    cases path with
    | nil | cons => simp [insertBits, stored]
  | cons b _ ih =>
    cases path with
    | nil => simp [insertBits, stored]
    | cons b' =>
      by_cases hb : b' = b
      · subst b'
        simp [insertBits, stored, ih]
      · simp [insertBits, stored, hb, child_setChild_of_ne hb]

def prefixOrder (bits : List Bool) : List (List Bool) := bits.inits.reverse

theorem prefixOrder_cons (b : Bool) (bits : List Bool) :
    prefixOrder (b :: bits) = (prefixOrder bits).map (b :: ·) ++ [[]] := by
  simp [prefixOrder]

theorem findSome?_prefixOrder_cons (n : CidrNode α) (b : Bool) (bits : List Bool) :
    (prefixOrder (b :: bits)).findSome? n.stored =
      ((prefixOrder bits).findSome? (n.child b).stored).or n.value := by
  rw [prefixOrder_cons, findSome?_append, findSome?_map]
  have hf : (n.stored ∘ fun x => b :: x) = (n.child b).stored := by
    funext x
    rfl
  congr 1
  simp only [findSome?_cons, stored]
  cases n.value <;> rfl

theorem searchBits_eq (n : CidrNode α) (best : Option α) (bits : List Bool) :
    n.searchBits (n.value.or best) bits = ((prefixOrder bits).findSome? n.stored).or best := by
  induction bits generalizing n best with
  | nil =>
    simp only [searchBits, prefixOrder, inits, reverse_singleton, findSome?_cons,
      findSome?_nil, stored]
    cases n.value <;> rfl
  | cons b bits ih =>
    rw [findSome?_prefixOrder_cons]
    cases hc : n.child b with
    | absent =>
      have hn : (prefixOrder bits).findSome? (absent : CidrNode α).stored = none :=
        findSome?_eq_none_iff.mpr fun p _ => stored_absent p
      simp [searchBits, hc, hn]
    | node v zero one =>
      have hi := ih (.node v zero one) (n.value.or best)
      simp only [searchBits, hc]
      rw [Option.or_assoc, ← hi]
      congr 1
      cases v <;> rfl

end CidrNode

structure CidrTrie (α : Type) where
  v4 : CidrNode α := .empty
  v6 : CidrNode α := .empty

namespace CidrTrie

variable {α : Type}

def insert (t : CidrTrie α) (network : IpAddr) (prefixLen : ℕ) (value : α) :
    Result (Option α × CidrTrie α) :=
  if network.width < prefixLen then .error (.invalid "CIDR prefix length exceeds address width")
  else
    let bits := (addressBits network).take prefixLen
    match network with
    | .v4 _ =>
      let r := CidrNode.insertBits value t.v4 bits
      .ok (r.1, { t with v4 := r.2 })
    | .v6 _ =>
      let r := CidrNode.insertBits value t.v6 bits
      .ok (r.1, { t with v6 := r.2 })

def root (t : CidrTrie α) : IpAddr → CidrNode α
  | .v4 _ => t.v4
  | .v6 _ => t.v6

def search (t : CidrTrie α) (address : IpAddr) : Option α :=
  let root := t.root address
  root.searchBits root.value (addressBits address)

theorem search_eq (t : CidrTrie α) (a : IpAddr) :
    t.search a = (CidrNode.prefixOrder (addressBits a)).findSome? (t.root a).stored := by
  have h := (t.root a).searchBits_eq none (addressBits a)
  simpa [search] using h

end CidrTrie

open Result

/-- A reversed label path, or the bits of a network up to its prefix length. -/
inductive Key where
  | domain (path : List Text)
  | v4 (bits : List Bool)
  | v6 (bits : List Bool)
  deriving DecidableEq

def Key.cidr (network : IpAddr) (bits : List Bool) : Key :=
  match network with
  | .v4 _ => .v4 bits
  | .v6 _ => .v6 bits

def parseCidr (address prefixLen : Text) : Result (IpAddr × ℕ) :=
  match IpAddr.parse address with
  | none => .error (.invalid "invalid CIDR address")
  | some address =>
    match parseUnsigned 255 prefixLen with
    | none => .error (.invalid "invalid CIDR prefix length")
    | some prefixLen => .ok (address, prefixLen)

def keyOf (pattern : Text) : Result Key :=
  match Text.splitOnce '/' pattern with
  | some (address, prefixLen) => do
    let (network, prefixLen) ← parseCidr address prefixLen
    if network.width < prefixLen then .error (.invalid "CIDR prefix length exceeds address width")
    else .ok (.cidr network ((addressBits network).take prefixLen))
  | none => do
    let labels ← patternLabels pattern
    .ok (.domain labels.reverse)

/-- The keys that match an endpoint, most specific first. -/
def candidates : Endpoint → List Key
  | .ip _ addr => (CidrNode.prefixOrder (addressBits addr.ip)).map (Key.cidr addr.ip)
  | .domain _ host _ => (matchOrder host.labels.reverse).map Key.domain

def parentCandidates : Endpoint → List Key
  | .ip _ addr => (CidrNode.prefixOrder (addressBits addr.ip)).map (Key.cidr addr.ip)
  | .domain _ host _ => (parentOrder host.labels.reverse host.labels.length).map Key.domain

structure CombinedTrie (α : Type) where
  domains : DomainTrie α := .new
  cidrs : CidrTrie α := {}

namespace CombinedTrie

variable {α : Type}

def new : CombinedTrie α := {}

def insert (t : CombinedTrie α) (pattern : Text) (value : α) : Result (Option α × CombinedTrie α) :=
  match Text.splitOnce '/' pattern with
  | some (address, prefixLen) => do
    let (address, prefixLen) ← parseCidr address prefixLen
    let (old, cidrs) ← t.cidrs.insert address prefixLen value
    .ok (old, { t with cidrs })
  | none => do
    let (old, domains) ← t.domains.insert pattern value
    .ok (old, { t with domains })

def search (t : CombinedTrie α) : Endpoint → Option α
  | .ip _ addr => t.cidrs.search addr.ip
  | .domain _ host _ => (t.domains.search host.text).ok?.join

def searchParent (t : CombinedTrie α) : Endpoint → Option α
  | .ip _ addr => t.cidrs.search addr.ip
  | .domain _ host _ => (t.domains.searchParent host.text).ok?.join

def stored (t : CombinedTrie α) : Key → Option α
  | .domain path => t.domains.stored path
  | .v4 bits => t.cidrs.v4.stored bits
  | .v6 bits => t.cidrs.v6.stored bits

def WellFormed (t : CombinedTrie α) : Prop := t.domains.WellFormed

theorem wellFormed_new : (new : CombinedTrie α).WellFormed := DomainTrie.wellFormed_new

@[simp] theorem stored_new (key : Key) : (new : CombinedTrie α).stored key = none := by
  cases key with
  | domain path => exact DomainTrie.stored_new _
  | v4 _ | v6 bits => exact CidrNode.stored_empty _

theorem stored_cidr (t : CombinedTrie α) (n : IpAddr) (bits : List Bool) :
    t.stored (Key.cidr n bits) = (t.cidrs.root n).stored bits := by
  cases n <;> rfl

theorem cidrs_insert_eq_ok {t t' : CidrTrie α} {n : IpAddr} {p : ℕ} {v : α}
    {old : Option α} (h : t.insert n p v = .ok (old, t')) :
    p ≤ n.width ∧ old = (t.root n).stored ((addressBits n).take p) ∧
      ∀ key, ({ cidrs := t' } : CombinedTrie α).stored key =
        if key = Key.cidr n ((addressBits n).take p) then some v
        else ({ cidrs := t } : CombinedTrie α).stored key := by
  unfold CidrTrie.insert at h
  split at h
  · cases h
  next hw =>
  refine ⟨Nat.le_of_not_lt hw, ?_⟩
  cases n with
  | v4 =>
    cases h
    refine ⟨CidrNode.insertBits_fst _ _ _, fun key => ?_⟩
    cases key with
    | domain | v6 => rfl
    | v4 bits => simpa [stored, Key.cidr] using CidrNode.stored_insertBits v t.v4 _ bits
  | v6 =>
    cases h
    refine ⟨CidrNode.insertBits_fst _ _ _, fun key => ?_⟩
    cases key with
    | domain | v4 => rfl
    | v6 bits => simpa [stored, Key.cidr] using CidrNode.stored_insertBits v t.v6 _ bits

theorem WellFormed.insert {t t' : CombinedTrie α} (ht : t.WellFormed) {p : Text} {v : α}
    {old : Option α} (h : t.insert p v = .ok (old, t')) :
    ∃ key, keyOf p = .ok key ∧ old = t.stored key ∧ t'.WellFormed ∧
      ∀ k, t'.stored k = if k = key then some v else t.stored k := by
  unfold CombinedTrie.insert at h
  unfold keyOf
  split at h
  · next address prefixLen hs =>
    obtain ⟨⟨nw, n⟩, hp, h⟩ := bind_eq_ok.mp h
    obtain ⟨⟨old', c⟩, hi, h⟩ := bind_eq_ok.mp h
    cases h
    obtain ⟨hw, hold, hst⟩ := cidrs_insert_eq_ok hi
    refine ⟨Key.cidr nw ((addressBits nw).take n), ?_, ?_, ht, fun k => ?_⟩
    · simp [hp, Nat.not_lt.mpr hw]
    · rw [stored_cidr]
      exact hold
    have hk := hst k
    cases k with
    | domain => cases nw <;> simp [stored, Key.cidr]
    | v4 | v6 => exact hk
  · next hs =>
    obtain ⟨⟨old', d⟩, hi, h⟩ := bind_eq_ok.mp h
    cases h
    obtain ⟨l, hl, hold, hwf, hst⟩ := DomainTrie.WellFormed.insert ht hi
    refine ⟨Key.domain l.reverse, ?_, hold, hwf, fun k => ?_⟩
    · simp [hl]
    · cases k with
      | domain path => simpa [stored] using hst _
      | v4 | v6 => simp [stored]

theorem insert_new_ok {p : Text} {key : Key} (h : keyOf p = .ok key) (v : α) :
    ∃ old t, (new : CombinedTrie α).insert p v = .ok (old, t) := by
  unfold keyOf at h
  unfold insert
  split at h
  · obtain ⟨⟨nw, n⟩, hp, h⟩ := bind_eq_ok.mp h
    dsimp only at h
    split_ifs at h with hw
    simp only [hp, ok_bind, CidrTrie.insert, if_neg hw]
    cases nw <;> exact ⟨_, _, rfl⟩
  obtain ⟨l, hl, h⟩ := bind_eq_ok.mp h
  have hlen := length_patternLabels_le hl
  have hf : (DomainTrie.new : DomainTrie α).labels.size + l.reverse.length ≤ 2 ^ 32 := by
    have hz : (DomainTrie.new : DomainTrie α).labels.size = 0 := rfl
    rw [length_reverse]
    omega
  obtain ⟨⟨n, t⟩, ht⟩ := DomainTrie.insertPath_ok 0 hf
  refine ⟨(t.node n).value, { domains := t.setValue n (some v) }, ?_⟩
  simp [DomainTrie.insert, hl, new, ht]

theorem search_eq (t : CombinedTrie α) (e : Endpoint) :
    t.search e = (candidates e).findSome? t.stored := by
  cases e with
  | ip _ addr =>
    rw [search, CidrTrie.search_eq, candidates, findSome?_map]
    congr 1
    funext bits
    exact (stored_cidr t addr.ip _).symm
  | domain =>
    simp only [search, DomainTrie.search, DomainName.new_text, DomainTrie.searchDomain_eq,
      candidates, findSome?_map]
    rfl

theorem searchParent_eq (t : CombinedTrie α) (e : Endpoint) :
    t.searchParent e = (parentCandidates e).findSome? t.stored := by
  cases e with
  | ip n addr => exact search_eq t (.ip n _)
  | domain =>
    simp only [searchParent, DomainTrie.searchParent, DomainName.new_text, ok_bind,
      DomainTrie.searchParentLabels_eq, length_reverse, parentCandidates, findSome?_map]
    rfl

end CombinedTrie

namespace CidrNode

variable {α : Type}

def isBare : CidrNode α → Bool
  | .node none .absent .absent => true
  | _ => false

/-- `remove_cidr`: the previous value at the path and the updated node. -/
def removeBits : CidrNode α → List Bool → Option α × CidrNode α
  | n, [] => (n.value, n.setValue none)
  | n, b :: bits =>
    match n.child b with
    | .absent => (none, n)
    | .node v zero one =>
      let r := removeBits (.node v zero one) bits
      (r.1, n.setChild b (if r.2.isBare then .absent else r.2))

theorem stored_dropBare (n : CidrNode α) (path : List Bool) :
    (if n.isBare then .absent else n : CidrNode α).stored path = n.stored path := by
  split_ifs with h
  · have he : n = empty := by
      unfold isBare at h
      split at h
      · rfl
      · cases h
    rw [he, stored_absent, stored_empty]
  · rfl

theorem stored_removeBits (n : CidrNode α) (bits path : List Bool) :
    (removeBits n bits).2.stored path = if path = bits then none else n.stored path := by
  induction bits generalizing n path with
  | nil =>
    cases path with
    | nil | cons => simp [removeBits, stored]
  | cons b _ ih =>
    cases hc : n.child b with
    | absent =>
      simp only [removeBits, hc]
      split_ifs with hp
      · simp [hp, stored, hc]
      · rfl
    | node =>
      simp only [removeBits, hc]
      cases path with
      | nil => simp [stored]
      | cons b' =>
        by_cases hb : b' = b
        · subst b'
          simp [stored, stored_dropBare, ih, hc]
        · simp [stored, hb, child_setChild_of_ne hb]

end CidrNode

namespace CidrTrie

variable {α : Type}

def setRoot (t : CidrTrie α) (network : IpAddr) (node : CidrNode α) : CidrTrie α :=
  match network with
  | .v4 _ => { t with v4 := node }
  | .v6 _ => { t with v6 := node }

def remove (t : CidrTrie α) (network : IpAddr) (prefixLen : ℕ) : Result (Option α × CidrTrie α) :=
  if network.width < prefixLen then .error (.invalid "CIDR prefix length exceeds address width")
  else
    let r := (t.root network).removeBits ((addressBits network).take prefixLen)
    .ok (r.1, t.setRoot network r.2)

inductive Call (α : Type) where
  | insert (network : IpAddr) (prefixLen : ℕ) (value : α)
  | remove (network : IpAddr) (prefixLen : ℕ)

def Call.network : Call α → IpAddr
  | .insert network _ _ => network
  | .remove network _ => network

def Call.prefixLen : Call α → ℕ
  | .insert _ prefixLen _ => prefixLen
  | .remove _ prefixLen => prefixLen

def Call.value : Call α → Option α
  | .insert _ _ value => some value
  | .remove _ _ => none

/-- A call that fails has not touched the trie. -/
def apply (t : CidrTrie α) (call : Call α) : CidrTrie α :=
  let result := match call with
    | .insert network prefixLen value => t.insert network prefixLen value
    | .remove network prefixLen => t.remove network prefixLen
  match result with
  | .ok (_, t') => t'
  | .error _ => t

/-- The number of an address, without its host bits, and the prefix length. -/
structure Network where
  isIpv4 : Bool
  address : ℕ
  prefixLen : ℕ
  deriving DecidableEq

def networkOf (address : IpAddr) (prefixLen : ℕ) : Network :=
  let hosts := 2 ^ (address.width - prefixLen)
  ⟨address.isIpv4, Bytes.toNat address.octets / hosts * hosts, prefixLen⟩

/-- The stored prefixes: the last value inserted under a network, if it has not been removed. -/
def record (prefixes : Network → Option α) (call : Call α) : Network → Option α :=
  if call.network.width < call.prefixLen then prefixes
  else Function.update prefixes (networkOf call.network call.prefixLen) call.value

theorem width_eq (a : IpAddr) : a.width = 8 * a.octets.length := by
  cases a <;> simp [IpAddr.width, IpAddr.octets]

theorem isIpv4_eq_iff (a b : IpAddr) : a.isIpv4 = b.isIpv4 ↔ a.width = b.width := by
  cases a <;> cases b <;> simp [IpAddr.width, IpAddr.isIpv4]

/-- The bits are those of the number, from the most significant one on. -/
theorem addressBits_eq (a : IpAddr) : addressBits a =
    (range a.width).map fun i => (Bytes.toNat a.octets).testBit (a.width - 1 - i) := by
  refine map_congr_left fun i hi => ?_
  have hw := width_eq a
  have hi' := mem_range.mp hi
  rw [Bytes.testBit_toNat _ (by omega), show a.octets.length - 1 - (a.width - 1 - i) / 8 = i / 8 by
    omega, show (a.width - 1 - i) % 8 = 7 - i % 8 by omega]
  exact Bytes.and_shiftLeft_ne_zero _ (by omega)

theorem take_addressBits_eq_iff {a b : IpAddr} (h : a.width = b.width) {p : ℕ} (hp : p ≤ a.width) :
    (addressBits a).take p = (addressBits b).take p ↔
      (networkOf a p).address = (networkOf b p).address := by
  have hlt (a : IpAddr) : Bytes.toNat a.octets < 2 ^ a.width := by
    rw [width_eq, pow_mul]
    exact Bytes.toNat_lt _
  rw [addressBits_eq, addressBits_eq, ← map_take, ← map_take, take_range, take_range, ← h,
    min_eq_left hp, map_inj_left, networkOf, networkOf, ← h,
    Nat.mul_left_inj (Nat.two_pow_pos _).ne']
  constructor
  · intro he
    refine Nat.eq_of_testBit_eq fun j => ?_
    rw [Nat.testBit_div_two_pow, Nat.testBit_div_two_pow]
    by_cases hj : j < p
    · have hb := he (p - 1 - j) (mem_range.mpr (by omega))
      rwa [show a.width - 1 - (p - 1 - j) = j + (a.width - p) by omega] at hb
    · have hle : 2 ^ a.width ≤ 2 ^ (j + (a.width - p)) :=
        Nat.pow_le_pow_right Nat.two_pos (by omega)
      rw [Nat.testBit_lt_two_pow ((hlt a).trans_le hle),
        Nat.testBit_lt_two_pow ((h ▸ hlt b).trans_le hle)]
  · intro he i hi
    have hi' := mem_range.mp hi
    have hb := congrArg (Nat.testBit · (p - 1 - i)) he
    simp only [Nat.testBit_div_two_pow] at hb
    rwa [show p - 1 - i + (a.width - p) = a.width - 1 - i by omega] at hb

/-- A prefix of the bits of an address and its length are a masked network. -/
theorem networkOf_eq_iff {a b : IpAddr} (h : a.isIpv4 = b.isIpv4) {p q : ℕ} (hp : p ≤ a.width)
    (hq : q ≤ b.width) : networkOf a p = networkOf b q ↔
      (addressBits a).take p = (addressBits b).take q := by
  have hw := (isIpv4_eq_iff a b).mp h
  have hl (a : IpAddr) : (addressBits a).length = a.width := by simp [addressBits]
  constructor
  · intro he
    obtain rfl : p = q := congrArg Network.prefixLen he
    exact (take_addressBits_eq_iff hw hp).mpr (congrArg Network.address he)
  · intro he
    have hlen := congrArg length he
    rw [length_take, length_take, hl, hl, min_eq_left hp, min_eq_left hq] at hlen
    subst hlen
    have ha := (take_addressBits_eq_iff hw hp).mp he
    unfold networkOf at ha ⊢
    dsimp only at ha ⊢
    rw [h, ha]

def Holds (t : CidrTrie α) (prefixes : Network → Option α) : Prop :=
  ∀ a p, p ≤ a.width → (t.root a).stored ((addressBits a).take p) = prefixes (networkOf a p)

variable {t : CidrTrie α} {prefixes : Network → Option α}

/-- What a call does to the paths of both families. -/
theorem stored_apply (t : CidrTrie α) (call : Call α) (hw : call.prefixLen ≤ call.network.width)
    (a : IpAddr) (path : List Bool) : ((t.apply call).root a).stored path =
      if a.isIpv4 = call.network.isIpv4 ∧ path = (addressBits call.network).take call.prefixLen then
        call.value else (t.root a).stored path := by
  cases call with
  | insert n p v =>
    have hp : ¬n.width < p := Nat.not_lt.mpr hw
    cases n <;> cases a <;> simp [CidrTrie.apply, CidrTrie.insert, hp, Call.network, Call.prefixLen,
      Call.value, root, CidrNode.stored_insertBits, IpAddr.isIpv4]
  | remove n p =>
    have hp : ¬n.width < p := Nat.not_lt.mpr hw
    cases n <;> cases a <;> simp [CidrTrie.apply, CidrTrie.remove, hp, Call.network, Call.prefixLen,
      Call.value, root, setRoot, CidrNode.stored_removeBits, IpAddr.isIpv4]

theorem Holds.apply (h : t.Holds prefixes) (call : Call α) :
    (t.apply call).Holds (record prefixes call) := by
  intro a p hp
  unfold record
  split_ifs with hw
  · rw [← h a p hp]
    cases call <;> simp_all [CidrTrie.apply, CidrTrie.insert, CidrTrie.remove, Call.network,
      Call.prefixLen]
  have hq := Nat.not_lt.mp hw
  rw [stored_apply t call hq, Function.update_apply, h a p hp]
  by_cases hf : a.isIpv4 = call.network.isIpv4
  · simp only [hf, true_and, networkOf_eq_iff hf hp hq]
  · rw [if_neg fun hc => hf hc.1, if_neg fun hc => hf (congrArg Network.isIpv4 hc)]

theorem Holds.run (h : t.Holds prefixes) (calls : List (Call α)) :
    (calls.foldl CidrTrie.apply t).Holds (calls.foldl record prefixes) := by
  induction calls generalizing t prefixes with
  | nil => exact h
  | cons _ _ ih => exact ih (h.apply _)

theorem Holds.search_eq (h : t.Holds prefixes) (a : IpAddr) : t.search a =
    (range (a.width + 1)).reverse.findSome? fun p => prefixes (networkOf a p) := by
  have hi : (addressBits a).inits = (range (a.width + 1)).map fun p => (addressBits a).take p := by
    refine ext_getElem (by simp [addressBits]) fun i _ _ => ?_
    rw [getElem_inits, getElem_map, getElem_range]
  rw [CidrTrie.search_eq, CidrNode.prefixOrder, hi, ← map_reverse, findSome?_map, ← head?_filterMap,
    ← head?_filterMap]
  refine congrArg head? (filterMap_congr fun p hp => h a p ?_)
  have := mem_range.mp (mem_reverse.mp hp)
  omega

/-- The calls for the other family leave the prefixes of this one alone. -/
theorem record_filter (a : IpAddr) (p : ℕ) (calls : List (Call α))
    {prefixes' : Network → Option α} (h : prefixes (networkOf a p) = prefixes' (networkOf a p)) :
    calls.foldl record prefixes (networkOf a p) =
      (calls.filter fun call => call.network.isIpv4 == a.isIpv4).foldl record prefixes'
        (networkOf a p) := by
  induction calls generalizing prefixes prefixes' with
  | nil => exact h
  | cons call _ ih =>
    rw [List.foldl_cons, List.filter_cons]
    split_ifs with hf
    · apply ih
      unfold record
      split_ifs
      · exact h
      · rw [Function.update_apply, Function.update_apply, h]
    apply ih
    unfold record
    split_ifs
    · exact h
    rw [Function.update_of_ne, h]
    intro hk
    exact hf (beq_iff_eq.mpr (congrArg Network.isIpv4 hk).symm)

end CidrTrie

open CidrTrie in
/-- After any calls a search returns the value of the longest stored network that contains the
address, if there is one, and the calls for the other family make no difference. -/
theorem cidrTrie_finds_longest {α : Type} (calls : List (Call α)) (address : IpAddr) :
    let t := calls.foldl apply ({} : CidrTrie α)
    let prefixes := calls.foldl record fun _ => none
    t.search address = ((List.range (address.width + 1)).reverse.findSome? fun prefixLen =>
      prefixes (networkOf address prefixLen)) ∧
    t.search address = ((calls.filter fun call => call.network.isIpv4 == address.isIpv4).foldl apply
      ({} : CidrTrie α)).search address := by
  have hnew : ({} : CidrTrie α).Holds fun _ => none := by
    intro a p _
    cases a <;> exact CidrNode.stored_empty _
  refine ⟨(hnew.run calls).search_eq address, ?_⟩
  rw [(hnew.run _).search_eq, (hnew.run _).search_eq]
  congr 1
  exact funext fun p => record_filter address p calls rfl

end Doradus
