import Doradus.Tun.Reassembly

/-!
# Two walks over the extension headers

The fragmenting side and the reassembling side each walk the chain of extension
headers with a loop of their own. Both follow the same steps as far as the
fragmenting side goes; where it stops, a fragment carries a fragment header.
-/

namespace Doradus

open Result Outcome

/-- A place in the chain: the type of the header at `offset`, and where that
type was read. -/
structure HeaderCursor where
  nextHeader : UInt8
  previous : ℕ
  offset : ℕ
  deriving DecidableEq, Repr

structure HeaderStep (bytes : Octets) (c c' : HeaderCursor) : Prop where
  kind : c.nextHeader = 0 ∨ c.nextHeader = 43 ∨ c.nextHeader = 60
  next : bytes[c.offset]? = some c'.nextHeader
  previous : c'.previous = c.offset
  length : ∃ units, bytes[c.offset + 1]? = some units ∧ c'.offset = c.offset + (units.toNat + 1) * 8
  fits : c'.offset ≤ bytes.length

inductive HeaderChain (bytes : Octets) : ℕ → HeaderCursor → HeaderCursor → Prop
  | nil (c : HeaderCursor) : HeaderChain bytes 0 c c
  | cons {n : ℕ} {c c₁ c' : HeaderCursor} (hstep : HeaderStep bytes c c₁)
      (hchain : HeaderChain bytes n c₁ c') : HeaderChain bytes (n + 1) c c'

variable {bytes bytes' : Octets} {n : ℕ} {c c' : HeaderCursor}

theorem HeaderStep.offset_lt (h : HeaderStep bytes c c') : c.offset + 8 ≤ c'.offset := by
  obtain ⟨u, _, heq⟩ := h.length
  omega

theorem HeaderChain.eq_of_zero (h : HeaderChain bytes 0 c c') : c' = c := by
  cases h
  rfl

theorem HeaderChain.offset_le (h : HeaderChain bytes n c c') : c.offset ≤ c'.offset := by
  induction h with
  | nil => exact le_rfl
  | cons hs =>
    have := hs.offset_lt
    omega

theorem HeaderChain.offset_lt (h : HeaderChain bytes (n + 1) c c') : c.offset < c'.offset := by
  cases h with
  | cons hs hc =>
    have hlt := hs.offset_lt
    have hle := hc.offset_le
    omega

theorem HeaderChain.last (h : HeaderChain bytes n c c') :
    c' = c ∨ (c.offset ≤ c'.previous ∧ c'.previous + 8 ≤ c'.offset ∧
      bytes[c'.previous]? = some c'.nextHeader) := by
  induction h with
  | nil => exact .inl rfl
  | @cons n c c₁ c' hs hc ih =>
    have hlt := hs.offset_lt
    rcases ih with rfl | ⟨hle, hl⟩
    · refine .inr ⟨hs.previous.ge, ?_, ?_⟩
      · rw [hs.previous]
        exact hlt
      · rw [hs.previous]
        exact hs.next
    · exact .inr ⟨by omega, hl⟩

theorem HeaderChain.rewrite (h : HeaderChain bytes (n + 1) c c') {kind : UInt8}
    (hb : ∀ i, c.offset ≤ i → i < c'.offset → i ≠ c'.previous → bytes'[i]? = bytes[i]?)
    (hk : bytes'[c'.previous]? = some kind) (hf : c'.offset ≤ bytes'.length) :
    HeaderChain bytes' (n + 1) c { c' with nextHeader := kind } := by
  induction n generalizing c with
  | zero =>
    cases h with
    | @cons _ _ c₁ _ hs hc =>
      cases hc
      have hlt := hs.offset_lt
      obtain ⟨units, hu, ho⟩ := hs.length
      have hn : bytes'[c.offset]? = some kind := by
        rw [← hs.previous]
        exact hk
      have hl : bytes'[c.offset + 1]? = some units := by
        rw [hb _ (by omega) (by omega) (by rw [hs.previous]; omega), hu]
      have hs' : HeaderStep bytes' c { c' with nextHeader := kind } :=
        ⟨hs.kind, hn, hs.previous, ⟨units, hl, ho⟩, hf⟩
      exact .cons hs' (.nil _)
  | succ _ ih =>
    cases h with
    | @cons _ _ c₁ _ hs hc =>
      have hlt := hs.offset_lt
      have hle := hc.offset_le
      have hls : c₁.offset ≤ c'.previous := by
        cases hc with
        | @cons _ _ c₂ _ hst hch =>
          rcases hch.last with rfl | ⟨hls, _⟩
          · rw [hst.previous]
          · have := hst.offset_lt
            omega
      obtain ⟨units, hu, ho⟩ := hs.length
      refine .cons ⟨hs.kind, ?_, hs.previous, ⟨units, ?_, ho⟩, by omega⟩
        (ih hc fun i _ => hb i (by omega))
      · rw [hb _ le_rfl (by omega) (by omega), hs.next]
      · rw [hb _ (by omega) (by omega) (by omega), hu]

variable {layout : Ipv6FragmentLayout} {rounds : ℕ}

theorem headerStep_of_extensionHeader {l : ℕ} {t b : String} {next : UInt8} {he : ℕ}
    (hl : l ≤ bytes.length) (hk : c.nextHeader = 0 ∨ c.nextHeader = 43 ∨ c.nextHeader = 60)
    (h : extensionHeader bytes l c.offset t b = .ok (next, he)) :
    HeaderStep bytes c ⟨next, c.offset, c.offset + he⟩ := by
  unfold extensionHeader at h
  split_ifs at h with hs
  · exact absurd h invalid_ne_ok
  obtain ⟨u, hu, h⟩ := bind_eq_ok.mp h
  dsimp only at h
  split_ifs at h with hb
  · exact absurd h invalid_ne_ok
  obtain ⟨next', hn, h⟩ := bind_eq_ok.mp h
  cases h
  rw [not_or, not_lt, not_lt] at hb
  exact ⟨hk, index_eq_ok.mp hn, rfl, ⟨u, index_eq_ok.mp hu, rfl⟩, hb.2.trans hl⟩

theorem extensionHeader_of_headerStep (t b : String) (h : HeaderStep bytes c c') :
    extensionHeader bytes bytes.length c.offset t b =
      .ok (c'.nextHeader, c'.offset - c.offset) := by
  have hlt := h.offset_lt
  have hf := h.fits
  obtain ⟨u, hu, ho⟩ := h.length
  have hlen : c'.offset - c.offset = (u.toNat + 1) * 8 := by omega
  unfold extensionHeader
  rw [if_neg (by omega), index_eq_ok.mpr hu, ok_bind]
  dsimp only
  rw [if_neg (by omega), index_eq_ok.mpr h.next, ok_bind, hlen]

/-- A layout that cuts the datagram after a chain of fewer than `rounds`
headers. -/
def CutAfterChain (bytes : Octets) (rounds : ℕ) (c : HeaderCursor)
    (layout : Ipv6FragmentLayout) : Prop :=
  ∃ n < rounds, ∃ c', HeaderChain bytes n c c' ∧ c'.offset ≤ bytes.length ∧
    layout = ⟨bytes.take c'.offset, c'.previous, c'.nextHeader, bytes.drop c'.offset⟩

theorem CutAfterChain.cons {c₁ : HeaderCursor}
    (hs : HeaderStep bytes c c₁) (h : CutAfterChain bytes rounds c₁ layout) :
    CutAfterChain bytes (rounds + 1) c layout := by
  obtain ⟨n, hn, c', hc, hcut⟩ := h
  exact ⟨n + 1, by omega, c', .cons hs hc, hcut⟩

theorem cutAfterChain_of_layoutWalk {saw : Bool}
    (h : layoutWalk bytes bytes.length rounds c.nextHeader c.previous c.offset saw = .ok layout) :
    CutAfterChain bytes rounds c layout := by
  induction rounds generalizing c saw with
  | zero => exact absurd h invalid_ne_ok
  | succ rounds ih =>
    have hst : (do
        let unfragmentable ← slice bytes 0 c.offset
        let fragmentable ← slice bytes c.offset bytes.length
        (.ok ⟨unfragmentable, c.previous, c.nextHeader, fragmentable⟩ :
          Outcome Ipv6FragmentLayout)) = .ok layout →
        CutAfterChain bytes (rounds + 1) c layout := by
      intro h
      obtain ⟨head, hhd, h⟩ := bind_eq_ok.mp h
      obtain ⟨tail, ht, h⟩ := bind_eq_ok.mp h
      cases h
      obtain ⟨⟨_, hf⟩, rfl⟩ := slice_eq_ok.mp hhd
      obtain ⟨_, rfl⟩ := slice_eq_ok.mp ht
      refine ⟨0, Nat.succ_pos _, c, .nil c, hf, ?_⟩
      rw [List.drop_zero, List.take_length]
    have hs : ∀ {t badLength : String} {saw : Bool},
        (c.nextHeader = 0 ∨ c.nextHeader = 43 ∨ c.nextHeader = 60) →
        (extensionHeader bytes bytes.length c.offset t badLength >>= fun hd =>
          layoutWalk bytes bytes.length rounds hd.1 c.offset (c.offset + hd.2) saw) = .ok layout →
        CutAfterChain bytes (rounds + 1) c layout := by
      intro t badLength saw hk h
      obtain ⟨⟨next, he⟩, hh, h⟩ := bind_eq_ok.mp h
      have hstep := headerStep_of_extensionHeader le_rfl hk hh
      exact .cons hstep (ih h)
    rw [layoutWalk] at h
    dsimp only at h
    split_ifs at h with h44 h0 h40 h43 h60 hsaw
    · exact absurd h invalid_ne_ok
    · exact absurd h invalid_ne_ok
    · exact hs (.inl h0) h
    · exact hs (.inr (.inl h43)) h
    · exact hst h
    · exact hs (.inr (.inr h60)) h
    · exact hst h

theorem metadataWalk_of_chain (s d : Ipv6Addr) (h : HeaderChain bytes n c c')
    (hn : n < rounds) (hkn : c'.nextHeader = 44) :
    metadataWalk bytes s d rounds c.nextHeader c.previous c.offset =
      fragmentHeader bytes s d c'.previous c'.offset := by
  induction h generalizing rounds with
  | nil =>
    obtain ⟨rounds, rfl⟩ := Nat.exists_eq_succ_of_ne_zero (Nat.ne_of_gt hn)
    rw [metadataWalk, if_pos hkn]
  | @cons n c c₁ c' hs hc ih =>
    obtain ⟨rounds, rfl⟩ := Nat.exists_eq_succ_of_ne_zero (Nat.ne_of_gt (Nat.zero_lt_of_lt hn))
    have hne : c.nextHeader ≠ 44 := by rcases hs.kind with hk | hk | hk <;> rw [hk] <;> decide
    have hlt := hs.offset_lt
    have hb : c.offset + (c₁.offset - c.offset) = c₁.offset := by omega
    rw [metadataWalk, if_neg hne, if_pos hs.kind, extensionHeader_of_headerStep _ _ hs, ok_bind]
    dsimp only
    rw [hb, ← hs.previous]
    exact ih (by omega) hkn

end Doradus
