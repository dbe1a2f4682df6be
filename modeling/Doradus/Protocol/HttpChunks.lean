import Doradus.Protocol.HttpServer

/-!
# Chunked bodies that the forward proxy relays

`relay_chunked` reads chunk sizes more freely than the grammar of RFC 9112. Where the body
follows the grammar, both find the same chunks, so what is relayed ends where the recipient
takes it to end.
-/

namespace Doradus

open Result List Option Rfc9112
open Text hiding crlf

theorem digit_eq_toDigit : Rfc9112.digit = Reader.toDigit := rfl

variable {s : Text} {r max n m : ℕ} {c : Char}

theorem fromDigits_eq_ok (h : fromDigits r max n s = .ok m) :
    m = s.foldl (fun n c => n * r + (Rfc9112.digit r c).getD 0) n := by
  induction s generalizing n with
  | nil =>
    cases h
    rfl
  | cons _ _ ih =>
    rw [fromDigits] at h
    split at h
    · cases h
    rename_i d hd
    split_ifs at h with hm
    rw [foldl_cons, digit_eq_toDigit, hd]
    exact ih h

theorem le_foldl_digits (hr : 0 < r) (s : Text) (n : ℕ) :
    n ≤ s.foldl (fun n c => n * r + (Rfc9112.digit r c).getD 0) n := by
  induction s generalizing n with
  | nil => rfl
  | cons _ _ ih =>
    have hm := Nat.le_mul_of_pos_right n hr
    exact (hm.trans (Nat.le_add_right _ _)).trans (ih _)

theorem foldl_digits_lt {radix : ℕ} (hr : 0 < radix) (s : Text) (n : ℕ) :
    s.foldl (fun n c => n * radix + (Rfc9112.digit radix c).getD 0) n <
      (n + 1) * radix ^ s.length := by
  induction s generalizing n with
  | nil => simp
  | cons c s ih =>
    have hdg : (digit radix c).getD 0 < radix := by
      cases hd : digit radix c with
      | none => exact hr
      | some => simpa using (filter_eq_some_iff.mp hd).2
    calc _ < (n * radix + (digit radix c).getD 0 + 1) * radix ^ s.length := ih _
      _ ≤ ((n + 1) * radix) * radix ^ s.length := by
        apply Nat.mul_le_mul_right
        rw [Nat.add_mul]
        omega
      _ = (n + 1) * radix ^ (s.length + 1) := by rw [Nat.pow_succ']; ring

theorem fromDigits_of_digits (hr : 0 < r) (hs : ∀ c ∈ s, Rfc9112.isDigit r c = true)
    (hm : s.foldl (fun n c => n * r + (Rfc9112.digit r c).getD 0) n ≤ max) :
    fromDigits r max n s = .ok (s.foldl (fun n c => n * r + (Rfc9112.digit r c).getD 0) n) := by
  induction s generalizing n with
  | nil => rfl
  | cons c s ih =>
    obtain ⟨d, hd⟩ := isSome_iff_exists.mp (hs c mem_cons_self)
    rw [foldl_cons, hd, getD_some] at hm ⊢
    rw [digit_eq_toDigit] at hd
    rw [fromDigits, hd]
    dsimp only
    rw [if_neg (Nat.not_lt.mpr ((le_foldl_digits hr s _).trans hm))]
    exact ih (fun c' hc' => hs c' (mem_cons_of_mem _ hc')) hm

theorem number_eq_some (h : Rfc9112.number r s = some n) :
    s ≠ [] ∧ (∀ c ∈ s, Rfc9112.isDigit r c = true) ∧
      n = s.foldl (fun n c => n * r + (Rfc9112.digit r c).getD 0) 0 := by
  unfold number at h
  split_ifs at h with hs
  exact ⟨hs.1, all_eq_true.mp hs.2, (some.inj h).symm⟩

theorem toNat_of_isDigit (h : Rfc9112.isDigit r c = true) :
    (48 ≤ c.toNat ∧ c.toNat ≤ 57) ∨ (97 ≤ c.toNat ∧ c.toNat ≤ 122) ∨
      (65 ≤ c.toNat ∧ c.toNat ≤ 90) := by
  unfold isDigit digit at h
  dsimp only at h
  split_ifs at h with h1 h2 h3
  · exact .inl h1
  · exact .inr (.inl h2)
  · exact .inr (.inr h3)
  · cases h

theorem not_isWhitespace (h : 32 < c.toNat ∧ c.toNat < 128) : Text.isWhitespace c = false := by
  unfold isWhitespace
  simp only [Bool.or_eq_false_iff, Bool.and_eq_false_imp, decide_eq_true_eq,
    decide_eq_false_iff_not, beq_eq_false_iff_ne]
  omega

theorem not_isWhitespace_of_isDigit (h : Rfc9112.isDigit r c = true) :
    Text.isWhitespace c = false := by
  have hc := toNat_of_isDigit h
  exact not_isWhitespace (by omega)

theorem fromStrRadix_eq_fromDigits (max : ℕ) (h : Rfc9112.number r s = some n) :
    fromStrRadix r max s = fromDigits r max 0 s := by
  obtain ⟨hne, hd, -⟩ := number_eq_some h
  have hs : ∀ c ∈ s, c ≠ '+' ∧ c ≠ '-' := by
    intro c hc
    have hn := toNat_of_isDigit (hd c hc)
    constructor
    · rintro rfl
      exact absurd hn (by decide)
    · rintro rfl
      exact absurd hn (by decide)
  have hp : s.head? ≠ some '+' := fun hh => (hs _ (mem_of_mem_head? hh)).1 rfl
  have hl : ¬ (s = ['+'] ∨ s = ['-']) := by
    rintro (rfl | rfl)
    · exact (hs '+' (by simp)).1 rfl
    · exact (hs '-' (by simp)).2 rfl
  rw [fromStrRadix, if_neg hne, if_neg hl, if_neg hp]

theorem fromStrRadix_of_number (hr : 0 < r) (h : Rfc9112.number r s = some n)
    (hm : n ≤ max) : fromStrRadix r max s = .ok n := by
  obtain ⟨-, hd, rfl⟩ := number_eq_some h
  rw [fromStrRadix_eq_fromDigits max h]
  exact fromDigits_of_digits hr hd hm

theorem eq_of_fromStrRadix (h : Rfc9112.number r s = some n)
    (hm : fromStrRadix r max s = .ok m) : m = n := by
  rw [fromStrRadix_eq_fromDigits max h] at hm
  rw [fromDigits_eq_ok hm, (number_eq_some h).2.2]

namespace Http

theorem ofLatin1_takeWhile (line : Octets) :
    Text.ofLatin1 (line.takeWhile (· ≠ 59)) = (Text.ofLatin1 line).takeWhile (· ≠ ';') := by
  have hc : ∀ n : Fin 256, Char.ofNat n.val = ';' ↔ n.val = 59 := by decide +kernel
  have ho : ∀ b : UInt8, Char.ofNat b.toNat = ';' ↔ b = 59 := by
    intro b
    rw [hc ⟨b.toNat, b.toNat_lt⟩, ← UInt8.toNat_inj]
    rfl
  unfold ofLatin1
  rw [takeWhile_map]
  simp [Function.comp_def, ho]

theorem trim_append_ows {digits ows : Text} (hd : ∀ c ∈ digits, Text.isWhitespace c = false)
    (ho : ∀ c ∈ ows, Rfc9112.isOws c = true) (hne : digits ≠ []) :
    Text.trim (digits ++ ows) = digits := by
  have hs : trimStart (digits ++ ows) = digits ++ ows := by
    cases digits with
    | nil => exact absurd rfl hne
    | cons c => simp [trimStart, hd c (by simp)]
  have hdr : ows.reverse.dropWhile isWhitespace = [] := by
    rw [dropWhile_eq_nil_iff]
    intro c hc
    have h := ho c (mem_reverse.mp hc)
    rcases Bool.or_eq_true_iff.mp h with hc | hc
    · rw [eq_of_beq hc]
      rfl
    · rw [eq_of_beq hc]
      rfl
  have he := trimEnd_eq_self hd
  rw [trim, hs]
  unfold trimEnd rdropWhile at he ⊢
  rw [reverse_append, dropWhile_append, hdr]
  exact he

variable {line s rest c : Octets}

theorem chunkSize_eq {n m : ℕ} (h : Rfc9112.chunkSize (Text.ofLatin1 line) = some n)
    (hm : chunkSize (line ++ Rfc9112.crlf) = .ok m) : m = n := by
  have ht : (line ++ Rfc9112.crlf).take ((line ++ Rfc9112.crlf).length - 2) = line := by
    simp [Rfc9112.crlf]
  unfold chunkSize at hm
  rw [ht, ofLatin1_takeWhile] at hm
  unfold Rfc9112.chunkSize at h
  generalize Text.ofLatin1 line = text at h hm
  dsimp only at h hm
  split_ifs at h with he
  obtain ⟨hne, hdg, -⟩ := number_eq_some h
  have hnot : ∀ c ∈ text.takeWhile (Rfc9112.isDigit 16), decide (c ≠ ';') = true := by
    intro c hc
    have hn := toNat_of_isDigit (hdg c hc)
    rw [decide_eq_true_iff]
    rintro rfl
    exact absurd hn (by decide)
  have ho : ∀ c ∈ (text.dropWhile (Rfc9112.isDigit 16)).takeWhile (· ≠ ';'),
      Rfc9112.isOws c = true := by
    intro c hc
    generalize text.dropWhile (Rfc9112.isDigit 16) = extension at he hc
    rcases he with rfl | ⟨hh, -⟩
    · cases hc
    obtain ⟨w, ha⟩ := List.head?_eq_some_iff.mp hh
    have hst : ∀ d ∈ extension.takeWhile Rfc9112.isOws, decide (d ≠ ';') = true := by
      intro d hd
      have hs := List.mem_takeWhile_imp hd
      rw [decide_eq_true_iff]
      rintro rfl
      exact absurd hs (by decide)
    rw [← List.takeWhile_append_dropWhile (p := Rfc9112.isOws) (l := extension), ha,
      List.takeWhile_append_of_pos hst, List.takeWhile_cons_of_neg (by simp), List.append_nil] at hc
    exact List.mem_takeWhile_imp hc
  have htr : Text.trim (text.takeWhile (· ≠ ';')) = text.takeWhile (Rfc9112.isDigit 16) := by
    conv_lhs => rw [← List.takeWhile_append_dropWhile (p := Rfc9112.isDigit 16) (l := text)]
    rw [List.takeWhile_append_of_pos hnot]
    exact trim_append_ows (fun c hc => not_isWhitespace_of_isDigit (hdg c hc)) ho hne
  rw [htr] at hm
  split at hm
  · rename_i size hsz
    cases hm
    exact eq_of_fromStrRadix h hsz
  · cases hm

/-- A body as it is taken apart into chunks, the last of them with the trailers. -/
inductive ChunkedBody where
  | last (line : Octets) (trailers : List Octets)
  | chunk (line data : Octets) (rest : ChunkedBody)

def trailerSection (trailers : List Octets) : Octets := trailers.flatMap (· ++ crlf) ++ crlf

/-- The line ends at its CRLF and is within the limit of the relay. -/
structure IsLine (line : Octets) : Prop where
  ends : takeLine (line ++ crlf) = some (line, [])
  length : line.length + 2 ≤ maxHeaders + 1

def IsTrailer (line : Octets) : Prop := IsLine line ∧ line ≠ []

namespace ChunkedBody

def wire : ChunkedBody → Octets
  | .last line trailers => line ++ crlf ++ trailerSection trailers
  | .chunk line data rest => line ++ crlf ++ (data ++ (crlf ++ rest.wire))

/-- The relay finds the sizes of the chunks in their lines. -/
def Relayed : ChunkedBody → Prop
  | .last line trailers =>
    IsLine line ∧ chunkSize (line ++ crlf) = .ok 0 ∧ ∀ t ∈ trailers, IsTrailer t
  | .chunk line data rest =>
    IsLine line ∧ chunkSize (line ++ crlf) = .ok data.length ∧ data ≠ [] ∧ rest.Relayed

/-- The lines begin with hexadecimal digits that give the sizes, and then end or have an extension;
the trailers are field lines. -/
def FollowsGrammar : ChunkedBody → Prop
  | .last line trailers => Rfc9112.chunkSize (Text.ofLatin1 line) = some 0 ∧
    ∀ t ∈ trailers, IsFieldLine (Text.ofLatin1 t)
  | .chunk line data rest =>
    Rfc9112.chunkSize (Text.ofLatin1 line) = some data.length ∧ rest.FollowsGrammar

end ChunkedBody

theorem IsLine.takeLine_append (h : IsLine line) (tail : Octets) :
    takeLine (line ++ (crlf ++ tail)) = some (line, tail) := by
  rw [← append_assoc]
  exact (takeLine_spec h.ends).2 tail

theorem IsLine.readCrlfLine_eq (h : IsLine line) (tail : Octets) :
    readCrlfLine (line ++ (crlf ++ tail)) = .ok (line ++ crlf, tail) := by
  rw [readCrlfLine, h.takeLine_append]
  exact if_pos h.length

theorem isLine_of_readCrlfLine (h : readCrlfLine s = .ok (line, rest)) :
    ∃ text, IsLine text ∧ line = text ++ crlf ∧ s = text ++ (crlf ++ rest) := by
  unfold readCrlfLine at h
  split at h
  · rename_i text left ht
    split_ifs at h with hl
    cases h
    obtain ⟨rfl, htail⟩ := takeLine_spec ht
    exact ⟨text, ⟨by simpa using htail [], hl⟩, rfl, append_assoc ..⟩
  · split_ifs at h

theorem trailerSection_cons (t : Octets) (trailers : List Octets) (tail : Octets) :
    trailerSection (t :: trailers) ++ tail = t ++ (crlf ++ (trailerSection trailers ++ tail)) := by
  simp [trailerSection]

theorem relayTrailers_eq_ok (h : relayTrailers r s = .ok (c, rest)) :
    ∃ trailers, (∀ t ∈ trailers, IsTrailer t) ∧ c = trailerSection trailers ∧ s = c ++ rest := by
  induction r generalizing s c with
  | zero => cases h
  | succ _ ih =>
    obtain ⟨⟨t, w⟩, hl, hk⟩ := bind_eq_ok.mp h
    obtain ⟨text, ht, rfl, rfl⟩ := isLine_of_readCrlfLine hl
    dsimp only at hk
    split_ifs at hk with hnil
    · cases hk
      obtain rfl : text = [] := by simpa using hnil
      exact ⟨[], by simp, rfl, rfl⟩
    obtain ⟨⟨c', rest'⟩, hc, hp⟩ := bind_eq_ok.mp hk
    cases hp
    obtain ⟨trailers, hts, rfl, rfl⟩ := ih hc
    refine ⟨text :: trailers, ?_, by simp [trailerSection], by simp⟩
    simpa using ⟨⟨ht, by simpa using hnil⟩, hts⟩

theorem relayTrailers_trailerSection {trailers : List Octets} (h : ∀ t ∈ trailers, IsTrailer t)
    (hr : trailers.length < r) :
    relayTrailers r (trailerSection trailers ++ rest) = .ok (trailerSection trailers, rest) := by
  induction trailers generalizing r with
  | nil =>
    obtain ⟨r, rfl⟩ := Nat.exists_eq_add_one.mpr hr
    rfl
  | cons t trailers ih =>
    obtain ⟨r, rfl⟩ := Nat.exists_eq_add_one.mpr (Nat.zero_lt_of_lt hr)
    obtain ⟨hl, hne⟩ := h t mem_cons_self
    rw [trailerSection_cons, relayTrailers, hl.readCrlfLine_eq, ok_bind]
    dsimp only
    rw [if_neg (by simpa using hne), ih (fun t ht => h t (mem_cons_of_mem _ ht))
      (Nat.lt_of_succ_lt_succ hr), ok_bind]
    simp [trailerSection, pure, Except.pure]

theorem readTrailers_trailerSection {trailers : List Octets} (h : ∀ t ∈ trailers, IsTrailer t)
    (hr : trailers.length < r) :
    readTrailers r (trailerSection trailers ++ rest) =
      if ∀ t ∈ trailers, IsFieldLine (Text.ofLatin1 t) then some (trailerSection trailers, rest)
      else none := by
  induction trailers generalizing r with
  | nil =>
    obtain ⟨r, rfl⟩ := Nat.exists_eq_add_one.mpr hr
    simp [trailerSection, readTrailers, takeLine, crlf]
  | cons t trailers ih =>
    obtain ⟨r, rfl⟩ := Nat.exists_eq_add_one.mpr (Nat.zero_lt_of_lt hr)
    obtain ⟨hl, hne⟩ := h t mem_cons_self
    rw [trailerSection_cons, readTrailers, hl.takeLine_append]
    dsimp only
    rw [if_neg hne, ih (fun t ht => h t (mem_cons_of_mem _ ht)) (Nat.lt_of_succ_lt_succ hr)]
    by_cases ht : IsFieldLine (Text.ofLatin1 t) <;>
      by_cases hts : ∀ t ∈ trailers, IsFieldLine (Text.ofLatin1 t) <;>
      simp [ht, hts, trailerSection]

theorem copyExact_eq_ok {data : Octets} {remaining : ℕ}
    (h : copyExact s remaining = .ok (data, rest)) :
    s = data ++ rest ∧ data.length = remaining := by
  unfold copyExact at h
  split_ifs at h with hl
  cases h
  exact ⟨(take_append_drop ..).symm, length_take_of_le (Nat.not_lt.mp hl)⟩

theorem copyExact_append (data rest : Octets) :
    copyExact (data ++ rest) data.length = .ok (data, rest) := by
  simp [copyExact]

theorem length_le_trailerSection (trailers : List Octets) :
    trailers.length < (trailerSection trailers).length := by
  induction trailers with
  | nil => simp [trailerSection, crlf]
  | cons t trailers ih =>
    have := congrArg length (trailerSection_cons t trailers [])
    simp only [append_nil, length_append, crlf, length_cons] at this ⊢
    omega

theorem relayChunks_eq_ok (h : relayChunks r s = .ok (c, rest)) :
    ∃ body : ChunkedBody, body.Relayed ∧ c = body.wire ∧ s = c ++ rest := by
  induction r generalizing s c with
  | zero => cases h
  | succ _ ih =>
    obtain ⟨⟨line, w⟩, hl, hk⟩ := bind_eq_ok.mp h
    obtain ⟨text, ht, rfl, rfl⟩ := isLine_of_readCrlfLine hl
    obtain ⟨size, hs, hk⟩ := bind_eq_ok.mp hk
    split_ifs at hk with hz
    · obtain ⟨⟨c', rest'⟩, hc, hp⟩ := bind_eq_ok.mp hk
      cases hp
      obtain ⟨trailers, hts, rfl, rfl⟩ := relayTrailers_eq_ok hc
      exact ⟨.last text trailers, ⟨ht, hz ▸ hs, hts⟩, rfl, by simp⟩
    obtain ⟨⟨data, w'⟩, hd, hk'⟩ := bind_eq_ok.mp hk
    obtain ⟨⟨mark, w''⟩, hm, hk''⟩ := bind_eq_ok.mp hk'
    dsimp only at hk''
    split_ifs at hk'' with hmark
    obtain rfl := not_not.mp hmark
    obtain ⟨⟨c', rest'⟩, hc, hp⟩ := bind_eq_ok.mp hk''
    cases hp
    obtain ⟨rfl, hlen⟩ := copyExact_eq_ok hd
    obtain ⟨rfl, -⟩ := copyExact_eq_ok hm
    obtain ⟨body, hb, rfl, rfl⟩ := ih hc
    refine ⟨.chunk text data body, ⟨ht, hlen ▸ hs, ?_, hb⟩, by simp [ChunkedBody.wire], by simp⟩
    rintro rfl
    exact hz hlen.symm

theorem relayChunks_wire {body : ChunkedBody} (h : body.Relayed) (hr : body.wire.length < r) :
    relayChunks r (body.wire ++ rest) = .ok (body.wire, rest) := by
  induction body generalizing r with
  | last line trailers =>
    obtain ⟨r, rfl⟩ := Nat.exists_eq_add_one.mpr (Nat.zero_lt_of_lt hr)
    obtain ⟨hl, hs, hts⟩ := h
    have hlen := length_le_trailerSection trailers
    simp only [ChunkedBody.wire, length_append, append_assoc] at hr ⊢
    rw [relayChunks, hl.readCrlfLine_eq, ok_bind]
    dsimp only
    rw [hs, ok_bind, if_pos rfl, relayTrailers_trailerSection hts (by omega), ok_bind]
    simp [pure, Except.pure]
  | chunk line data body ih =>
    obtain ⟨r, rfl⟩ := Nat.exists_eq_add_one.mpr (Nat.zero_lt_of_lt hr)
    obtain ⟨hl, hs, hne, hb⟩ := h
    simp only [ChunkedBody.wire, length_append, append_assoc] at hr ⊢
    rw [relayChunks, hl.readCrlfLine_eq, ok_bind]
    dsimp only
    rw [hs, ok_bind, if_neg (by simpa using hne), copyExact_append, ok_bind]
    dsimp only
    rw [show copyExact (crlf ++ (body.wire ++ rest)) 2 = .ok (crlf, body.wire ++ rest) from
      copyExact_append _ _, ok_bind]
    dsimp only
    rw [if_neg (by simp), ih hb (by simp [crlf] at hr; omega), ok_bind]
    simp [pure, Except.pure]

theorem readChunks_wire {body : ChunkedBody} (rest : Octets) (h : body.Relayed)
    (hr : body.wire.length ≤ r) :
    (body.FollowsGrammar → readChunks r (body.wire ++ rest) = some (body.wire, rest)) ∧
      (¬ body.FollowsGrammar → readChunks r (body.wire ++ rest) = none) := by
  induction body generalizing r with
  | last line trailers =>
    obtain ⟨hl, hs, hts⟩ := h
    have hlen := length_le_trailerSection trailers
    simp only [ChunkedBody.wire, length_append, append_assoc, ChunkedBody.FollowsGrammar] at hr ⊢
    obtain ⟨r, rfl⟩ := Nat.exists_eq_add_one.mpr (show 0 < r by omega)
    rw [readChunks, hl.takeLine_append]
    dsimp only
    cases hg : Rfc9112.chunkSize (Text.ofLatin1 line) with
    | none => simp
    | some n =>
      obtain rfl := chunkSize_eq hg hs
      dsimp only
      rw [readTrailers_trailerSection hts (by simp [crlf] at hr; omega)]
      split_ifs with hf
      · exact ⟨fun _ => by simp, fun hn => absurd ⟨rfl, hf⟩ hn⟩
      · exact ⟨fun hg => absurd hg.2 hf, fun _ => rfl⟩
  | chunk line data body ih =>
    obtain ⟨hl, hs, hne, hb⟩ := h
    have hcrlf : crlf.length = 2 := rfl
    simp only [ChunkedBody.wire, length_append, append_assoc, ChunkedBody.FollowsGrammar] at hr ⊢
    obtain ⟨r, rfl⟩ := Nat.exists_eq_add_one.mpr (show 0 < r by omega)
    obtain ⟨size, hsize⟩ := Nat.exists_eq_add_one.mpr (length_pos_iff.mpr hne)
    obtain ⟨hy, hn⟩ := ih hb (show body.wire.length ≤ r by omega)
    rw [readChunks, hl.takeLine_append]
    dsimp only
    cases hg : Rfc9112.chunkSize (Text.ofLatin1 line) with
    | none => simp
    | some n =>
      obtain rfl := chunkSize_eq hg hs
      -- the data and its CRLF are what the reader looks at
      have hd : (data ++ (crlf ++ (body.wire ++ rest))).drop (size + 1) =
          crlf ++ (body.wire ++ rest) := drop_left' hsize
      have hd' : (data ++ (crlf ++ (body.wire ++ rest))).drop (size + 3) = body.wire ++ rest := by
        rw [← append_assoc, drop_left' (by simp [hsize, hcrlf])]
      have ht : (data ++ (crlf ++ (body.wire ++ rest))).take (size + 3) = data ++ crlf := by
        rw [← append_assoc, take_left' (by simp [hsize, hcrlf])]
      rw [hsize]
      dsimp only
      rw [hd, take_left' hcrlf, if_pos rfl, hd', ht]
      by_cases hf : body.FollowsGrammar
      · exact ⟨fun _ => by simp [hy hf], fun hn => absurd ⟨rfl, hf⟩ hn⟩
      · exact ⟨fun hg => absurd hg.2 hf, fun _ => by simp [hn hf]⟩

theorem relayChunked_eq_ok : relayChunked s = .ok (c, rest) ↔
    ∃ body : ChunkedBody, body.Relayed ∧ c = body.wire ∧ s = c ++ rest := by
  refine ⟨relayChunks_eq_ok, ?_⟩
  rintro ⟨body, hb, rfl, rfl⟩
  exact relayChunks_wire hb (by simp)

theorem ChunkedBody.Relayed.readChunkedBody_isSome {body : ChunkedBody} (h : body.Relayed)
    (tail : Octets) :
    (readChunkedBody (body.wire ++ tail)).isSome = true ↔ body.FollowsGrammar := by
  have hr : body.wire.length ≤ (body.wire ++ tail).length := by simp
  obtain ⟨hy, hn⟩ := readChunks_wire tail h hr
  by_cases hg : body.FollowsGrammar
  · rw [readChunkedBody, hy hg]
    exact iff_of_true rfl hg
  · rw [readChunkedBody, hn hg]
    exact iff_of_false nofun hg

theorem ChunkedBody.Relayed.delimits_iff {body : ChunkedBody} (h : body.Relayed) :
    BodyLength.chunked.Delimits body.wire ↔ body.FollowsGrammar := by
  constructor
  · intro hd
    rw [← h.readChunkedBody_isSome [], hd []]
    rfl
  · exact fun hg tail => (readChunks_wire tail h (by simp)).1 hg

theorem relayChunked_delimits (h : relayChunked s = .ok (c, rest)) :
    Rfc9112.BodyLength.chunked.Delimits c ↔ (Rfc9112.readChunkedBody s).isSome = true := by
  obtain ⟨body, hb, rfl, rfl⟩ := relayChunked_eq_ok.mp h
  rw [hb.delimits_iff, hb.readChunkedBody_isSome]

end Http

end Doradus
