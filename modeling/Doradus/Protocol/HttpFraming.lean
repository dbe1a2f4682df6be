import Doradus.Protocol.HttpChunks

/-!
# The framing fields of a forwarded head

The proxy reads the framing fields of a head in one way and passes the lines of the head on
in another. The next recipient applies RFC 9112 to what was passed on.
-/

namespace Doradus

open List Text

namespace Http

open Rfc9112 (IsFieldLine fieldName fieldValue fieldValues contentLength transferEncoding)

def fieldLines (headers : Text) : List Text := ((Text.splitCrlf headers).drop 1).takeWhile (· ≠ [])

def lowerName (line : Text) : Text := Text.toAsciiLowercase (Text.trim (line.takeWhile (· ≠ ':')))

def isPassed (connectionNames : List Text) (stripExpect : Bool) (line : Text) : Bool :=
  !(stripExpect && lowerName line == "expect".toList) && !isDropped connectionNames (lowerName line)

def passedLines (headers : Text) (stripExpect : Bool) : List Text :=
  (fieldLines headers).filter (isPassed (connectionHeaderNames headers) stripExpect)

def written (lines : List Text) : Text := (lines.map (· ++ Text.crlf)).flatten

variable {line : Text} {l n : List Text}

theorem splitOnce_eq_some {name v : Text}
    (h : splitOnce ':' line = some (name, v)) : name = line.takeWhile (· ≠ ':') := by
  unfold splitOnce at h
  split_ifs at h
  cases h
  rfl

theorem written_filter_cons {p : Text → Bool} : written ((line :: l).filter p) =
      (if p line then line ++ crlf else []) ++ written (l.filter p) := by
  rw [filter_cons]
  split_ifs
  · rfl
  · rfl

theorem copyRequestFields_eq_ok {st : Bool}
    {s s' : Text × Bool} (h : copyRequestFields n st s l = .ok s') :
    s'.1 = s.1 ++ written ((l.takeWhile (· ≠ [])).filter (isPassed n st)) := by
  induction l generalizing s with
  | nil =>
    cases h
    simp [written]
  | cons line _ ih =>
    obtain ⟨r, te⟩ := s
    rw [copyRequestFields] at h
    by_cases hnil : line = []
    · rw [if_pos hnil] at h
      cases h
      simp [hnil, written]
    rw [if_neg hnil] at h
    split at h
    · cases h
    rename_i name v hs
    rw [takeWhile_cons_of_pos (by simpa using hnil), written_filter_cons, isPassed,
      lowerName, ← splitOnce_eq_some hs]
    dsimp only at h
    split_ifs at h with hn he hd
    · rw [he, ih h]
      simp
    · rw [hd, ih h]
      simp
    · rw [Bool.not_eq_true] at he hd
      rw [he, hd, ih h]
      simp

theorem copyResponseFields_eq_ok {r r' : Text} (h : copyResponseFields n r l = .ok r') :
    r' = r ++ written ((l.takeWhile (· ≠ [])).filter (isPassed n false)) := by
  induction l generalizing r with
  | nil =>
    cases h
    simp [written]
  | cons line _ ih =>
    rw [copyResponseFields] at h
    by_cases hnil : line = []
    · rw [if_pos hnil] at h
      cases h
      simp [hnil, written]
    rw [if_neg hnil] at h
    split at h
    · cases h
    rename_i name v hs
    rw [takeWhile_cons_of_pos (by simpa using hnil), written_filter_cons, isPassed,
      lowerName, ← splitOnce_eq_some hs]
    split_ifs at h with hd
    · rw [hd, ih h]
      simp
    · rw [Bool.not_eq_true] at hd
      rw [hd, ih h]
      simp

theorem headLines_written {lines : List Text} (h : ∀ line ∈ lines, NoCrlf line ∧ line ≠ []) :
    Rfc9112.headLines (written lines ++ crlf) = lines := by
  unfold Rfc9112.headLines written
  rw [splitCrlf_flatten fun line hl => (h _ hl).1,
    takeWhile_append_of_pos fun line hl => by simpa using (h _ hl).2]
  simp [crlf, splitCrlf]

theorem mem_tail_of_mem_passedLines {hd : Text} {s : Bool} (h : line ∈ passedLines hd s) :
    line ∈ (splitCrlf hd).tail ∧ line ≠ [] := by
  have hf := (mem_filter.mp h).1
  have hmem := (List.takeWhile_prefix _).subset hf
  rw [drop_one] at hmem
  exact ⟨hmem, by simpa using mem_takeWhile_imp hf⟩

variable {headers version : Text} {strip : Bool}

/-- The framing fields say the same to the proxy and to the recipient of the lines that are
passed on. -/
structure Clear (version headers : Text) : Prop where
  chunked : headerValue headers transferEncoding ≠ none → version ≠ "HTTP/1.0".toList ∧
    (contentLength ∈ connectionHeaderNames headers ∨
      ∀ line ∈ fieldLines headers, lowerName line ≠ contentLength)
  length : headerValue headers transferEncoding = none →
    ∀ value, headerValue headers contentLength = some value →
      contentLength ∉ connectionHeaderNames headers ∧
      ∃ line octets,
        (fieldLines headers).filter (fun line => lowerName line = contentLength) = [line] ∧
        Rfc9112.number 10 (fieldValue line) = some octets ∧
        fromStrRadix 10 usizeMax value = .ok octets

def BodyFraming.bodyLength : BodyFraming → Rfc9112.BodyLength
  | .none => .none
  | .contentLength length => .length length
  | .chunked => .chunked
  | .closeDelimited => .untilClose

theorem not_isWhitespace_of_isTchar {c : Char} (h : Rfc9112.isTchar c = true) :
    isWhitespace c = false := by
  have hm : ∀ c ∈ "!#$%&'*+-.^_`|~".toList, isWhitespace c = false := by decide +kernel
  unfold Rfc9112.isTchar at h
  rw [Bool.or_eq_true] at h
  rcases h with h | h
  · simp only [Bool.or_eq_true, Bool.and_eq_true, decide_eq_true_eq] at h
    exact not_isWhitespace (by omega)
  · exact hm c (contains_iff_mem.mp h)

theorem lowerName_eq_fieldName (h : IsFieldLine line) : lowerName line = fieldName line := by
  unfold lowerName fieldName
  rw [trim_eq_self fun c hc => not_isWhitespace_of_isTchar (h.token c hc)]

theorem not_mem_lf (h : IsFieldLine line) : '\n' ∉ line :=
  fun hmem => absurd (h.clean _ hmem) (by decide)

variable {w : Text} {body : BodyFraming}

theorem namedValue_isSome (hc : ':' ∈ line)
    (h : lowerName line = toAsciiLowercase w) : (namedValue w line).isSome = true := by
  have hs : eqIgnoreAsciiCase (trim (line.takeWhile (· ≠ ':'))) w = true := beq_iff_eq.mpr h
  unfold namedValue splitOnce
  rw [if_pos hc]
  dsimp only
  rw [if_pos hs]
  rfl

theorem headerValue_ne_none (hw : toAsciiLowercase w = w)
    (hp : line ∈ passedLines headers strip) (hl : IsFieldLine line)
    (hn : lowerName line = w) : headerValue headers w ≠ none := by
  obtain ⟨hmem, hne⟩ := mem_tail_of_mem_passedLines hp
  have hln := mem_lines_tail hmem (not_mem_lf hl) hne
  obtain ⟨v, hv⟩ := Option.isSome_iff_exists.mp (namedValue_isSome hl.colon (hn.trans hw.symm))
  unfold headerValue
  rw [drop_one, ne_eq, findSome?_eq_none_iff]
  intro hnn
  have hm := hnn _ hln
  rw [hv] at hm
  cases hm

theorem fieldValues_append (name : Text) (a b : List Text) :
    fieldValues name (a ++ b) = fieldValues name a ++ fieldValues name b := by
  simp [fieldValues]

section

variable (hf : ∀ line ∈ passedLines headers strip, IsFieldLine line)
include hf

theorem fieldValues_passed {name : Text} : fieldValues name (passedLines headers strip) =
      ((passedLines headers strip).filter fun line => lowerName line = name).map fieldValue := by
  unfold fieldValues
  congr 1
  apply filter_congr
  intro line hl
  rw [lowerName_eq_fieldName (hf _ hl)]

theorem fieldValues_transferEncoding :
    fieldValues transferEncoding (passedLines headers strip) = [] := by
  have hh : hopByHopHeaders.contains transferEncoding = true := by decide +kernel
  rw [fieldValues_passed hf, map_eq_nil_iff, filter_eq_nil_iff]
  intro _ hl hn
  have hp := (mem_filter.mp hl).2
  rw [isPassed, isDropped, decide_eq_true_iff.mp hn, hh] at hp
  simp at hp

theorem fieldValues_contentLength : fieldValues contentLength (passedLines headers strip) =
      if contentLength ∈ connectionHeaderNames headers then []
      else
        ((fieldLines headers).filter fun line => lowerName line = contentLength).map
          fieldValue := by
  have hh : hopByHopHeaders.contains contentLength = false := by decide +kernel
  have he : (contentLength == "expect".toList) = false := by decide +kernel
  rw [fieldValues_passed hf, passedLines, filter_filter]
  split_ifs with hn
  · rw [map_eq_nil_iff, filter_eq_nil_iff]
    intro line hl hp
    simp only [Bool.and_eq_true, decide_eq_true_eq] at hp
    rw [isPassed, isDropped, hp.1] at hp
    simp [hn] at hp
  congr 1
  apply filter_congr
  intro line hl
  by_cases hnm : lowerName line = contentLength
  · rw [isPassed, isDropped, hnm, hh, he]
    simp [hn]
  · simp [hnm]

end

theorem bodyFraming_cases (h : bodyFraming headers = .ok body) :
    (body = .chunked ∧ headerValue headers transferEncoding ≠ none) ∨
    (body = .none ∧ headerValue headers transferEncoding = none ∧
      headerValue headers contentLength = none) ∨
    ∃ v octets, body = .contentLength octets ∧ headerValue headers transferEncoding = none ∧
      headerValue headers contentLength = some v ∧ fromStrRadix 10 usizeMax v = .ok octets := by
  unfold bodyFraming at h
  split at h
  · rename_i v hv
    split_ifs at h
    cases h
    exact .inl ⟨rfl, fun hn => by cases hv.symm.trans hn⟩
  rename_i hn
  split at h
  · rename_i hl
    cases h
    exact .inr (.inl ⟨rfl, hn, hl⟩)
  rename_i v hv
  split at h
  · rename_i octets ho
    cases h
    exact .inr (.inr ⟨v, octets, rfl, hn, hv, ho⟩)
  · cases h

theorem contentLengths_eq_nil_iff (hf : ∀ line ∈ passedLines headers strip, IsFieldLine line) :
    fieldValues contentLength (passedLines headers strip) = [] ↔
      contentLength ∈ connectionHeaderNames headers ∨
        ∀ line ∈ fieldLines headers, lowerName line ≠ contentLength := by
  rw [fieldValues_contentLength hf]
  split_ifs with hn
  · simp [hn]
  · simp [hn]

theorem contentLengths_eq_singleton_iff (octets : ℕ)
    (hf : ∀ line ∈ passedLines headers strip, IsFieldLine line) :
    (∃ v, fieldValues contentLength (passedLines headers strip) = [v] ∧
      Rfc9112.number 10 v = some octets) ↔
    contentLength ∉ connectionHeaderNames headers ∧
      ∃ line, (fieldLines headers).filter (fun line => lowerName line = contentLength) = [line] ∧
        Rfc9112.number 10 (fieldValue line) = some octets := by
  rw [fieldValues_contentLength hf]
  split_ifs with hnm
  · simp [hnm]
  simp only [map_eq_singleton_iff, hnm, not_false_eq_true, true_and]
  constructor
  · rintro ⟨_, ⟨line, hl, rfl⟩, hn⟩
    exact ⟨line, hl, hn⟩
  · rintro ⟨line, hl, hn⟩
    exact ⟨_, ⟨line, hl, rfl⟩, hn⟩

/-- The fields that are passed on, with what is added to them, determine the framing that
the proxy goes by exactly when they are clear. -/
theorem framing_iff (version : Text) (absent : Rfc9112.BodyLength)
    (ha : ∀ octets, absent ≠ .length octets) {added : List Text}
    (hb : bodyFraming headers = .ok body)
    (hf : ∀ line ∈ passedLines headers strip, IsFieldLine line)
    (hcd : fieldValues transferEncoding added = if body = .chunked then ["chunked".toList] else [])
    (hle : fieldValues contentLength added = []) :
    Rfc9112.framing version absent (passedLines headers strip ++ added) =
      some (if body = .none then absent else body.bodyLength) ↔ Clear version headers := by
  unfold Rfc9112.framing
  rw [fieldValues_append, fieldValues_append, fieldValues_transferEncoding hf, hcd,
    hle, nil_append, append_nil]
  have hch : eqIgnoreAsciiCase "chunked".toList "chunked".toList = true := beq_self_eq_true _
  rcases bodyFraming_cases hb with ⟨rfl, hc⟩ | ⟨rfl, hc, hl⟩ | ⟨value, octets, rfl, hc, hl, ho⟩
  · have hnil := contentLengths_eq_nil_iff hf
    rw [if_pos rfl, if_neg (by simp)]
    have hcl : Clear version headers ↔ version ≠ "HTTP/1.0".toList ∧
        fieldValues contentLength (passedLines headers strip) = [] := by
      rw [hnil]
      exact ⟨fun h => h.chunked hc, fun h => ⟨fun _ => h, fun hnn => absurd hnn hc⟩⟩
    rw [hcl]
    cases fieldValues contentLength (passedLines headers strip) with
    | nil =>
      dsimp only
      split_ifs with hvr
      · exact iff_of_true rfl ⟨hvr.1, rfl⟩
      · exact iff_of_false (by simp) fun h => hvr ⟨h.1, hch⟩
    | cons => simp
  · have hnil : fieldValues contentLength (passedLines headers strip) = [] := by
      rw [fieldValues_passed hf, map_eq_nil_iff, filter_eq_nil_iff]
      intro line hln hna
      exact headerValue_ne_none (by decide +kernel) hln (hf line hln) (decide_eq_true_iff.mp hna) hl
    rw [hnil, if_pos rfl]
    refine iff_of_true rfl ⟨fun hne => absurd hc hne, fun _ value hv => ?_⟩
    rw [hl] at hv
    cases hv
  · have hone := contentLengths_eq_singleton_iff octets hf
    have hcl : Clear version headers ↔
        ∃ value, fieldValues contentLength (passedLines headers strip) = [value] ∧
          Rfc9112.number 10 value = some octets := by
      rw [hone]
      constructor
      · intro h
        obtain ⟨hnm, line, octets', hln, hn, hp⟩ := h.length hc value hl
        rw [ho] at hp
        cases hp
        exact ⟨hnm, line, hln, hn⟩
      rintro ⟨hnm, line, hln, hn⟩
      refine ⟨fun hne => absurd hc hne, fun _ value' hv' => ?_⟩
      rw [hl] at hv'
      cases hv'
      exact ⟨hnm, line, octets, hln, hn, ho⟩
    rw [hcl]
    rcases fieldValues contentLength (passedLines headers strip) with
      _ | ⟨length, _ | ⟨second, rest⟩⟩
    · simp [ha octets, BodyFraming.bodyLength]
    · simp [BodyFraming.bodyLength]
    · simp

end Http

end Doradus
