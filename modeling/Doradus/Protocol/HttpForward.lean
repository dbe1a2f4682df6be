import Doradus.Protocol.HttpFraming

/-!
# Requests and responses that the forward proxy passes on

The head that `serve_forward` writes determines the body that it relays exactly when the
head that it reads is clear about it. For a response, a status line that follows the grammar
has the status that the proxy reads.
-/

namespace Doradus

open Result List Text

namespace Http

open Rfc9112 (IsFieldLine fieldName fieldValue fieldValues contentLength transferEncoding)

variable {body : BodyFraming}

theorem bodyFraming_chunked_iff {hd : Text} (h : bodyFraming hd = .ok body) :
    body = .chunked ↔ headerValue hd transferEncoding ≠ none := by
  rcases bodyFraming_cases h with ⟨rfl, hc⟩ | ⟨rfl, hc, -⟩ | ⟨_, _, rfl, hc, -, -⟩
  · exact iff_of_true rfl hc
  · exact iff_of_false (by simp) (not_not_intro hc)
  · exact iff_of_false (by simp) (not_not_intro hc)

theorem relayHttpBody_delimits {s c rest : Octets} (h : relayHttpBody s body = .ok (c, rest)) :
    body.bodyLength.Delimits c ↔ (body = .chunked → (Rfc9112.readChunkedBody s).isSome = true) := by
  cases body with
  | none =>
    cases h
    exact iff_of_true rfl (by simp)
  | contentLength => exact iff_of_true (copyExact_eq_ok h).2 (by simp)
  | chunked =>
    rw [eq_self_iff_true, true_imp_iff]
    exact relayChunked_delimits h
  | closeDelimited => exact iff_of_true trivial (by simp)

variable {headers : Text} {request : InboundHttpRequest}

/-- What the head of a request and the octets after it have to meet. -/
structure ClearRequest (request : InboundHttpRequest) (source : Octets) : Prop where
  version : Rfc9112.isVersion request.version = true
  fields : ∀ line ∈ passedLines request.headers (requestExpectsContinue request.headers &&
    ((headerValue request.headers transferEncoding).isSome ||
      (headerValue request.headers contentLength).isSome)), IsFieldLine line
  framing : Clear request.version request.headers
  chunks : headerValue request.headers transferEncoding ≠ none →
    (Rfc9112.readChunkedBody source).isSome = true

/-- What a request gets besides the lines that are passed on. -/
def addedToRequest (teTrailers chunked : Bool) : List Text :=
  (if teTrailers then ["TE: trailers".toList] else []) ++
    (if chunked then ["Transfer-Encoding: chunked".toList] else [])

theorem addedToRequest_fields (teTrailers chunked : Bool) :
    (∀ line ∈ addedToRequest teTrailers chunked, IsFieldLine line) ∧
    fieldValues transferEncoding (addedToRequest teTrailers chunked) =
      (if chunked then ["chunked".toList] else []) ∧
    fieldValues contentLength (addedToRequest teTrailers chunked) = [] := by
  cases teTrailers <;> cases chunked <;> decide +kernel

variable {line s m t head target b a : Text}

theorem headLines_passed {a : List Text} {st : Bool}
    (hs : NoCrlf s) (hne : s ≠ []) (ha : ∀ line ∈ a, IsFieldLine line) :
    Rfc9112.headLines (written (s :: (passedLines headers st ++ a)) ++ crlf) =
      s :: (passedLines headers st ++ a) := by
  apply headLines_written
  intro line hl
  rcases mem_cons.mp hl with rfl | hl
  · exact ⟨hs, hne⟩
  rcases mem_append.mp hl with hl | hl
  · obtain ⟨hmem, hne⟩ := mem_tail_of_mem_passedLines hl
    exact ⟨noCrlf_of_mem_splitCrlf (mem_of_mem_tail hmem), hne⟩
  · exact ⟨noCrlf_of_not_mem (not_mem_lf (ha _ hl)), ne_nil_of_mem (ha _ hl).colon⟩

theorem forall_fields_iff {a : List Text} {s : Bool} (ha : ∀ line ∈ a, IsFieldLine line) :
    (∀ line ∈ passedLines headers s ++ a, IsFieldLine line) ↔
      ∀ line ∈ passedLines headers s, IsFieldLine line := by
  constructor
  · exact fun h line hl => h _ (mem_append_left _ hl)
  intro h line hl
  rcases mem_append.mp hl with hl | hl
  · exact h _ hl
  · exact ha _ hl

def versionOf (headers : Text) : Text :=
  ((Text.splitOnceCrlf headers).bind fun p => (Text.splitWhitespace p.1)[2]?).getD
    "HTTP/1.1".toList

theorem rewriteForwardRequest_eq_ok {c s : Bool}
    (h : rewriteForwardRequestWithOptions m t headers c s = .ok head) :
    ∃ te, head = written ((m ++ ' ' :: t ++ ' ' :: versionOf headers) ::
      (passedLines headers s ++ addedToRequest te c)) ++ crlf := by
  obtain ⟨⟨cp, te⟩, hc, h⟩ := bind_eq_ok.mp h
  cases h
  have hcp := copyRequestFields_eq_ok hc
  dsimp only at hcp ⊢
  refine ⟨te, ?_⟩
  rw [hcp]
  cases te <;> cases c <;> simp [written, addedToRequest, passedLines, fieldLines, versionOf]

theorem splitOnceText_subset (h : splitOnceText s target = some (b, a)) : a ⊆ target := by
  induction target generalizing b with
  | nil => cases h
  | cons c _ ih =>
    rw [splitOnceText] at h
    split_ifs at h
    · cases h
      exact (drop_suffix _ _).subset
    · obtain ⟨⟨b', a'⟩, hs, hp⟩ := Option.map_eq_some_iff.mp h
      cases hp
      exact fun x hx => mem_cons_of_mem c (ih hs hx)

theorem splitOnce_subset {c : Char} (h : splitOnce c s = some (b, a)) : a ⊆ s := by
  unfold splitOnce at h
  split_ifs at h
  cases h
  exact fun x hx => (dropWhile_suffix _).subset (mem_of_mem_tail hx)

theorem parseForwardTarget_subset {o : Text} {d : Endpoint} {ht : Bool}
    (h : parseForwardTarget target headers = .ok (d, o, ht)) : ∀ c ∈ o, c = '/' ∨ c ∈ target := by
  unfold parseForwardTarget at h
  split at h
  · rename_i s rest hs
    obtain ⟨ht', -, h⟩ := bind_eq_ok.mp h
    obtain ⟨d', -, h⟩ := bind_eq_ok.mp h
    cases h
    intro c hc
    rcases mem_cons.mp hc with rfl | hc
    · exact .inl rfl
    refine .inr (splitOnceText_subset hs ?_)
    cases hp : splitOnce '/' rest with
    | none =>
      rw [hp] at hc
      cases hc
    | some =>
      rw [hp] at hc
      exact splitOnce_subset hp hc
  · split at h
    · cases h
    obtain ⟨d', -, h⟩ := bind_eq_ok.mp h
    cases h
    intro c hc
    split_ifs at hc
    · exact .inr hc
    · exact mem_cons.mp hc

structure Words (request : InboundHttpRequest) : Prop where
  method : ∀ c ∈ request.method, Text.isWhitespace c = false
  method_ne_nil : request.method ≠ []
  target : ∀ c ∈ request.target, Text.isWhitespace c = false
  version : ∀ c ∈ request.version, Text.isWhitespace c = false
  version_eq : request.version = versionOf request.headers

theorem words_getD (line d : Text) (i : ℕ) (hd : ∀ c ∈ d, isWhitespace c = false) :
    ∀ c ∈ (splitWhitespace line).getD i d, isWhitespace c = false := by
  rw [getD_eq_getElem?_getD]
  cases hw : (splitWhitespace line)[i]? with
  | none => exact hd
  | some => exact splitOnP_words (mem_filter.mp (mem_of_getElem? hw)).1

theorem words_of_parseRequest (h : parseRequest headers = .ok request) :
    request.headers = headers ∧ Words request := by
  unfold parseRequest at h
  split at h
  · cases h
  rename_i line rest hl
  dsimp only at h
  split_ifs at h with he
  cases h
  push Not at he
  have hv : ∀ c ∈ "HTTP/1.1".toList, isWhitespace c = false := by decide +kernel
  refine ⟨rfl, words_getD _ [] 0 (by simp), he.1, words_getD _ [] 1 (by simp),
    words_getD _ _ 2 hv, ?_⟩
  rw [versionOf, hl]
  rfl

theorem requestLine_eq {v : Text} (hm : ∀ c ∈ m, isWhitespace c = false)
    (ht : ∀ c ∈ t, isWhitespace c = false) (hv : ∀ c ∈ v, isWhitespace c = false) :
    Rfc9112.requestLine (m ++ ' ' :: t ++ ' ' :: v) =
      if Rfc9112.isVersion v then some v else none := by
  have hj : m ++ ' ' :: t ++ ' ' :: v = join ' ' [m, t, v] := by simp [join, intercalate_cons_cons]
  have hs : ∀ word : Text, (∀ c ∈ word, isWhitespace c = false) → ' ' ∉ word :=
    fun word hw hmem => absurd (hw _ hmem) (by decide)
  have hp : ∀ part ∈ [m, t, v], ' ' ∉ part := by simp [hs m hm, hs t ht, hs v hv]
  unfold Rfc9112.requestLine
  rw [hj, split_join ' ' hp (by simp)]

theorem requestLength_iff (hw : Words request) (h : forwardRequest request = .ok (body, head)) :
    Rfc9112.requestLength head = some body.bodyLength ↔ Rfc9112.isVersion request.version = true ∧
      (∀ line ∈ passedLines request.headers
        (requestExpectsContinue request.headers && decide (body ≠ .none)), IsFieldLine line) ∧
      Clear request.version request.headers := by
  obtain ⟨body', hb, h⟩ := bind_eq_ok.mp h
  obtain ⟨⟨d, o, htt⟩, ht, h⟩ := bind_eq_ok.mp h
  obtain ⟨head', hh, h⟩ := bind_eq_ok.mp h
  cases h
  obtain ⟨te, rfl⟩ := rewriteForwardRequest_eq_ok hh
  obtain ⟨ha, hcd, hl⟩ := addedToRequest_fields te (body = .chunked)
  have ho : ∀ c ∈ o, isWhitespace c = false := by
    intro c hc
    rcases parseForwardTarget_subset ht c hc with rfl | hc
    · rfl
    · exact hw.target c hc
  have hs : NoCrlf (request.method ++ ' ' :: o ++ ' ' :: request.version) := by
    apply noCrlf_of_not_mem
    intro hmem
    simp only [mem_append, mem_cons] at hmem
    rcases hmem with (hmem | hmem | hmem) | hmem | hmem
    · exact absurd (hw.method _ hmem) (by decide)
    · exact absurd hmem (by decide)
    · exact absurd (ho _ hmem) (by decide)
    · exact absurd hmem (by decide)
    · exact absurd (hw.version _ hmem) (by decide)
  have he : (if body = .none then Rfc9112.BodyLength.none else body.bodyLength) =
      body.bodyLength := by
    split_ifs with hn
    · rw [hn]
      rfl
    · rfl
  simp only [decide_eq_true_eq] at hcd
  rw [← hw.version_eq, Rfc9112.requestLength, headLines_passed hs (by simp) ha]
  dsimp only
  rw [requestLine_eq hw.method ho hw.version]
  by_cases hv : Rfc9112.isVersion request.version = true
  · rw [if_pos hv]
    dsimp only
    by_cases hf : ∀ line ∈ passedLines request.headers
        (requestExpectsContinue request.headers && decide (body ≠ .none)), IsFieldLine line
    · have hfr := framing_iff request.version .none (by simp) hb hf hcd hl
      rw [he] at hfr
      rw [if_pos ((forall_fields_iff ha).mpr hf), hfr]
      exact ⟨fun h => ⟨hv, hf, h⟩, fun h => h.2.2⟩
    · rw [if_neg (mt (forall_fields_iff ha).mp hf)]
      exact iff_of_false (by simp) fun h => hf h.2.1
  · rw [if_neg hv]
    exact iff_of_false (by simp) fun h => hv h.1

theorem bodyFraming_ne_none (h : bodyFraming headers = .ok body) :
    decide (body ≠ .none) = ((headerValue headers transferEncoding).isSome ||
      (headerValue headers contentLength).isSome) := by
  rcases bodyFraming_cases h with ⟨rfl, hc⟩ | ⟨rfl, hc, hl⟩ | ⟨value, octets, rfl, hc, hl, -⟩
  · rw [Option.isSome_iff_ne_none.mpr hc]
    rfl
  · rw [hc, hl]
    rfl
  · rw [hc, hl]
    rfl

theorem request_iff {source c rest : Octets} (hw : Words request)
    (h : forwardRequest request = .ok (body, head))
    (hr : relayHttpBody source body = .ok (c, rest)) :
    Rfc9112.requestLength head = some body.bodyLength ∧ body.bodyLength.Delimits c ↔
      ClearRequest request source := by
  have hb : bodyFraming request.headers = .ok body := by
    obtain ⟨body', hb, h⟩ := bind_eq_ok.mp h
    obtain ⟨t, -, h⟩ := bind_eq_ok.mp h
    obtain ⟨head', -, h⟩ := bind_eq_ok.mp h
    cases h
    exact hb
  rw [requestLength_iff hw h, relayHttpBody_delimits hr, bodyFraming_ne_none hb,
    bodyFraming_chunked_iff hb]
  constructor
  · rintro ⟨⟨hv, hfl, hf⟩, hch⟩
    exact ⟨hv, hfl, hf, hch⟩
  · intro hc
    exact ⟨⟨hc.version, hc.fields, hc.framing⟩, hc.chunks⟩

variable {method : Text}

/-- What the head of a response and the octets after it have to meet. -/
def ClearResponse (method headers : Text) (source : Octets) : Prop :=
  ∃ line rest version status, Text.splitOnceCrlf headers = some (line, rest) ∧
    Rfc9112.statusLine line = some (version, status) ∧
    (∀ field ∈ passedLines headers false, IsFieldLine field) ∧
    (Rfc9112.isBodiless method status = true ∨
      Text.eqIgnoreAsciiCase method "HEAD".toList = false ∧ Clear version headers ∧
        (headerValue headers transferEncoding ≠ none →
          (Rfc9112.readChunkedBody source).isSome = true))

/-- What a response gets besides the lines that are passed on. -/
def addedToResponse : BodyFraming → List Text
  | .chunked => ["Transfer-Encoding: chunked".toList]
  | .closeDelimited => ["Connection: close".toList]
  | .none | .contentLength _ => []

theorem addedToResponse_fields (body : BodyFraming) :
    (∀ line ∈ addedToResponse body, IsFieldLine line) ∧
    fieldValues transferEncoding (addedToResponse body) =
      (if body = .chunked then ["chunked".toList] else []) ∧
    fieldValues contentLength (addedToResponse body) = [] := by
  cases body with
  | none | chunked | closeDelimited => decide +kernel
  | contentLength => exact ⟨by simp [addedToResponse], rfl, rfl⟩

variable {rest v : Text} {source : Octets}

theorem rewriteForwardResponse_eq_ok (hl : splitOnceCrlf headers = some (line, rest))
    (h : rewriteForwardResponse headers body = .ok head) :
    head = written (line :: (passedLines headers false ++ addedToResponse body)) ++ crlf := by
  unfold rewriteForwardResponse at h
  rw [hl] at h
  obtain ⟨r, hr, h⟩ := bind_eq_ok.mp h
  have hf : framingField body = written (addedToResponse body) := by
    cases body with
    | none | contentLength => rfl
    | chunked | closeDelimited => exact (append_nil _).symm
  rw [← Except.ok.inj h, copyResponseFields_eq_ok hr, hf]
  simp [written, passedLines, fieldLines]

theorem not_isWhitespace_of_isVersion (h : Rfc9112.isVersion v = true) :
    v ≠ [] ∧ ∀ c ∈ v, isWhitespace c = false := by
  unfold Rfc9112.isVersion at h
  split at h
  · rw [Bool.and_eq_true] at h
    refine ⟨by simp, ?_⟩
    intro c hc
    simp only [mem_cons, not_mem_nil, or_false] at hc
    rcases hc with rfl | rfl | rfl | rfl | rfl | rfl | rfl | rfl
    · rfl
    · rfl
    · rfl
    · rfl
    · rfl
    · exact not_isWhitespace_of_isDigit h.1
    · rfl
    · exact not_isWhitespace_of_isDigit h.2
  · cases h

variable {status : ℕ}

theorem responseStatus_of_statusLine (hln : splitOnceCrlf headers = some (line, rest))
    (h : Rfc9112.statusLine line = some (v, status)) : responseStatus headers = .ok status := by
  unfold Rfc9112.statusLine at h
  split at h
  · rename_i v' digits o hsp
    split_ifs at h with hs
    obtain ⟨status', hn, hp⟩ := Option.map_eq_some_iff.mp h
    cases hp
    obtain ⟨hve, hl, -⟩ := hs
    obtain ⟨hvr, hv⟩ := not_isWhitespace_of_isVersion hve
    obtain ⟨hne, hd, hvl⟩ := number_eq_some hn
    have hw : ∀ c ∈ digits, isWhitespace c = false :=
      fun c hc => not_isWhitespace_of_isDigit (hd c hc)
    have hwr : (splitWhitespace line)[1]? = some digits := by
      rw [← join_split ' ' line, hsp]
      cases o with
      | nil =>
        rw [show join ' ' [v, digits] = v ++ ' ' :: digits by simp [join, intercalate_cons_cons],
          splitWhitespace_word hv hvr rfl, splitWhitespace, splitOnP_eq_singleton hw,
          filter_cons_of_pos (by simpa using hne)]
        rfl
      | cons ot o =>
        rw [show join ' ' (v :: digits :: ot :: o) =
            v ++ ' ' :: (digits ++ ' ' :: join ' ' (ot :: o)) by simp [join, intercalate_cons_cons],
          splitWhitespace_word hv hvr rfl, splitWhitespace_word hw hne rfl]
        rfl
    have hb : status ≤ 2 ^ 16 - 1 := by
      have hlt := foldl_digits_lt (by decide : 0 < 10) digits 0
      rw [hl] at hlt
      omega
    unfold responseStatus
    rw [hln, Option.bind_some, hwr]
    dsimp only
    rw [fromStrRadix_of_number (by decide) hn hb]
  · cases h

theorem framing_ne_none {l : List Text} : Rfc9112.framing v .untilClose l ≠ some .none := by
  unfold Rfc9112.framing
  split
  · simp
  · simp
  · split_ifs <;> simp
  · simp

theorem responseBodyFraming_eq_ok (hs : responseStatus headers = .ok status)
    (h : responseBodyFraming method headers = .ok body) :
    if eqIgnoreAsciiCase method "HEAD".toList ∨ (100 ≤ status ∧ status < 200) ∨
      status = 204 ∨ status = 304 then body = .none
    else ∃ framing, bodyFraming headers = .ok framing ∧
      body = if framing = .none then .closeDelimited else framing := by
  unfold responseBodyFraming at h
  rw [hs, ok_bind] at h
  split_ifs at h ⊢
  · cases h
    rfl
  obtain ⟨framing, hf, h⟩ := bind_eq_ok.mp h
  refine ⟨framing, hf, ?_⟩
  split_ifs at h ⊢
  · cases h
    rfl
  · cases h
    rfl

theorem forwardResponse_eq_ok (h : forwardResponse method headers = .ok (body, head)) :
    ∃ line rest s, splitOnceCrlf headers = some (line, rest) ∧ line ≠ [] ∧
      responseStatus headers = .ok s ∧ responseBodyFraming method headers = .ok body ∧
      head = written (line :: (passedLines headers false ++ addedToResponse body)) ++ crlf := by
  obtain ⟨s, hs, h⟩ := bind_eq_ok.mp h
  by_cases hu : s = 101
  · rw [if_pos hu] at h
    cases h
  rw [if_neg hu] at h
  obtain ⟨body', hb, h⟩ := bind_eq_ok.mp h
  obtain ⟨head', hh, h⟩ := bind_eq_ok.mp h
  cases h
  have hl : ∃ line rest, splitOnceCrlf headers = some (line, rest) ∧ line ≠ [] := by
    unfold responseStatus at hs
    cases hsp : splitOnceCrlf headers with
    | none =>
      rw [hsp] at hs
      cases hs
    | some p =>
      refine ⟨p.1, p.2, rfl, ?_⟩
      intro hnil
      rw [hsp, Option.bind_some, hnil] at hs
      cases hs
  obtain ⟨line, rest, hl, hne⟩ := hl
  have hi : (if 100 ≤ s ∧ s < 200 then .none else body) = body := by
    split_ifs with hr
    · have hf := responseBodyFraming_eq_ok hs hb
      rw [if_pos (.inr (.inl hr))] at hf
      exact hf.symm
    · rfl
  rw [hi] at hh
  exact ⟨line, rest, s, hl, hne, hs, hb, rewriteForwardResponse_eq_ok hl hh⟩

theorem isBodiless_iff : Rfc9112.isBodiless method status = true ↔
      method = "HEAD".toList ∨ (100 ≤ status ∧ status < 200) ∨ status = 204 ∨ status = 304 := by
  unfold Rfc9112.isBodiless
  simp [or_assoc]

theorem response_iff {copied rest : Octets} (h : forwardResponse method headers = .ok (body, head))
    (hr : relayHttpBody source body = .ok (copied, rest)) :
    Rfc9112.responseLength method head = some body.bodyLength ∧
      body.bodyLength.Delimits copied ↔ ClearResponse method headers source := by
  obtain ⟨line, after, status, hl, hne, hs, hbd, rfl⟩ := forwardResponse_eq_ok h
  obtain ⟨ha, hcd, hln⟩ := addedToResponse_fields _
  have hst : NoCrlf line := by
    apply noCrlf_of_mem_splitCrlf (s := headers)
    rw [splitCrlf_of_splitOnceCrlf hl]
    exact mem_cons_self
  have hf := responseBodyFraming_eq_ok hs hbd
  rw [Rfc9112.responseLength, headLines_passed hst hne ha]
  dsimp only
  cases hv : Rfc9112.statusLine line with
  | none =>
    refine iff_of_false (by simp) ?_
    rintro ⟨line', after', version, status', hl', hv', -⟩
    cases hl.symm.trans hl'
    cases hv.symm.trans hv'
  | some parts =>
    obtain ⟨version, status'⟩ := parts
    cases hs.symm.trans (responseStatus_of_statusLine hl hv)
    rw [show ClearResponse _ _ _ ↔ _ from ⟨by
      rintro ⟨_, _, _, _, hl', hv', hr⟩
      cases hl.symm.trans hl'
      cases hv.symm.trans hv'
      exact hr, fun hr => ⟨_, _, _, _, hl, hv, hr⟩⟩]
    dsimp only
    by_cases hfl : ∀ field ∈ passedLines headers false, IsFieldLine field
    · rw [if_pos ((forall_fields_iff ha).mpr hfl)]
      by_cases hb : Rfc9112.isBodiless method status = true
      · rw [if_pos ((isBodiless_iff.mp hb).imp_left (· ▸ beq_self_eq_true _))] at hf
        subst hf
        cases hr
        rw [if_pos hb]
        exact iff_of_true ⟨rfl, rfl⟩ ⟨hfl, .inl hb⟩
      rw [if_neg hb]
      by_cases hh : eqIgnoreAsciiCase method "HEAD".toList = true
      · rw [if_pos (.inl hh)] at hf
        subst hf
        refine iff_of_false (fun h => framing_ne_none h.1) ?_
        rintro ⟨-, hc | ⟨hc, -⟩⟩
        · exact hb hc
        · rw [hh] at hc
          cases hc
      · have hbd' : ¬ (eqIgnoreAsciiCase method "HEAD".toList = true ∨
            (100 ≤ status ∧ status < 200) ∨ status = 204 ∨ status = 304) := by
          rintro (hc | hc)
          · exact hh hc
          · exact hb (isBodiless_iff.mpr (.inr hc))
        rw [if_neg hbd'] at hf
        obtain ⟨framing, hrd, rfl⟩ := hf
        have he : (if framing = .none then .closeDelimited else framing).bodyLength =
            if framing = .none then .untilClose else framing.bodyLength := by split_ifs <;> rfl
        have hch : (if framing = .none then .closeDelimited else framing) = .chunked ↔
            framing = .chunked := by
          split_ifs with hn
          · simp [hn]
          · rfl
        simp only [hch] at hcd
        rw [relayHttpBody_delimits hr, hch, bodyFraming_chunked_iff hrd, he,
          framing_iff version .untilClose (by simp) hrd hfl hcd hln]
        simp only [hb, hh, true_and, Bool.false_eq_true, false_or]
        exact ⟨fun h => ⟨hfl, h⟩, And.right⟩
    · rw [if_neg (mt (forall_fields_iff ha).mp hfl)]
      exact iff_of_false (by simp) fun h => hfl h.1

end Http

open Http in
/-- Of every request that the proxy forwards, the head that it writes determines exactly the
body that it relays, if and only if the head and the body that it reads are clear; and the
same of every response. -/
theorem httpForward_framed_iff (headers : Text) (body : BodyFraming) (head : Text)
    (source copied rest : Octets) (hrelay : relayHttpBody source body = .ok (copied, rest)) :
    (∀ request : InboundHttpRequest, parseRequest headers = .ok request →
      forwardRequest request = .ok (body, head) →
      (Rfc9112.requestLength head = some body.bodyLength ∧ body.bodyLength.Delimits copied ↔
        ClearRequest request source)) ∧
    ∀ method : Text, forwardResponse method headers = .ok (body, head) →
      (Rfc9112.responseLength method head = some body.bodyLength ∧
        body.bodyLength.Delimits copied ↔ ClearResponse method headers source) := by
  constructor
  · intro request hr hf
    exact request_iff (words_of_parseRequest hr).2 hf hrelay
  · intro method hf
    exact response_iff hf hrelay

def exampleRequest : Text :=
  "POST http://a/b HTTP/1.1\r\nHost: a\r\nContent-Length: 2\r\n\r\n".toList

def exampleResponse : Text := "HTTP/1.1 200 OK\r\nTransfer-Encoding: chunked\r\n\r\n".toList

def exampleChunks : Octets := [49, 13, 10, 120, 13, 10, 48, 13, 10, 13, 10]

theorem httpForward_framed_example :
    (Rfc9112.requestLength "POST /b HTTP/1.1\r\nHost: a\r\nContent-Length: 2\r\n\r\n".toList =
        some (.length 2) ∧ (Rfc9112.BodyLength.length 2).Delimits [1, 2]) ∧
    Rfc9112.responseLength "POST".toList exampleResponse = some .chunked ∧
      Rfc9112.BodyLength.chunked.Delimits exampleChunks := by
  constructor
  · refine ((httpForward_framed_iff exampleRequest (.contentLength 2) _ [1, 2, 3] [1, 2] [3]
      (by decide +kernel)).1
      ⟨"POST".toList, "http://a/b".toList, "HTTP/1.1".toList, exampleRequest⟩
      (by decide +kernel) (by decide +kernel)).mpr
      ⟨by decide +kernel, by decide +kernel, ⟨fun h => absurd (by decide +kernel) h, ?_⟩,
        fun h => absurd (by decide +kernel) h⟩
    intro _ value hvalue
    have htwo : Http.headerValue exampleRequest Rfc9112.contentLength = some "2".toList := by
      decide +kernel
    cases htwo.symm.trans hvalue
    exact ⟨by decide +kernel, "Content-Length: 2".toList, 2, by decide +kernel, by decide +kernel,
      by decide +kernel⟩
  · refine ((httpForward_framed_iff exampleResponse .chunked _ exampleChunks exampleChunks []
      (by decide +kernel)).2 "POST".toList (by decide +kernel)).mpr ?_
    exact ⟨"HTTP/1.1 200 OK".toList, "Transfer-Encoding: chunked\r\n\r\n".toList,
      "HTTP/1.1".toList, 200, by decide +kernel, by decide +kernel, by decide +kernel,
      .inr ⟨by decide +kernel, ⟨fun _ => by decide +kernel, fun h => absurd h (by decide +kernel)⟩,
        fun _ => by decide +kernel⟩⟩

def requestOutcome (headers : Text) : Result (Http.BodyFraming × Option Rfc9112.BodyLength) := do
  let request ← Http.parseRequest headers
  let (body, head) ← Http.forwardRequest request
  pure (body, Rfc9112.requestLength head)

def responseOutcome (method headers : Text) :
    Result (Http.BodyFraming × Option Rfc9112.BodyLength) := do
  let (body, head) ← Http.forwardResponse method headers
  pure (body, Rfc9112.responseLength method head)

def postHead (fields : Text) : Text :=
  "POST http://a/ HTTP/1.1\r\n".toList ++ fields ++ "\r\n\r\n".toList

def okHead (fields : Text) : Text := "HTTP/1.1 200 OK\r\n".toList ++ fields ++ "\r\n\r\n".toList

/-- A connection field that names the length takes it out of the head, so the recipient
reads the body as a request (or the rest of the connection as a body); a line feed in the
first line hides it. Two lengths, or a length beside the coding, are passed on together. -/
theorem httpForward_desynchronised :
    requestOutcome (postHead "Connection: content-length\r\nContent-Length: 2".toList) =
      .ok (.contentLength 2, some .none) ∧
    requestOutcome "POST http://a/ HTTP/1.1\nContent-Length: 2\r\nHost: a\r\n\r\n".toList =
      .ok (.contentLength 2, some .none) ∧
    requestOutcome (postHead "Content-Length: 2\r\nContent-Length: 9".toList) =
      .ok (.contentLength 2, none) ∧
    requestOutcome (postHead "Content-Length: 2\r\nTransfer-Encoding: chunked".toList) =
      .ok (.chunked, none) ∧
    responseOutcome "GET".toList (okHead "Connection: content-length\r\nContent-Length: 2".toList) =
      .ok (.contentLength 2, some .untilClose) ∧
    responseOutcome "GET".toList (okHead "Content-Length: 2\r\nContent-Length: 9".toList) =
      .ok (.contentLength 2, none) := by
  decide +kernel

end Doradus
