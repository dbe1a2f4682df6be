import Mathlib.Data.Char
import Mathlib.Data.List.DropRight
import Mathlib.Data.List.Infix
import Mathlib.Data.List.Lex
import Mathlib.Tactic

/-!
# Text as a list of Unicode scalar values

The string operations of the Rust standard library that the model uses. A `str` is ordered
bytewise; on UTF-8 this is the order of the code points, which is the lexicographic order of
`List Char`. Lengths are counted in UTF-8 bytes.
-/

abbrev Text := List Char

namespace Text

open List

/-- A property of the characters of a text is decided along the text; with all of `Char` a
finite type, Lean may look through every scalar value instead. -/
instance decidableForallMem (p : Char → Prop) [DecidablePred p] (s : Text) :
    Decidable (∀ c ∈ s, p c) :=
  List.decidableBAll p s

/-- The code points with the Unicode property `White_Space`. -/
def isWhitespace (c : Char) : Bool :=
  let n := c.toNat
  (0x09 ≤ n && n ≤ 0x0d) || n == 0x20 || n == 0x85 || n == 0xa0 || n == 0x1680 ||
    (0x2000 ≤ n && n ≤ 0x200a) || n == 0x2028 || n == 0x2029 || n == 0x202f ||
    n == 0x205f || n == 0x3000

/-- The general category `Cc`. -/
def isControl (c : Char) : Bool :=
  let n := c.toNat
  n ≤ 0x1f || (0x7f ≤ n && n ≤ 0x9f)

def trimStart (s : Text) : Text := s.dropWhile isWhitespace

def trimEnd (s : Text) : Text := s.rdropWhile isWhitespace

def trim (s : Text) : Text := trimEnd (trimStart s)

def trimEndMatches (c : Char) (s : Text) : Text := s.rdropWhile (· == c)

def toAsciiLowercase (s : Text) : Text := s.map Char.toLower

def eqIgnoreAsciiCase (s t : Text) : Bool := toAsciiLowercase s == toAsciiLowercase t

def byteLen (s : Text) : ℕ := (s.map Char.utf8Size).sum

def toUtf8 (s : Text) : List UInt8 := (String.ofList s).toByteArray.data.toList

def ofUtf8 (octets : List UInt8) : Option Text :=
  (String.fromUTF8? ⟨octets.toArray⟩).map String.toList

def split (c : Char) (s : Text) : List Text := s.splitOn c

def join (c : Char) (parts : List Text) : Text := [c].intercalate parts

/-- The text before and after the first occurrence of the separator. -/
def splitOnce (c : Char) (s : Text) : Option (Text × Text) :=
  if c ∈ s then some (s.takeWhile (· ≠ c), (s.dropWhile (· ≠ c)).tail) else none

variable {α : Type} [LinearOrder α]

theorem prefix_of_between {a t k : List α} (h₁ : ¬ k < a) (h₂ : ¬ a ++ t < k) : a <+: k := by
  induction a generalizing k with
  | nil => simp
  | cons x a ih =>
    cases k with
    | nil => exact absurd (nil_lt_cons x a) h₁
    | cons y =>
      rw [cons_append, cons_lt_cons_iff] at h₂
      rw [cons_lt_cons_iff] at h₁
      push Not at h₁ h₂
      obtain rfl := le_antisymm h₁.1 h₂.1
      exact (prefix_cons_inj x).mpr (ih (not_lt.mpr (h₁.2 rfl)) (not_lt.mpr (h₂.2 rfl)))

theorem append_lt_append_left (a : List α) {s t : List α} : a ++ s < a ++ t ↔ s < t := by
  induction a with
  | nil => simp
  | cons _ _ ih => simp [ih]

theorem not_lt_of_prefix {a k : List α} (h : a <+: k) : ¬ k < a := by
  obtain ⟨t, rfl⟩ := h
  have := append_lt_append_left a (s := t) (t := [])
  rw [append_nil] at this
  rw [this]
  exact not_lt_nil t

variable {s : Text} {p q : List Text}

theorem trimEnd_eq_self (h : ∀ c ∈ s, isWhitespace c = false) : trimEnd s = s := by
  apply rdropWhile_eq_self_iff.mpr
  intro hl
  simp [h _ (getLast_mem hl)]

theorem trimStart_eq_self (h : ∀ c ∈ s, isWhitespace c = false) : trimStart s = s := by
  cases s with
  | nil => rfl
  | cons c => simp [trimStart, h c (by simp)]

theorem trim_eq_self (h : ∀ c ∈ s, isWhitespace c = false) : trim s = s := by
  rw [trim, trimStart_eq_self h, trimEnd_eq_self h]

theorem toLower_of_not_upper {c : Char} (h : ¬(c.val ≥ 'A'.val ∧ c.val ≤ 'Z'.val)) :
    c.toLower = c := by
  exact dif_neg h

theorem toLower_toLower (c : Char) : c.toLower.toLower = c.toLower := by
  by_cases h : c.val ≥ 'A'.val ∧ c.val ≤ 'Z'.val
  · apply toLower_of_not_upper
    have hv : c.toLower.val = c.val + 32 := by
      unfold Char.toLower
      rw [dif_pos h]
      rfl
    rw [hv]
    rintro ⟨-, h'⟩
    have hA : (65 : UInt32) ≤ c.val := h.1
    have hZ := h.2
    have hl := h'
    rw [UInt32.le_iff_toNat_le] at hA hZ hl
    simp at hA hZ hl
    omega
  · rw [toLower_of_not_upper h, toLower_of_not_upper h]

theorem toAsciiLowercase_idem (s : Text) :
    toAsciiLowercase (toAsciiLowercase s) = toAsciiLowercase s := by
  simp only [toAsciiLowercase, map_map]
  apply map_congr_left
  intro c _
  exact toLower_toLower c

theorem split_ne_nil (c : Char) (s : Text) : split c s ≠ [] := splitOn_ne_nil c s

@[simp] theorem join_split (c : Char) (s : Text) : join c (split c s) = s := intercalate_splitOn c

theorem not_mem_of_mem_split (c : Char) (s : Text) : ∀ part ∈ split c s, c ∉ part := by
  unfold split
  induction s with
  | nil => simp
  | cons a s ih =>
    intro part hp
    rw [splitOn_cons_eq_if_modifyHead] at hp
    by_cases ha : a = c
    · rw [if_pos (by simpa using ha), mem_cons] at hp
      rcases hp with rfl | hp
      · simp
      · exact ih part hp
    rw [if_neg (by simpa using ha)] at hp
    cases hs : s.splitOn c with
    | nil => exact absurd hs (splitOn_ne_nil c s)
    | cons head =>
      rw [hs] at ih hp
      simp only [modifyHead_cons, mem_cons] at hp
      rcases hp with rfl | hp
      · have hh := ih head (by simp)
        simp [hh, Ne.symm ha]
      · exact ih part (by simp [hp])

theorem length_split_le (c : Char) (s : Text) : (split c s).length ≤ s.length + 1 := by
  unfold split
  induction s with
  | nil => simp
  | cons _ _ ih =>
    rw [splitOn_cons_eq_if_modifyHead]
    split_ifs
    · simpa using ih
    · simp only [length_modifyHead, length_cons]
      omega

theorem length_le_byteLen (s : Text) : s.length ≤ byteLen s := by
  induction s with
  | nil => simp
  | cons c _ ih =>
    have := Char.utf8Size_pos c
    simp only [byteLen, map_cons, sum_cons, length_cons] at ih ⊢
    omega

theorem split_join (c : Char) {parts : List Text} (hc : ∀ part ∈ parts, c ∉ part)
    (hne : parts ≠ []) : split c (join c parts) = parts :=
  splitOn_intercalate c hc hne

theorem eq_or_mem_of_mem_join (c : Char) {d : Char} {pr : List Text} (h : d ∈ join c pr) :
    d = c ∨ ∃ part ∈ pr, d ∈ part := by
  induction pr with
  | nil => simp [join] at h
  | cons p pr ih =>
    cases pr with
    | nil => exact .inr ⟨p, by simp, by simpa [join] using h⟩
    | cons =>
      rw [join, intercalate_cons_cons, append_assoc, mem_append, mem_append, mem_singleton] at h
      rcases h with h | h | h
      · exact .inr ⟨p, by simp, h⟩
      · exact .inl h
      · rcases ih h with h | ⟨part, hp, hd⟩
        · exact .inl h
        · exact .inr ⟨part, mem_cons_of_mem _ hp, hd⟩

theorem join_singleton (c : Char) (p : Text) : join c [p] = p := by simp [join]

theorem join_append (c : Char) (hp : p ≠ []) (hq : q ≠ []) :
    join c (p ++ q) = join c p ++ c :: join c q := by
  induction p with
  | nil => exact absurd rfl hp
  | cons _ p ih =>
    cases p with
    | nil =>
      cases q with
      | nil => exact absurd rfl hq
      | cons => simp [join, intercalate_cons_cons]
    | cons =>
      have h := ih (by simp)
      simp only [join, cons_append] at h ⊢
      simp [h]

def crlf : Text := ['\r', '\n']

def splitCrlf : Text → List Text
  | [] => [[]]
  | '\r' :: '\n' :: s => [] :: splitCrlf s
  | c :: s =>
    match splitCrlf s with
    | [] => [[c]]
    | part :: parts => (c :: part) :: parts

def splitOnceCrlf : Text → Option (Text × Text)
  | [] => none
  | '\r' :: '\n' :: s => some ([], s)
  | c :: s => (splitOnceCrlf s).map fun p => (c :: p.1, p.2)

/-- `lines`: the last line may lack its end, and then keeps a CR. -/
def lines : Text → List Text
  | [] => []
  | '\n' :: s => [] :: lines s
  | '\r' :: '\n' :: s => [] :: lines s
  | c :: s =>
    match lines s with
    | [] => [[c]]
    | line :: rest => (c :: line) :: rest

def splitWhitespace (s : Text) : List Text := (s.splitOnP isWhitespace).filter (· ≠ [])

def splitOnceText (separator : Text) : Text → Option (Text × Text)
  | [] => none
  | c :: s =>
    if separator.isPrefixOf (c :: s) then some ([], (c :: s).drop separator.length)
    else (splitOnceText separator s).map fun p => (c :: p.1, p.2)

def ofLatin1 (octets : List UInt8) : Text := octets.map fun b => Char.ofNat b.toNat

def rsplitOnce (c : Char) (s : Text) : Option (Text × Text) :=
  (splitOnce c s.reverse).map fun p => (p.2.reverse, p.1.reverse)

variable {c : Char} {part : Text}

theorem splitCrlf_cons (h : ∀ t, c = '\r' → s ≠ '\n' :: t) :
    splitCrlf (c :: s) = (c :: (splitCrlf s).headD []) :: (splitCrlf s).tail := by
  rw [splitCrlf]
  · cases splitCrlf s with
    | nil | cons => rfl
  · exact h

theorem splitCrlf_ne_nil (s : Text) : splitCrlf s ≠ [] := by
  fun_cases splitCrlf s <;> simp

theorem splitCrlf_eq_cons (s : Text) :
    splitCrlf s = (splitCrlf s).headD [] :: (splitCrlf s).tail := by
  cases h : splitCrlf s with
  | nil => exact absurd h (splitCrlf_ne_nil s)
  | cons => rfl

def NoCrlf (s : Text) : Prop := ¬ crlf <:+: s

theorem NoCrlf.tail (h : NoCrlf (c :: s)) : NoCrlf s :=
  fun hs => h (hs.trans (suffix_cons c s).isInfix)

theorem noCrlf_of_not_mem (h : '\n' ∉ s) : NoCrlf s := by
  intro hs
  exact h (hs.subset (by simp [crlf]))

theorem NoCrlf.cons (hs : NoCrlf s) (h : ∀ t, c = '\r' → s ≠ '\n' :: t) : NoCrlf (c :: s) := by
  intro hi
  rcases infix_cons_iff.mp hi with ⟨t, ht⟩ | hi
  · obtain ⟨hc, hr⟩ := cons.inj ht
    exact h t hc.symm hr.symm
  · exact hs hi

theorem splitCrlf_append (h : NoCrlf part) (s : Text) :
    splitCrlf (part ++ crlf ++ s) = part :: splitCrlf s := by
  induction part with
  | nil => rfl
  | cons c part ih =>
    have hn : ∀ t, c = '\r' → part ++ crlf ++ s ≠ '\n' :: t := by
      intro t hc heq
      cases part with
      | nil => cases heq
      | cons _ part =>
        obtain ⟨rfl, -⟩ := cons.inj heq
        subst hc
        exact h ⟨[], part, rfl⟩
    rw [cons_append, cons_append, splitCrlf_cons hn, ih h.tail]
    rfl

theorem splitCrlf_flatten {pr : List Text} (h : ∀ part ∈ pr, NoCrlf part) (s : Text) :
    splitCrlf ((pr.map (· ++ crlf)).flatten ++ s) = pr ++ splitCrlf s := by
  induction pr with
  | nil => rfl
  | cons part _ ih =>
    rw [map_cons, flatten_cons, append_assoc, splitCrlf_append (h part mem_cons_self),
      ih fun p hp => h p (mem_cons_of_mem _ hp), cons_append]

theorem head_splitCrlf_prefix (s : Text) : (splitCrlf s).headD [] <+: s := by
  fun_induction splitCrlf s with
  | case1 | case2 s ih => exact nil_prefix
  | case3 c s hn hnil ih => exact absurd hnil (splitCrlf_ne_nil s)
  | case4 c s hn f rest hs ih =>
    rw [hs] at ih
    exact (prefix_cons_inj c).mpr ih

theorem noCrlf_of_mem_splitCrlf (h : part ∈ splitCrlf s) : NoCrlf part := by
  fun_induction splitCrlf s generalizing part with
  | case1 =>
    rw [mem_singleton.mp h]
    exact noCrlf_of_not_mem (by simp)
  | case2 s ih =>
    rcases mem_cons.mp h with rfl | h
    · exact noCrlf_of_not_mem (by simp)
    · exact ih h
  | case3 c s hn hnil ih => exact absurd hnil (splitCrlf_ne_nil s)
  | case4 c s hn f rest hsp ih =>
    rw [hsp] at ih
    rcases mem_cons.mp h with rfl | h
    · refine (ih mem_cons_self).cons ?_
      rintro t rfl rfl
      have hs := head_splitCrlf_prefix s
      rw [hsp] at hs
      obtain ⟨u, hu⟩ := hs
      exact hn (t ++ u) rfl hu.symm
    · exact ih (mem_cons_of_mem _ h)

theorem splitCrlf_of_splitOnceCrlf {a b : Text} (h : splitOnceCrlf s = some (a, b)) :
    splitCrlf s = a :: splitCrlf b := by
  fun_induction splitOnceCrlf s generalizing a with
  | case1 => cases h
  | case2 s =>
    cases h
    rfl
  | case3 c s hn ih =>
    obtain ⟨⟨f, rest⟩, hf, hp⟩ := Option.map_eq_some_iff.mp h
    cases hp
    rw [splitCrlf_cons hn, ih hf]
    rfl

theorem lines_head (h : '\n' ∉ (splitCrlf s).headD []) :
    (s = [] ∧ lines s = []) ∨ ∃ rest, lines s = (splitCrlf s).headD [] :: rest := by
  fun_induction lines s with
  | case1 => exact .inl ⟨rfl, rfl⟩
  | case2 s ih =>
    rw [splitCrlf_cons (by simp)] at h
    simp at h
  | case3 s ih => exact .inr ⟨lines s, rfl⟩
  | case4 c s hlf hn hnil ih =>
    rw [splitCrlf_cons hn] at h ⊢
    rcases ih fun hmem => h (mem_cons_of_mem _ hmem) with ⟨rfl, -⟩ | ⟨rest, hr⟩
    · exact .inr ⟨[], rfl⟩
    · rw [hnil] at hr
      cases hr
  | case5 c s hlf hn line rest hl ih =>
    rw [splitCrlf_cons hn] at h ⊢
    rcases ih fun hmem => h (mem_cons_of_mem _ hmem) with ⟨rfl, hnil⟩ | ⟨rest', hr⟩
    · rw [hl] at hnil
      cases hnil
    · rw [hl] at hr
      cases hr
      exact .inr ⟨rest, rfl⟩

theorem mem_lines_tail (h : part ∈ (splitCrlf s).tail) (hlf : '\n' ∉ part) (hne : part ≠ []) :
    part ∈ (lines s).tail := by
  fun_induction lines s with
  | case1 => cases h
  | case2 s ih =>
    rw [splitCrlf_cons (by simp)] at h
    exact mem_of_mem_tail (ih h)
  | case3 s ih =>
    have hmem : part ∈ splitCrlf s := h
    rw [splitCrlf_eq_cons s, mem_cons] at hmem
    rcases hmem with rfl | hmem
    · rcases lines_head hlf with ⟨rfl, -⟩ | ⟨rest, hr⟩
      · exact absurd rfl hne
      · rw [hr]
        exact mem_cons_self
    · exact mem_of_mem_tail (ih hmem)
  | case4 c s hc hn hnil ih =>
    rw [splitCrlf_cons hn] at h
    have hmem := ih h
    rw [hnil] at hmem
    cases hmem
  | case5 c s hc hn line rest hl ih =>
    rw [splitCrlf_cons hn] at h
    have hmem := ih h
    rw [hl] at hmem
    exact hmem

variable {p : Char → Bool} {word : Text}

theorem splitOnP_words (h : word ∈ s.splitOnP p) : ∀ c ∈ word, p c = false := by
  induction s generalizing word with
  | nil =>
    rw [splitOnP_nil, mem_singleton] at h
    simp [h]
  | cons _ s ih =>
    rw [splitOnP_cons_eq_if_modifyHead] at h
    split_ifs at h with ha
    · rcases mem_cons.mp h with rfl | h
      · simp
      · exact ih h
    cases hs : s.splitOnP p with
    | nil => exact absurd hs (splitOnP_ne_nil p s)
    | cons =>
      rw [hs] at h ih
      rcases mem_cons.mp h with rfl | h
      · intro c hc
        rcases mem_cons.mp hc with rfl | hc
        · simpa using ha
        · exact ih mem_cons_self c hc
      · exact ih (mem_cons_of_mem _ h)

theorem splitWhitespace_word (hw : ∀ c ∈ word, isWhitespace c = false) (hne : word ≠ [])
    (hc : isWhitespace c = true) (s : Text) :
    splitWhitespace (word ++ c :: s) = word :: splitWhitespace s := by
  rw [splitWhitespace, splitOnP_append_cons word s hc, splitOnP_eq_singleton hw,
    singleton_append, filter_cons_of_pos (by simpa using hne)]
  rfl

end Text
