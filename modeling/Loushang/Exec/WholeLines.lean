import Loushang.Exec.Truncation

/-!
# What truncation keeps

The head is the longest front of whole lines within the limits. The tail is the longest such back,
or the longest suffix within the bytes when the last line alone is too long; where that suffix
starts, escaped bytes that happen to be UTF-8 come back as other characters.
-/
namespace Loushang.Exec
open Loushang.Lib Loushang.Lib.Utf8

/-! ## The statement -/

def HeadOf (content front : Text) : Prop := ∃ k, front = ((splitlines content).take k).flatten

def TailOf (content back : Text) : Prop := ∃ k, back = ((splitlines content).drop k).flatten

def Fits (maxLines maxBytes : Nat) (text : Text) : Prop :=
  countLines text ≤ maxLines ∧ countBytes text ≤ maxBytes

structure LongestHead (content : Text) (maxLines maxBytes : Nat) (output : Text) : Prop where
  whole : HeadOf content output
  fits : Fits maxLines maxBytes output
  longest : ∀ front, HeadOf content front → Fits maxLines maxBytes front → front <+: output

structure LongestTail (content : Text) (maxLines maxBytes : Nat) (output : Text) : Prop where
  whole : TailOf content output
  fits : Fits maxLines maxBytes output
  longest : ∀ back, TailOf content back → Fits maxLines maxBytes back → back <:+ output

structure LongestSuffix (content : Text) (maxBytes : Nat) (output : Text) : Prop where
  suffix_ : output <:+ content
  fits : countBytes output ≤ maxBytes
  longest : ∀ back, back <:+ content → countBytes back ≤ maxBytes → back <:+ output

def LastLineTooLong (content : Text) (maxBytes : Nat) : Prop :=
  ∃ line, (splitlines content).getLast? = some line ∧ maxBytes < countBytes line

structure HeadKept (content : Text) (maxLines maxBytes : Nat) (head : TruncationResult) : Prop where
  longest : LongestHead content maxLines maxBytes head.content
  truncated_iff : head.truncated = true ↔ head.content ≠ content
  flagged : head.content = [] → content ≠ [] → head.firstLineExceedsLimit = true

structure TailKept (content : Text) (maxLines maxBytes : Nat) (tail : TruncationResult) : Prop where
  longest : ¬ LastLineTooLong content maxBytes → LongestTail content maxLines maxBytes tail.content
  clipped : LastLineTooLong content maxBytes → LongestSuffix content maxBytes tail.content
  truncated_iff : tail.truncated = true ↔ tail.content ≠ content

/-- The first line fits without its CR, LF or CRLF, and does not with its ending. -/
def EndingOverflows (content : Text) (maxBytes : Nat) : Prop :=
  ∃ line rest, splitlines content = line :: rest ∧ countBytes (stripLineEnding line) ≤ maxBytes ∧
    maxBytes < countBytes line

/-- The last line is too long, and a suffix of it that takes up the limit has escaped bytes although
its bytes are valid UTF-8. -/
def ClipRecombines (content : Text) (maxBytes : Nat) : Prop :=
  ∃ line clip, (splitlines content).getLast? = some line ∧ maxBytes < countBytes line ∧ clip <:+ line ∧
    countBytes clip = maxBytes ∧ clip.any Character.isEscaped = true ∧ (decodeStrict (encode clip)).isSome = true

/-! ## Counting -/

@[simp] theorem countBytes_nil : countBytes [] = 0 := rfl

@[simp] theorem countBytes_append (front back : Text) :
    countBytes (front ++ back) = countBytes front + countBytes back := by
  simp [countBytes]

theorem countBytes_pos {text : Text} (nonempty : text ≠ []) : 0 < countBytes text := by
  have few := length_le_encode text
  have positive := List.length_pos_iff.mpr nonempty
  unfold countBytes
  omega

theorem countLines_eq (text : Text) : countLines text = (splitlines text).length := by
  unfold countLines splitlines
  split
  · next empty => rw [empty, Boundaries.split_nil, List.length_nil]
  · rfl

theorem flatten_splitlines (content : Text) : (splitlines content).flatten = content :=
  Boundaries.flatten_split content

theorem countLines_take (content : Text) {k : Nat} (few : k ≤ (splitlines content).length) :
    countLines ((splitlines content).take k).flatten = k := by
  rw [countLines_eq, splitlines, splitlines, Boundaries.split_take, List.length_take]
  exact Nat.min_eq_left few

theorem countLines_drop (content : Text) (k : Nat) :
    countLines ((splitlines content).drop k).flatten = (splitlines content).length - k := by
  rw [countLines_eq, splitlines, splitlines, Boundaries.split_drop, List.length_drop]

theorem line_ne_nil {content line : Text} (member : line ∈ splitlines content) : line ≠ [] :=
  Boundaries.ne_nil_of_mem_split member

/-- Lines that make nothing are none. -/
theorem lines_eq_nil {content : Text} {lines : List Text} (among : ∀ line ∈ lines, line ∈ splitlines content)
    (empty : lines.flatten = []) : lines = [] := by
  cases lines with
  | nil => rfl
  | cons line rest =>
    rw [List.flatten_cons, List.append_eq_nil_iff] at empty
    exact absurd empty.1 (line_ne_nil (among line List.mem_cons_self))

theorem countBytes_removeSuffix_le (suffix_ text : Text) :
    countBytes (removeSuffix suffix_ text) ≤ countBytes text := by
  unfold removeSuffix
  split
  · have split := countBytes_append (text.take (text.length - suffix_.length)) (text.drop (text.length - suffix_.length))
    rw [List.take_append_drop] at split
    omega
  · exact Nat.le_refl _

theorem countBytes_stripLineEnding_le (line : Text) : countBytes (stripLineEnding line) ≤ countBytes line := by
  have pair := countBytes_removeSuffix_le [.scalar '\r', .scalar '\n'] line
  have lf := countBytes_removeSuffix_le [.scalar '\n'] (removeSuffix [.scalar '\r', .scalar '\n'] line)
  have cr := countBytes_removeSuffix_le [.scalar '\r']
    (removeSuffix [.scalar '\n'] (removeSuffix [.scalar '\r', .scalar '\n'] line))
  unfold stripLineEnding
  omega

/-! ## The loops -/

/-- The loop takes lines while they fit; it says why it stopped. -/
theorem headLoop_spec (maxLines maxBytes : Nat) (lines outputLines : List Text) (outputBytes : Nat)
    (few : outputLines.length ≤ maxLines) (small : outputBytes ≤ maxBytes) :
    ∃ k, k ≤ lines.length ∧ outputLines.length + k ≤ maxLines ∧
      outputBytes + countBytes (lines.take k).flatten ≤ maxBytes ∧
      ((k = lines.length ∧ headLoop maxLines maxBytes lines outputLines outputBytes =
          (outputLines ++ lines.take k, none)) ∨
        k < lines.length ∧ (maxLines ≤ outputLines.length + k ∨
          maxBytes < outputBytes + countBytes (lines.take (k + 1)).flatten) ∧
        ∃ kind, headLoop maxLines maxBytes lines outputLines outputBytes =
          (outputLines ++ lines.take k, some kind)) := by
  induction lines generalizing outputLines outputBytes with
  | nil => exact ⟨0, Nat.le_refl _, few, by simpa using small, Or.inl ⟨rfl, by simp [headLoop]⟩⟩
  | cons line rest ih =>
    unfold headLoop
    by_cases full : maxLines ≤ outputLines.length
    · rw [if_pos full]
      exact ⟨0, Nat.zero_le _, few, by simpa using small,
        Or.inr ⟨by simp, Or.inl (by omega), .lines, by simp⟩⟩
    rw [if_neg full]
    by_cases large : maxBytes < outputBytes + countBytes line
    · rw [if_pos large]
      exact ⟨0, Nat.zero_le _, few, by simpa using small,
        Or.inr ⟨by simp, Or.inr (by simpa using large), .bytes, by simp⟩⟩
    rw [if_neg large]
    obtain ⟨k, inside, lines_, bytes_, ends⟩ := ih (outputLines ++ [line]) (outputBytes + countBytes line)
      (by simp; omega) (by omega)
    rw [List.length_append, List.length_singleton] at lines_ ends
    refine ⟨k + 1, by simpa using inside, by omega, ?_, ?_⟩
    · rw [List.take_succ_cons, List.flatten_cons, countBytes_append]
      omega
    · rcases ends with ⟨all, result⟩ | ⟨some_, why, kind, result⟩
      · refine Or.inl ⟨by rw [all, List.length_cons], ?_⟩
        rw [result, List.take_succ_cons, List.append_assoc, List.singleton_append]
      · refine Or.inr ⟨by simpa using some_, ?_, kind, ?_⟩
        · rcases why with full' | large'
          · exact Or.inl (by omega)
          · rw [List.take_succ_cons, List.flatten_cons, countBytes_append]
            exact Or.inr (by omega)
        · rw [result, List.take_succ_cons, List.append_assoc, List.singleton_append]

/-- Behind its first line, the loop over the reversed lines is the other loop. -/
theorem tailLoop_eq (maxLines maxBytes : Nat) (lines outputLines : List Text) (outputBytes : Nat)
    (begun : outputLines = [] → ∀ line, lines.head? = some line → outputBytes + countBytes line ≤ maxBytes) :
    tailLoop maxLines maxBytes lines outputLines outputBytes =
      ((headLoop maxLines maxBytes lines outputLines outputBytes).1,
        (headLoop maxLines maxBytes lines outputLines outputBytes).2, false) := by
  induction lines generalizing outputLines outputBytes with
  | nil => rfl
  | cons line rest ih =>
    unfold tailLoop headLoop
    by_cases full : maxLines ≤ outputLines.length
    · rw [if_pos full, if_pos full]
    rw [if_neg full, if_neg full]
    by_cases large : maxBytes < outputBytes + countBytes line
    · rw [if_pos large, if_pos large]
      have later : outputLines ≠ [] := fun empty => by
        have fits := begun empty line rfl
        omega
      rw [if_neg later]
    · rw [if_neg large, if_neg large]
      exact ih _ _ fun empty => absurd empty (by simp)

/-! ## The head -/

section Head
variable {content : Text} {maxLines maxBytes : Nat}

theorem countBytes_flatten_mono {lines : List Text} {j k : Nat} (below : j ≤ k) :
    countBytes (lines.take j).flatten ≤ countBytes (lines.take k).flatten := by
  obtain ⟨more, split⟩ := List.take_prefix_take_left (l := lines) below
  rw [← split, List.flatten_append, countBytes_append]
  omega

theorem flatten_take_prefix {lines : List Text} {j k : Nat} (below : j ≤ k) :
    (lines.take j).flatten <+: (lines.take k).flatten := by
  obtain ⟨more, split⟩ := List.take_prefix_take_left (l := lines) below
  exact ⟨more.flatten, by rw [← split, List.flatten_append]⟩

theorem headOf_prefix {front : Text} (whole : HeadOf content front) : front <+: content := by
  obtain ⟨k, rfl⟩ := whole
  refine ⟨((splitlines content).drop k).flatten, ?_⟩
  rw [← List.flatten_append, List.take_append_drop, flatten_splitlines]

/-- No more than the first `k` lines fit where the loop stopped. -/
theorem longestHead_of_stop {k : Nat} (inside : k < (splitlines content).length) (few : k ≤ maxLines)
    (small : countBytes ((splitlines content).take k).flatten ≤ maxBytes)
    (why : maxLines ≤ k ∨ maxBytes < countBytes ((splitlines content).take (k + 1)).flatten) :
    LongestHead content maxLines maxBytes ((splitlines content).take k).flatten := by
  refine ⟨⟨k, rfl⟩, ⟨by rw [countLines_take content (by omega)]; exact few, small⟩, ?_⟩
  rintro front ⟨j, rfl⟩ ⟨lines, bytes⟩
  by_cases below : j ≤ k
  · exact flatten_take_prefix below
  · exfalso
    have more : maxBytes < countBytes ((splitlines content).take (k + 1)).flatten := by
      rcases why with full | large
      · have counted : k + 1 ≤ countLines ((splitlines content).take j).flatten := by
          by_cases some_ : j ≤ (splitlines content).length
          · rw [countLines_take content some_]
            omega
          · rw [List.take_of_length_le (by omega), ← List.take_length (l := splitlines content),
              countLines_take content (Nat.le_refl _)]
            omega
        omega
      · exact large
    have grows := @countBytes_flatten_mono (splitlines content) (k + 1) j (by omega)
    omega

theorem longestHead_self (lines : countLines content ≤ maxLines) (bytes : countBytes content ≤ maxBytes) :
    LongestHead content maxLines maxBytes content := by
  refine ⟨⟨(splitlines content).length, ?_⟩, ⟨lines, bytes⟩, fun front whole _ => headOf_prefix whole⟩
  rw [List.take_length, flatten_splitlines]

theorem countBytes_line_le {line : Text} (member : line ∈ splitlines content) :
    countBytes line ≤ countBytes content := by
  obtain ⟨front, back, split⟩ := List.append_of_mem member
  have whole := flatten_splitlines content
  rw [split, List.flatten_append, List.flatten_cons] at whole
  rw [← whole, countBytes_append, countBytes_append]
  omega

/-- The head keeps its promises exactly when the ending of the first line is not what overflows. -/
theorem headKept_iff (linesPos : 1 ≤ maxLines) :
    HeadKept content maxLines maxBytes (headWithin content maxLines maxBytes) ↔ ¬ EndingOverflows content maxBytes := by
  unfold headWithin
  by_cases fits : countLines content ≤ maxLines ∧ countBytes content ≤ maxBytes
  · rw [if_pos fits]
    refine iff_of_true ⟨longestHead_self fits.1 fits.2, by simp [makeResult], fun empty full => absurd empty full⟩ ?_
    rintro ⟨line, rest, found, _, large⟩
    have among : line ∈ splitlines content := by rw [found]; exact List.mem_cons_self
    have small := countBytes_line_le among
    omega
  rw [if_neg fits]
  cases found : splitlines content with
  | nil =>
    have empty : content = [] := by rw [← flatten_splitlines content, found, List.flatten_nil]
    subst empty
    exact absurd ⟨Nat.zero_le _, Nat.zero_le _⟩ fits
  | cons line rest =>
  have nonempty : content ≠ [] := by
    rintro rfl
    cases found
  by_cases first : maxBytes < countBytes (stripLineEnding line)
  · simp only [List.head?_cons, Option.any_some, first, decide_true, if_true]
    have strip := countBytes_stripLineEnding_le line
    refine iff_of_true ⟨⟨⟨0, rfl⟩, ⟨Nat.zero_le _, Nat.zero_le _⟩, ?_⟩, ?_, fun _ _ => rfl⟩ ?_
    · rintro front ⟨k, rfl⟩ ⟨_, small⟩
      cases k with
      | zero => exact List.prefix_rfl
      | succ k =>
        rw [found, List.take_succ_cons, List.flatten_cons, countBytes_append] at small
        omega
    · simpa [makeResult] using nonempty.symm
    · rintro ⟨line', rest', found', small, _⟩
      rw [found, List.cons.injEq] at found'
      rw [← found'.1] at small
      omega
  · simp only [List.head?_cons, Option.any_some, first, decide_false, Bool.false_eq_true, if_false]
    obtain ⟨k, inside, few, small, ends⟩ :=
      headLoop_spec maxLines maxBytes (splitlines content) [] 0 (Nat.zero_le _) (Nat.zero_le _)
    simp only [List.length_nil, Nat.zero_add, List.nil_append] at few small ends
    rcases ends with ⟨all, _⟩ | ⟨some_, why, kind, result⟩
    · rw [all, List.take_length, flatten_splitlines] at small
      rw [all, ← countLines_eq] at few
      exact absurd ⟨few, small⟩ fits
    rw [← found, result]
    have longest := longestHead_of_stop some_ few small why
    have shorter : ((splitlines content).take k).flatten ≠ content := by
      intro same
      have counted := countLines_take content inside
      rw [same, countLines_eq] at counted
      omega
    have empty_iff : ((splitlines content).take k).flatten = [] ↔ k = 0 := by
      constructor
      · intro empty
        have none_ := lines_eq_nil (fun line member => List.mem_of_mem_take member) empty
        have length := congrArg List.length none_
        rw [List.length_take, List.length_nil] at length
        omega
      · rintro rfl
        rfl
    have overflows_iff : EndingOverflows content maxBytes ↔ k = 0 := by
      constructor
      · rintro ⟨line', rest', found', _, large⟩
        by_contra positive
        rw [found'] at small
        have one : 1 ≤ k := by omega
        have grows := @countBytes_flatten_mono (line' :: rest') 1 k one
        simp only [List.take_succ_cons, List.take_zero, List.flatten_cons, List.flatten_nil, List.append_nil] at grows
        omega
      · rintro rfl
        refine ⟨line, rest, found, Nat.le_of_not_lt first, ?_⟩
        rcases why with full | large
        · omega
        · simpa [found] using large
    rw [overflows_iff]
    constructor
    · rintro kept rfl
      have flag := kept.flagged rfl nonempty
      cases flag
    · intro positive
      exact ⟨longest, by simpa [makeResult, lateReason] using shorter, fun empty _ => absurd (empty_iff.mp empty) positive⟩

end Head

/-! ## The clip -/

section Clip
variable {content line : Text} {maxBytes : Nat}

theorem countBytes_suffix_le {back whole : Text} (suffix_ : back <:+ whole) : countBytes back ≤ countBytes whole := by
  obtain ⟨front, rfl⟩ := suffix_
  rw [countBytes_append]
  omega

/-- Suffixes of one text that are as long in bytes are equal. -/
theorem suffix_eq {one other : Text} (first : one <:+ content) (second : other <:+ content)
    (same : countBytes one = countBytes other) : one = other := by
  have equal : ∀ {one other : Text}, one <:+ other → countBytes one = countBytes other → one = other := by
    rintro one other ⟨front, rfl⟩ same
    rw [countBytes_append] at same
    by_cases empty : front = []
    · rw [empty, List.nil_append]
    · have positive := countBytes_pos empty
      omega
  rcases List.suffix_or_suffix_of_suffix first second with inner | inner
  · exact equal inner same
  · exact (equal inner same.symm).symm

theorem LongestSuffix.extend {output : Text} (longest : LongestSuffix line maxBytes output) (ends : line <:+ content)
    (large : maxBytes < countBytes line) : LongestSuffix content maxBytes output := by
  refine ⟨List.IsSuffix.trans longest.suffix_ ends, longest.fits, fun back suffix_ small => ?_⟩
  rcases List.suffix_or_suffix_of_suffix suffix_ ends with inner | outer
  · exact longest.longest back inner small
  · have grows := countBytes_suffix_le outer
    omega

theorem LongestSuffix.of_exact {output : Text} (suffix_ : output <:+ content) (exact_ : countBytes output = maxBytes) :
    LongestSuffix content maxBytes output := by
  refine ⟨suffix_, Nat.le_of_eq exact_, fun back among small => ?_⟩
  rcases List.suffix_or_suffix_of_suffix among suffix_ with inner | outer
  · exact inner
  · have grows := countBytes_suffix_le outer
    have same : back = output := suffix_eq among suffix_ (by omega)
    exact same ▸ List.suffix_rfl

/-- The search ends at the first position whose suffix fits. -/
theorem searchCut_spec (rounds left right : Nat) (ordered : left ≤ right) (enough : right - left ≤ rounds)
    (below : ∀ p < left, maxBytes < countBytes (line.drop p)) (there : countBytes (line.drop right) ≤ maxBytes) :
    (∀ p < searchCut line maxBytes rounds left right, maxBytes < countBytes (line.drop p)) ∧
      countBytes (line.drop (searchCut line maxBytes rounds left right)) ≤ maxBytes := by
  induction rounds generalizing left right with
  | zero =>
    have meets : left = right := by omega
    subst meets
    exact ⟨below, there⟩
  | succ rounds ih =>
    unfold searchCut
    by_cases apart : left < right
    · rw [if_pos apart]
      by_cases large : maxBytes < countBytes (line.drop ((left + right) / 2))
      · rw [if_pos large]
        refine ih _ _ (by omega) (by omega) (fun p before => ?_) there
        have shorter : line.drop ((left + right) / 2) <:+ line.drop p := by
          have position : (left + right) / 2 = p + ((left + right) / 2 - p) := by omega
          rw [position, ← List.drop_drop]
          exact List.drop_suffix _ _
        have grows := countBytes_suffix_le shorter
        omega
      · rw [if_neg large]
        exact ih _ _ (by omega) (by omega) below (Nat.le_of_not_lt large)
    · rw [if_neg apart]
      have meets : left = right := by omega
      subst meets
      exact ⟨below, there⟩

theorem longestSuffix_searchCut :
    LongestSuffix line maxBytes
      (line.drop (searchCut line maxBytes line.length (line.length - maxBytes) line.length)) := by
  have below : ∀ p < line.length - maxBytes, maxBytes < countBytes (line.drop p) := by
    intro p before
    have few := length_le_encode (line.drop p)
    rw [List.length_drop] at few
    unfold countBytes
    omega
  obtain ⟨before, fits⟩ := searchCut_spec line.length (line.length - maxBytes) line.length (by omega) (by omega) below
    (by rw [List.drop_length]; exact Nat.zero_le _)
  refine ⟨List.drop_suffix _ _, fits, ?_⟩
  rintro back ⟨front, split⟩ small
  have dropped : line.drop front.length = back := by
    rw [← split]
    exact List.drop_left
  by_cases inner : searchCut line maxBytes line.length (line.length - maxBytes) line.length ≤ front.length
  · have position : front.length = searchCut line maxBytes line.length (line.length - maxBytes) line.length +
        (front.length - searchCut line maxBytes line.length (line.length - maxBytes) line.length) := by omega
    rw [← dropped, position, ← List.drop_drop]
    exact List.drop_suffix _ _
  · have large := before front.length (by omega)
    rw [dropped] at large
    omega

/-- The bytes the clip is decoded from. -/
theorem encode_suffix_eq {back : Text} (suffix_ : back <:+ line) (exact_ : countBytes back = maxBytes) :
    (encode line).drop ((encode line).length - maxBytes) = encode back := by
  obtain ⟨front, rfl⟩ := suffix_
  unfold countBytes at exact_
  rw [encode_append, List.length_append]
  exact List.drop_left' (by omega)

/-- The clip of a line that is too long is the longest suffix of the text, unless it recombines. -/
theorem longestSuffix_clip_iff (last : (splitlines content).getLast? = some line) (large : maxBytes < countBytes line) :
    LongestSuffix content maxBytes (truncateUtf8Suffix line maxBytes).1 ↔ ¬ ClipRecombines content maxBytes := by
  have ends : line <:+ content := by
    obtain ⟨front, split⟩ := List.getLast?_eq_some_iff.mp last
    have whole := flatten_splitlines content
    rw [split, List.flatten_append, List.flatten_cons, List.flatten_nil, List.append_nil] at whole
    exact ⟨_, whole⟩
  unfold truncateUtf8Suffix
  rw [if_neg (show ¬ (encode line).length ≤ maxBytes by unfold countBytes at large; omega)]
  cases decoded : decodeStrict ((encode line).drop ((encode line).length - maxBytes)) with
  | none =>
    refine iff_of_true (longestSuffix_searchCut.extend ends large) ?_
    rintro ⟨line', clip, last', _, suffix_, exact_, _, valid⟩
    rw [last, Option.some.injEq] at last'
    subst last'
    rw [← encode_suffix_eq suffix_ exact_, decoded] at valid
    cases valid
  | some chars =>
    have bytes := decodeStrict_eq_some.mp decoded
    have size : countBytes (chars.map .scalar) = maxBytes := by
      unfold countBytes
      rw [← bytes, List.length_drop]
      unfold countBytes at large
      omega
    constructor
    · rintro longest ⟨line', clip, last', _, suffix_, exact_, escaped, _⟩
      rw [last, Option.some.injEq] at last'
      subst last'
      have same := suffix_eq longest.suffix_ (List.IsSuffix.trans suffix_ ends) (size.trans exact_.symm)
      rw [← same, any_isEscaped_scalars] at escaped
      cases escaped
    · intro clean
      have split : encode line = (encode line).take ((encode line).length - maxBytes) ++ encode (chars.map .scalar) := by
        rw [← bytes, List.take_append_drop]
      obtain ⟨front, back, cut, same⟩ := exists_cut split
      have suffix_ : back <:+ line := ⟨front, cut.symm⟩
      have exact_ : countBytes back = maxBytes := by
        rw [← size]
        unfold countBytes
        rw [same]
      have plain : back.any Character.isEscaped = false := by
        by_contra escaped
        refine clean ⟨line, back, last, large, suffix_, exact_, Bool.not_eq_false _ ▸ escaped, ?_⟩
        rw [same, ← bytes, decoded]
        rfl
      obtain ⟨others, rfl⟩ := exists_scalars plain
      have equal := scalars_injective same
      dsimp only
      rw [← equal]
      exact LongestSuffix.of_exact (List.IsSuffix.trans suffix_ ends) exact_

/-- Recombined or not, the clip is a suffix in bytes and within the limit. -/
theorem encode_clip (large : maxBytes < countBytes line) :
    encode (truncateUtf8Suffix line maxBytes).1 <:+ encode line ∧
      countBytes (truncateUtf8Suffix line maxBytes).1 ≤ maxBytes := by
  unfold truncateUtf8Suffix
  rw [if_neg (show ¬ (encode line).length ≤ maxBytes by unfold countBytes at large; omega)]
  cases decoded : decodeStrict ((encode line).drop ((encode line).length - maxBytes)) with
  | none =>
    obtain ⟨⟨front, split⟩, fits, _⟩ := @longestSuffix_searchCut line maxBytes
    refine ⟨⟨encode front, ?_⟩, fits⟩
    rw [← encode_append, split]
  | some chars =>
    have bytes := decodeStrict_eq_some.mp decoded
    unfold countBytes
    rw [← bytes]
    exact ⟨List.drop_suffix _ _, by rw [List.length_drop]; omega⟩

end Clip

/-! ## The tail -/

section Tail
variable {content : Text} {maxLines maxBytes : Nat}

theorem tailOf_suffix {back : Text} (whole : TailOf content back) : back <:+ content := by
  obtain ⟨k, rfl⟩ := whole
  refine ⟨((splitlines content).take k).flatten, ?_⟩
  rw [← List.flatten_append, List.take_append_drop, flatten_splitlines]

theorem flatten_drop_suffix {lines : List Text} {j k : Nat} (below : j ≤ k) :
    (lines.drop k).flatten <:+ (lines.drop j).flatten := by
  obtain ⟨more, rfl⟩ := Nat.exists_eq_add_of_le below
  refine ⟨((lines.drop j).take more).flatten, ?_⟩
  rw [← List.flatten_append, ← List.drop_drop, List.take_append_drop]

/-- Lines in reverse order are as long in bytes. -/
theorem countBytes_reverse (lines : List Text) : countBytes lines.reverse.flatten = countBytes lines.flatten := by
  induction lines with
  | nil => rfl
  | cons line rest ih =>
    rw [List.reverse_cons, List.flatten_append, List.flatten_cons, List.flatten_nil, countBytes_append, ih,
      List.append_nil, List.flatten_cons, countBytes_append]
    omega

theorem longestTail_self (lines : countLines content ≤ maxLines) (bytes : countBytes content ≤ maxBytes) :
    LongestTail content maxLines maxBytes content :=
  ⟨⟨0, by rw [List.drop_zero, flatten_splitlines]⟩, ⟨lines, bytes⟩, fun _ whole _ => tailOf_suffix whole⟩

/-- No more than the last `k` lines fit where the loop stopped. -/
theorem longestTail_of_stop {k : Nat} (inside : k < (splitlines content).length) (few : k ≤ maxLines)
    (small : countBytes ((splitlines content).drop ((splitlines content).length - k)).flatten ≤ maxBytes)
    (why : maxLines ≤ k ∨
      maxBytes < countBytes ((splitlines content).drop ((splitlines content).length - (k + 1))).flatten) :
    LongestTail content maxLines maxBytes ((splitlines content).drop ((splitlines content).length - k)).flatten := by
  refine ⟨⟨_, rfl⟩, ⟨by rw [countLines_drop]; omega, small⟩, ?_⟩
  rintro back ⟨j, rfl⟩ ⟨lines, bytes⟩
  rw [countLines_drop] at lines
  by_cases below : (splitlines content).length - k ≤ j
  · exact flatten_drop_suffix below
  · exfalso
    rcases why with full | large
    · omega
    · have grows := countBytes_suffix_le
        (@flatten_drop_suffix (splitlines content) j ((splitlines content).length - (k + 1)) (by omega))
      omega

/-- A last line that is too long is clipped. -/
theorem tailWithin_of_long {line : Text} (linesPos : 1 ≤ maxLines) (last : (splitlines content).getLast? = some line)
    (large : maxBytes < countBytes line) :
    (tailWithin content maxLines maxBytes).content = (truncateUtf8Suffix line maxBytes).1 ∧
      (tailWithin content maxLines maxBytes).truncated = true := by
  have grows := countBytes_line_le (List.mem_of_getLast? last)
  obtain ⟨front, split⟩ := List.getLast?_eq_some_iff.mp last
  have reversed : (splitlines content).reverse = line :: front.reverse := by
    rw [split, List.reverse_append]
    rfl
  unfold tailWithin
  rw [if_neg (by omega), reversed]
  unfold tailLoop
  rw [if_neg (show ¬ maxLines ≤ ([] : List Text).length by simp; omega), if_pos (by omega), if_pos rfl]
  dsimp only
  rw [List.reverse_singleton, List.flatten_singleton]
  exact ⟨rfl, rfl⟩

/-- The tail keeps its promises exactly when the clip of the last line does not recombine. -/
theorem tailKept_iff (linesPos : 1 ≤ maxLines) :
    TailKept content maxLines maxBytes (tailWithin content maxLines maxBytes) ↔ ¬ ClipRecombines content maxBytes := by
  by_cases long : LastLineTooLong content maxBytes
  · obtain ⟨line, last, large⟩ := long
    obtain ⟨output, truncated⟩ := tailWithin_of_long linesPos last large
    have clip := longestSuffix_clip_iff last large
    have shorter : (truncateUtf8Suffix line maxBytes).1 ≠ content := by
      intro same
      have small := (encode_clip large).2
      have grows := countBytes_line_le (List.mem_of_getLast? last)
      rw [same] at small
      omega
    constructor
    · intro kept
      have longest := kept.clipped ⟨line, last, large⟩
      rw [output] at longest
      exact clip.mp longest
    · refine fun clean => ⟨fun short => absurd ⟨line, last, large⟩ short, fun _ => ?_, iff_of_true truncated ?_⟩
      · rw [output]
        exact clip.mpr clean
      · rw [output]
        exact shorter
  have clean : ¬ ClipRecombines content maxBytes := by
    rintro ⟨line, clip, last, large, _⟩
    exact long ⟨line, last, large⟩
  refine iff_of_true ?_ clean
  unfold tailWithin
  by_cases fits : countLines content ≤ maxLines ∧ countBytes content ≤ maxBytes
  · rw [if_pos fits]
    exact ⟨fun _ => longestTail_self fits.1 fits.2, fun long' => absurd long' long, by simp [makeResult]⟩
  rw [if_neg fits]
  have begins : ∀ line, (splitlines content).reverse.head? = some line → 0 + countBytes line ≤ maxBytes := by
    intro line first
    rw [List.head?_reverse] at first
    by_contra large
    exact long ⟨line, first, by omega⟩
  rw [tailLoop_eq maxLines maxBytes _ [] 0 fun _ => begins]
  obtain ⟨k, inside, few, small, ends⟩ :=
    headLoop_spec maxLines maxBytes (splitlines content).reverse [] 0 (Nat.zero_le _) (Nat.zero_le _)
  simp only [List.length_nil, Nat.zero_add, List.nil_append, List.length_reverse] at inside few small ends
  have taken : ∀ j, ((splitlines content).reverse.take j).reverse =
      (splitlines content).drop ((splitlines content).length - j) := by
    intro j
    rw [List.take_reverse, List.reverse_reverse]
  have bytes : ∀ j, countBytes ((splitlines content).reverse.take j).flatten =
      countBytes ((splitlines content).drop ((splitlines content).length - j)).flatten := by
    intro j
    rw [← taken, countBytes_reverse]
  rw [bytes] at small
  rcases ends with ⟨all, _⟩ | ⟨some_, why, kind, result⟩
  · rw [all, Nat.sub_self, List.drop_zero, flatten_splitlines] at small
    rw [all, ← countLines_eq] at few
    exact absurd ⟨few, small⟩ fits
  rw [bytes] at why
  rw [result]
  dsimp only
  rw [taken]
  have longest := longestTail_of_stop some_ few small why
  refine ⟨fun _ => longest, fun long' => absurd long' long, iff_of_true rfl ?_⟩
  intro same
  have same : ((splitlines content).drop ((splitlines content).length - k)).flatten = content := same
  have counted := countLines_drop content ((splitlines content).length - k)
  rw [same, countLines_eq] at counted
  omega

end Tail

/-! ## Both -/

/-- Truncation keeps whole lines within its limits, and says when it dropped something, exactly when
neither the ending of the first line nor a clip that recombines is in the way. -/
theorem truncation_kept_iff (content : Text) (maxLines maxBytes : Int) (linesPos : 1 ≤ maxLines)
    (bytesPos : 1 ≤ maxBytes) :
    ∃ head tail, truncateHead content maxLines maxBytes = .ok head ∧ truncateTail content maxLines maxBytes = .ok tail ∧
      (HeadKept content maxLines.toNat maxBytes.toNat head ∧ TailKept content maxLines.toNat maxBytes.toNat tail ↔
        ¬ EndingOverflows content maxBytes.toNat ∧ ¬ ClipRecombines content maxBytes.toNat) := by
  have valid : validateLimits maxLines maxBytes = .ok () := by
    unfold validateLimits
    rw [if_neg (by omega), if_neg (by omega)]
  refine ⟨headWithin content maxLines.toNat maxBytes.toNat, tailWithin content maxLines.toNat maxBytes.toNat, ?_, ?_, ?_⟩
  · unfold truncateHead
    rw [valid]
    rfl
  · unfold truncateTail
    rw [valid]
    rfl
  · exact and_congr (headKept_iff (by omega)) (tailKept_iff (by omega))

/-- Two lines of two characters each. -/
def twoLines : Text := "ab\ncd".toList.map .scalar

theorem truncation_kept_iff_twoLines :
    ∃ head tail, truncateHead twoLines 5 3 = .ok head ∧ truncateTail twoLines 5 3 = .ok tail ∧
      (HeadKept twoLines 5 3 head ∧ TailKept twoLines 5 3 tail ↔
        ¬ EndingOverflows twoLines 3 ∧ ¬ ClipRecombines twoLines 3) :=
  truncation_kept_iff twoLines 5 3 (by decide) (by decide)

/-- A text of an `x` and two escaped bytes that are UTF-8 together. -/
def escapedPair : Text := [.scalar 'x', .escaped 0xc3 (by decide), .escaped 0xa9 (by decide)]

/-- With two bytes, the head of `twoLines` is empty and not flagged; the tail of `escapedPair` is a
character the text does not have. -/
theorem truncation_loses :
    (twoLines ≠ [] ∧ (truncateHead twoLines 5 2).toOption.map (fun head => (head.content, head.firstLineExceedsLimit)) =
      some ([], false)) ∧
    ((truncateTail escapedPair 5 2).toOption.map TruncationResult.content = some [.scalar 'é'] ∧
      ¬ [.scalar 'é'] <:+ escapedPair) := by
  refine ⟨⟨by decide, by decide⟩, by decide, ?_⟩
  rintro ⟨front, split⟩
  have last := congrArg List.getLast? split
  rw [List.getLast?_append] at last
  cases last

end Loushang.Exec
