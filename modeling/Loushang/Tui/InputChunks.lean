import Loushang.Lib.Marker
import Loushang.Tui.InputExtract
import Loushang.Tui.InputScan

/-!
# Scans and more text

A scan of a text that comes in two parts finds what a scan of the whole finds, as long as no
marker of a paste begins behind a sequence that is not finished and that the marker would finish.
-/
namespace Loushang.Tui
open Loushang.Lib

section Run
variable {chars : Characters} {s : Scan}

theorem findSub_bound {marker text : Text} {index : Nat} (found : findSub marker text = some index)
    (nonempty : marker ≠ []) : index + marker.length ≤ text.length ∧ text ≠ [] := by
  have bound := (findSub_spec found).1
  have positive := List.length_pos_iff.mpr nonempty
  refine ⟨bound, ?_⟩
  intro empty
  rw [empty, List.length_nil] at bound
  omega

theorem pasteStart_length : bracketedPasteStart.length = 6 := rfl

theorem pasteEnd_length : bracketedPasteEnd.length = 6 := rfl

/-- Fuel beyond the length of the buffer changes nothing. -/
theorem scanLoop_enough {fuel : Nat} (enough : s.buffer.length < fuel) :
    scanLoop chars fuel s = Scan.run chars s := by
  unfold Scan.run
  induction fuel using Nat.strong_induction_on generalizing s with
  | _ fuel ih =>
    obtain ⟨turns, rfl⟩ : ∃ turns, fuel = turns + 1 := ⟨fuel - 1, by omega⟩
    by_cases empty : s.buffer = []
    · rw [scanLoop_empty _ _ empty, scanLoop_empty _ _ empty]
    have positive := List.length_pos_iff.mpr empty
    have same : ∀ next : Scan, next.buffer.length < s.buffer.length →
        scanLoop chars turns next = scanLoop chars s.buffer.length next := by
      intro next shorter
      by_cases more : s.buffer.length < turns + 1
      · rw [ih turns (by omega) (by omega), ih s.buffer.length more shorter]
      · omega
    cases inside : s.inPaste with
    | true =>
      cases ended : findSub bracketedPasteEnd s.buffer with
      | none => rw [scanLoop_waiting empty inside ended, scanLoop_waiting empty inside ended]
      | some endIndex =>
        rw [scanLoop_pasted empty inside ended, scanLoop_pasted empty inside ended, same]
        dsimp only
        rw [List.length_drop, pasteEnd_length]
        omega
    | false =>
      cases found : findSub bracketedPasteStart s.buffer with
      | none => rw [scanLoop_plain empty inside found, scanLoop_plain empty inside found]
      | some start =>
        by_cases front : start = 0
        · subst front
          rw [scanLoop_start empty inside found, scanLoop_start empty inside found, same]
          dsimp only
          rw [List.length_drop, pasteStart_length]
          omega
        · by_cases clear : (extractCompleteSequences chars (s.buffer.take start)).2 = []
          · rw [scanLoop_before empty inside found front clear,
              scanLoop_before empty inside found front clear, same]
            dsimp only
            rw [List.length_drop]
            omega
          · rw [scanLoop_stuck empty inside found front clear,
              scanLoop_stuck empty inside found front clear]

theorem extract_nil (chars : Characters) : extractCompleteSequences chars [] = ([], []) := rfl

theorem run_waiting (inside : s.inPaste = true) (ended : findSub bracketedPasteEnd s.buffer = none) :
    Scan.run chars s =
      ([], { s with
        pasteBuffer := s.pasteBuffer ++ (splitPastePayload s.buffer).1
        buffer := (splitPastePayload s.buffer).2 }) := by
  by_cases empty : s.buffer = []
  · obtain ⟨buffer, pasteBuffer, inPaste⟩ := s
    dsimp only at empty
    subst empty
    rw [Scan.run, scanLoop_empty _ _ rfl]
    have nothing : splitPastePayload [] = ([], []) := rfl
    rw [nothing, List.append_nil]
  · exact scanLoop_waiting empty inside ended

theorem run_pasted (inside : s.inPaste = true) {endIndex : Nat}
    (ended : findSub bracketedPasteEnd s.buffer = some endIndex) :
    Scan.run chars s =
      (.paste (s.pasteBuffer ++ s.buffer.take endIndex) ::
          (Scan.run chars { buffer := s.buffer.drop (endIndex + 6) }).1,
        (Scan.run chars { buffer := s.buffer.drop (endIndex + 6) }).2) := by
  obtain ⟨bound, nonempty⟩ := findSub_bound ended (by decide)
  rw [pasteEnd_length] at bound
  rw [Scan.run, scanLoop_pasted nonempty inside ended, scanLoop_enough]
  · rfl
  · dsimp only
    rw [List.length_drop, pasteEnd_length]
    omega

theorem run_plain (outside : s.inPaste = false) (absent : findSub bracketedPasteStart s.buffer = none) :
    Scan.run chars s =
      ((extractCompleteSequences chars s.buffer).1.map .sequence,
        { s with buffer := (extractCompleteSequences chars s.buffer).2 }) := by
  by_cases empty : s.buffer = []
  · obtain ⟨buffer, pasteBuffer, inPaste⟩ := s
    dsimp only at empty
    subst empty
    rw [Scan.run, scanLoop_empty _ _ rfl]
    rfl
  · exact scanLoop_plain empty outside absent

/-- The text before a paste is made of complete sequences. -/
theorem run_start (outside : s.inPaste = false) {start : Nat}
    (found : findSub bracketedPasteStart s.buffer = some start)
    (clear : (extractCompleteSequences chars (s.buffer.take start)).2 = []) :
    Scan.run chars s =
      ((extractCompleteSequences chars (s.buffer.take start)).1.map .sequence ++
          .pasteStart :: (Scan.run chars { buffer := s.buffer.drop (start + 6), inPaste := true }).1,
        (Scan.run chars { buffer := s.buffer.drop (start + 6), inPaste := true }).2) := by
  obtain ⟨bound, nonempty⟩ := findSub_bound found (by decide)
  rw [pasteStart_length] at bound
  have front : ∀ (next : Scan) (fuel : Nat), next.buffer.length < fuel + 1 → next.inPaste = false →
      findSub bracketedPasteStart next.buffer = some 0 →
      scanLoop chars (fuel + 1) next =
        (.pasteStart :: (Scan.run chars { buffer := next.buffer.drop 6, inPaste := true }).1,
          (Scan.run chars { buffer := next.buffer.drop 6, inPaste := true }).2) := by
    intro next fuel enough outside found
    obtain ⟨bound, nonempty⟩ := findSub_bound found (by decide)
    rw [pasteStart_length] at bound
    rw [scanLoop_start nonempty outside found, scanLoop_enough]
    · rfl
    · dsimp only
      rw [List.length_drop, pasteStart_length]
      omega
  by_cases atFront : start = 0
  · subst atFront
    rw [List.take_zero, extract_nil, List.map_nil, List.nil_append, Nat.zero_add]
    exact front s _ (by omega) outside found
  · rw [Scan.run, scanLoop_before nonempty outside found atFront clear]
    have dropped : findSub bracketedPasteStart (s.buffer.drop start) = some 0 := findSub_drop found
    obtain ⟨turns, same⟩ : ∃ turns, s.buffer.length = turns + 1 := ⟨s.buffer.length - 1, by omega⟩
    rw [same, front { s with buffer := s.buffer.drop start } turns _ outside dropped]
    · rw [List.drop_drop]
    · dsimp only
      rw [List.length_drop]
      omega

/-- A sequence before a marker is not finished: the marker has to wait with it. -/
theorem run_stuck (outside : s.inPaste = false) {start : Nat}
    (found : findSub bracketedPasteStart s.buffer = some start)
    (stuck : (extractCompleteSequences chars (s.buffer.take start)).2 ≠ []) :
    Scan.run chars s =
      ((extractCompleteSequences chars (s.buffer.take start)).1.map .sequence,
        { s with
          buffer := (extractCompleteSequences chars (s.buffer.take start)).2 ++ s.buffer.drop start }) := by
  obtain ⟨_, nonempty⟩ := findSub_bound found (by decide)
  refine scanLoop_stuck nonempty outside found ?_ stuck
  intro front
  rw [front, List.take_zero, extract_nil] at stuck
  exact stuck rfl

end Run

/-! ## The end of a paste -/

/-- A search downwards finds the greatest number. -/
theorem findDown_spec (p : Nat → Bool) (limit : Nat) :
    match (List.range' 1 limit).reverse.find? p with
    | some found => p found = true ∧ 1 ≤ found ∧ found ≤ limit ∧
        ∀ other, found < other → other ≤ limit → p other = false
    | none => ∀ other, 1 ≤ other → other ≤ limit → p other = false := by
  induction limit with
  | zero =>
    intro other positive bound
    omega
  | succ limit ih =>
    rw [List.range'_1_concat, List.reverse_append, List.reverse_singleton, List.singleton_append,
      List.find?_cons, Nat.add_comm 1 limit]
    cases top : p (limit + 1) with
    | true =>
      refine ⟨top, by omega, by omega, ?_⟩
      intro other above bound
      omega
    | false =>
      dsimp only
      cases below : (List.range' 1 limit).reverse.find? p with
      | some found =>
        rw [below] at ih
        obtain ⟨holds, positive, bound, above⟩ := ih
        refine ⟨holds, positive, by omega, ?_⟩
        intro other greater inside
        by_cases last : other = limit + 1
        · rw [last]
          exact top
        · exact above other greater (by omega)
      | none =>
        rw [below] at ih
        intro other positive inside
        by_cases last : other = limit + 1
        · rw [last]
          exact top
        · exact ih other positive (by omega)

/-- The end of the text that is kept back is the longest that the marker may begin with. -/
theorem splitPastePayload_eq (text : Text) :
    splitPastePayload text =
      (text.take (text.length - (held bracketedPasteEnd text).length), held bracketedPasteEnd text) := by
  have suffix := held_suffix bracketedPasteEnd text
  have begins := held_begins bracketedPasteEnd text
  have short := held_length bracketedPasteEnd text (by decide)
  rw [pasteEnd_length] at short
  have kept : text.drop (text.length - (held bracketedPasteEnd text).length) =
      held bracketedPasteEnd text := (List.suffix_iff_eq_drop.mp suffix).symm
  have atMost := suffix.length_le
  have longest : ∀ length, length ≤ text.length → length < 6 →
      (text.drop (text.length - length)).isPrefixOf bracketedPasteEnd = true →
      length ≤ (held bracketedPasteEnd text).length := by
    intro length inside small front
    have reach := held_longest (List.drop_suffix (text.length - length) text)
      (by rw [List.length_drop, pasteEnd_length]; omega) (List.isPrefixOf_iff_prefix.mp front)
    rw [List.length_drop] at reach
    omega
  unfold splitPastePayload
  dsimp only
  rw [pasteEnd_length]
  have found := findDown_spec
    (fun length => (text.drop (text.length - length)).isPrefixOf bracketedPasteEnd)
    (min text.length (6 - 1))
  split
  · next length searched =>
    rw [searched] at found
    obtain ⟨front, positive, bound, above⟩ := found
    have reach := longest length (by omega) (by omega) front
    have same : length = (held bracketedPasteEnd text).length := by
      by_cases less : length < (held bracketedPasteEnd text).length
      · have fails := above _ less (by omega)
        rw [kept, List.isPrefixOf_iff_prefix.mpr begins] at fails
        cases fails
      · omega
    rw [same, kept]
  · next searched =>
    rw [searched] at found
    have nothing : (held bracketedPasteEnd text).length = 0 := by
      by_cases positive : 1 ≤ (held bracketedPasteEnd text).length
      · have fails := found _ positive (by omega)
        rw [kept, List.isPrefixOf_iff_prefix.mpr begins] at fails
        cases fails
      · omega
    rw [nothing, Nat.sub_zero, List.take_length, List.eq_nil_of_length_eq_zero nothing]

/-! ## Markers -/

/-- A sequence that is not finished waits on through the beginning of a paste's marker. -/
def Swallows (chars : Characters) (remainder : Text) : Prop :=
  nextSequence chars (remainder ++ bracketedPasteStart.take 5) = none

/-- Every paste outside a paste begins behind complete sequences, or its marker is swallowed by a
sequence that is not finished and the paste does not end. -/
def MarkersFit (chars : Characters) (s : Scan) : Prop :=
  if s.inPaste then
    match _found : findSub bracketedPasteEnd s.buffer with
    | none => True
    | some endIndex => MarkersFit chars { buffer := s.buffer.drop (endIndex + 6) }
  else
    match _found : findSub bracketedPasteStart s.buffer with
    | none => True
    | some start =>
      if (extractCompleteSequences chars (s.buffer.take start)).2 = [] then
        MarkersFit chars { buffer := s.buffer.drop (start + 6), inPaste := true }
      else
        Swallows chars (extractCompleteSequences chars (s.buffer.take start)).2 ∧
          findSub bracketedPasteEnd (s.buffer.drop (start + 6)) = none
termination_by s.buffer.length
decreasing_by
  · have bound := (findSub_bound _found (by decide)).1
    rw [pasteEnd_length] at bound
    rw [List.length_drop]
    omega
  · have bound := (findSub_bound _found (by decide)).1
    rw [pasteStart_length] at bound
    rw [List.length_drop]
    omega

section Markers
variable {chars : Characters} {s : Scan}

theorem markersFit_waiting (inside : s.inPaste = true)
    (ended : findSub bracketedPasteEnd s.buffer = none) : MarkersFit chars s := by
  rw [MarkersFit, if_pos inside]
  split
  · trivial
  · next found =>
    rw [ended] at found
    cases found

theorem markersFit_pasted (inside : s.inPaste = true) {endIndex : Nat}
    (ended : findSub bracketedPasteEnd s.buffer = some endIndex) :
    MarkersFit chars s ↔ MarkersFit chars { buffer := s.buffer.drop (endIndex + 6) } := by
  rw [MarkersFit, if_pos inside]
  split
  · next found =>
    rw [ended] at found
    cases found
  · next other found =>
    rw [ended] at found
    cases found
    exact Iff.rfl

theorem markersFit_plain (outside : s.inPaste = false)
    (absent : findSub bracketedPasteStart s.buffer = none) : MarkersFit chars s := by
  rw [MarkersFit, outside, if_neg Bool.false_ne_true]
  split
  · trivial
  · next found =>
    rw [absent] at found
    cases found

theorem markersFit_start (outside : s.inPaste = false) {start : Nat}
    (found : findSub bracketedPasteStart s.buffer = some start)
    (clear : (extractCompleteSequences chars (s.buffer.take start)).2 = []) :
    MarkersFit chars s ↔ MarkersFit chars { buffer := s.buffer.drop (start + 6), inPaste := true } := by
  rw [MarkersFit, outside, if_neg Bool.false_ne_true]
  split
  · next absent =>
    rw [found] at absent
    cases absent
  · next other again =>
    rw [found] at again
    cases again
    rw [if_pos clear]

theorem markersFit_stuck (outside : s.inPaste = false) {start : Nat}
    (found : findSub bracketedPasteStart s.buffer = some start)
    (stuck : (extractCompleteSequences chars (s.buffer.take start)).2 ≠ []) :
    MarkersFit chars s ↔
      Swallows chars (extractCompleteSequences chars (s.buffer.take start)).2 ∧
        findSub bracketedPasteEnd (s.buffer.drop (start + 6)) = none := by
  rw [MarkersFit, outside, if_neg Bool.false_ne_true]
  split
  · next absent =>
    rw [found] at absent
    cases absent
  · next other again =>
    rw [found] at again
    cases again
    rw [if_neg stuck]

end Markers

/-- More text for a scan. -/
def Scan.more (s : Scan) (text : Text) : Scan := { s with buffer := s.buffer ++ text }

/-- The scan of `s` with more text behind it is the scan of `s` and, where that left off, the scan of
what it left with the text. -/
def Continues (chars : Characters) (s : Scan) (text : Text) : Prop :=
  Scan.run chars (s.more text) =
      ((Scan.run chars s).1 ++ (Scan.run chars ((Scan.run chars s).2.more text)).1,
        (Scan.run chars ((Scan.run chars s).2.more text)).2) ∧
    MarkersFit chars ((Scan.run chars s).2.more text)

section Continue
variable {chars : Characters} {s : Scan} {text : Text}

/-- Inside a paste that has not ended. -/
theorem continues_waiting (inside : s.inPaste = true)
    (ended : findSub bracketedPasteEnd s.buffer = none)
    (fits : MarkersFit chars (s.more text)) : Continues chars s text := by
  obtain ⟨buffer, pasteBuffer, inPaste⟩ := s
  dsimp only at inside ended
  subst inside
  unfold Continues
  rw [@run_waiting chars ⟨buffer, pasteBuffer, true⟩ rfl ended, splitPastePayload_eq]
  dsimp only [Scan.more] at fits ⊢
  have whole := take_append_held bracketedPasteEnd buffer
  have search := @findSub_held _ _ _ _ text ended
  have keeps := held_append bracketedPasteEnd buffer text
  have shorter := (held_suffix bracketedPasteEnd buffer).length_le
  have length : (buffer.take (buffer.length - (held bracketedPasteEnd buffer).length)).length =
      buffer.length - (held bracketedPasteEnd buffer).length := by
    rw [List.length_take]
    omega
  generalize buffer.take (buffer.length - (held bracketedPasteEnd buffer).length) = front at *
  generalize held bracketedPasteEnd buffer = kept at *
  rw [← length] at search
  have split : buffer ++ text = front ++ (kept ++ text) := by rw [← List.append_assoc, whole]
  rw [split] at search fits keeps ⊢
  cases found : findSub bracketedPasteEnd (kept ++ text) with
  | none =>
    rw [found, Option.map_none] at search
    have short := (held_suffix bracketedPasteEnd (kept ++ text)).length_le
    refine ⟨?_, markersFit_waiting rfl found⟩
    rw [run_waiting rfl search, run_waiting rfl found, splitPastePayload_eq, splitPastePayload_eq]
    dsimp only
    rw [← keeps, List.length_append, Nat.add_sub_assoc short, List.take_length_add_append,
      List.append_assoc]
    rfl
  | some endIndex =>
    rw [found, Option.map_some] at search
    have later := (@markersFit_pasted chars ⟨front ++ (kept ++ text), pasteBuffer, true⟩ rfl _ search).mp fits
    dsimp only at later
    rw [Nat.add_assoc, List.drop_length_add_append] at later
    refine ⟨?_, (markersFit_pasted rfl found).mpr later⟩
    rw [@run_pasted chars ⟨front ++ (kept ++ text), pasteBuffer, true⟩ rfl _ search,
      @run_pasted chars ⟨kept ++ text, pasteBuffer ++ front, true⟩ rfl _ found]
    dsimp only
    rw [Nat.add_assoc, List.drop_length_add_append, List.take_length_add_append, List.append_assoc]
    rfl

/-- The marker stands behind what is left before it. -/
theorem findSub_remainder {buffer : Text} {start : Nat}
    (found : findSub bracketedPasteStart buffer = some start) :
    findSub bracketedPasteStart
        ((extractCompleteSequences chars (buffer.take start)).2 ++ buffer.drop start) =
      some (extractCompleteSequences chars (buffer.take start)).2.length := by
  obtain ⟨_, front, split⟩ := extract_remainder chars (buffer.take start)
  have bound := (findSub_bound found (by decide)).1
  generalize (extractCompleteSequences chars (buffer.take start)).2 = left at *
  have lengths := congrArg List.length split
  rw [List.length_append, List.length_take] at lengths
  have whole : buffer = front ++ (left ++ buffer.drop start) := by
    rw [← List.append_assoc, split, List.take_append_drop]
  have shifted := @findSub_drop _ _ bracketedPasteStart buffer front.length left.length
    (by rw [found]; congr 1; omega)
  rw [whole, List.drop_left] at shifted
  exact shifted

/-- A text with a marker in it can be scanned from what is left before the marker. -/
theorem run_remainder {buffer pasteBuffer : Text} {start : Nat}
    (found : findSub bracketedPasteStart buffer = some start) :
    Scan.run chars ⟨buffer, pasteBuffer, false⟩ =
        ((extractCompleteSequences chars (buffer.take start)).1.map .sequence ++
            (Scan.run chars ⟨(extractCompleteSequences chars (buffer.take start)).2 ++ buffer.drop start,
              pasteBuffer, false⟩).1,
          (Scan.run chars ⟨(extractCompleteSequences chars (buffer.take start)).2 ++ buffer.drop start,
            pasteBuffer, false⟩).2) ∧
      (MarkersFit chars ⟨buffer, pasteBuffer, false⟩ ↔
        MarkersFit chars ⟨(extractCompleteSequences chars (buffer.take start)).2 ++ buffer.drop start,
          pasteBuffer, false⟩) := by
  have waits := (extract_remainder chars (buffer.take start)).1
  have again := @findSub_remainder chars buffer start found
  have stuckRun := @run_stuck chars ⟨buffer, pasteBuffer, false⟩ rfl _ found
  have clearRun := @run_start chars ⟨buffer, pasteBuffer, false⟩ rfl _ found
  have stuckFits := @markersFit_stuck chars ⟨buffer, pasteBuffer, false⟩ rfl _ found
  have clearFits := @markersFit_start chars ⟨buffer, pasteBuffer, false⟩ rfl _ found
  dsimp only at stuckRun clearRun stuckFits clearFits
  generalize (extractCompleteSequences chars (buffer.take start)).1 = sequences at *
  generalize (extractCompleteSequences chars (buffer.take start)).2 = left at *
  have behind : (left ++ buffer.drop start).drop (left.length + 6) = buffer.drop (start + 6) := by
    rw [List.drop_length_add_append, List.drop_drop]
  have extracted : extractCompleteSequences chars ((left ++ buffer.drop start).take left.length) =
      ([], left) := by
    rw [List.take_left]
    exact extract_none waits
  by_cases clear : left = []
  · have again' := @run_start chars ⟨left ++ buffer.drop start, pasteBuffer, false⟩ rfl _ again
    have fits' := @markersFit_start chars ⟨left ++ buffer.drop start, pasteBuffer, false⟩ rfl _ again
    dsimp only at again' fits'
    rw [extracted, behind] at again' fits'
    rw [clearRun clear, again' clear, clearFits clear, fits' clear]
    exact ⟨rfl, Iff.rfl⟩
  · have again' := @run_stuck chars ⟨left ++ buffer.drop start, pasteBuffer, false⟩ rfl _ again
    have fits' := @markersFit_stuck chars ⟨left ++ buffer.drop start, pasteBuffer, false⟩ rfl _ again
    dsimp only at again' fits'
    rw [extracted] at again' fits'
    rw [behind] at fits'
    rw [List.drop_left] at again'
    rw [stuckRun clear, again' clear, stuckFits clear, fits' clear, List.map_nil, List.append_nil]
    exact ⟨rfl, Iff.rfl⟩

variable {start : Nat}

/-- Outside a paste, where the marker of the next one is swallowed already. -/
theorem continues_stuck (outside : s.inPaste = false)
    (found : findSub bracketedPasteStart s.buffer = some start)
    (stuck : (extractCompleteSequences chars (s.buffer.take start)).2 ≠ [])
    (fits : MarkersFit chars (s.more text)) : Continues chars s text := by
  obtain ⟨buffer, pasteBuffer, inPaste⟩ := s
  dsimp only at outside found stuck
  subst outside
  have bound := (findSub_bound found (by decide)).1
  obtain ⟨goesOn, keeps⟩ := @run_remainder chars (buffer ++ text) pasteBuffer start
    (findSub_append found)
  rw [List.take_append_of_le_length (by omega), List.drop_append_of_le_length (by omega),
    ← List.append_assoc] at goesOn keeps
  unfold Continues
  rw [@run_stuck chars ⟨buffer, pasteBuffer, false⟩ rfl _ found stuck]
  exact ⟨goesOn, keeps.mp fits⟩

/-- Outside a paste and without a marker so far or in the new text. -/
theorem continues_plain (outside : s.inPaste = false)
    (absent : findSub bracketedPasteStart (s.buffer ++ text) = none) : Continues chars s text := by
  obtain ⟨buffer, pasteBuffer, inPaste⟩ := s
  dsimp only at outside absent
  subst outside
  obtain ⟨_, front, split⟩ := extract_remainder chars buffer
  have later : findSub bracketedPasteStart ((extractCompleteSequences chars buffer).2 ++ text) = none := by
    have dropped := findSub_none_drop absent front.length
    nth_rewrite 1 [← split] at dropped
    rw [List.append_assoc, List.drop_left] at dropped
    exact dropped
  unfold Continues
  rw [@run_plain chars ⟨buffer, pasteBuffer, false⟩ rfl (findSub_none_left absent)]
  dsimp only [Scan.more]
  refine ⟨?_, markersFit_plain rfl later⟩
  rw [run_plain rfl absent, run_plain rfl later, extract_append, List.map_append]

/-- Outside a paste, with the marker of the next one in the new text. -/
theorem continues_behind (outside : s.inPaste = false) (absent : findSub bracketedPasteStart s.buffer = none)
    (found : findSub bracketedPasteStart (s.buffer ++ text) = some start) (behind : s.buffer.length ≤ start)
    (fits : MarkersFit chars (s.more text)) : Continues chars s text := by
  obtain ⟨buffer, pasteBuffer, inPaste⟩ := s
  dsimp only at outside absent found behind
  subst outside
  obtain ⟨_, front, split⟩ := extract_remainder chars buffer
  unfold Continues
  rw [@run_plain chars ⟨buffer, pasteBuffer, false⟩ rfl absent]
  obtain ⟨goesOn, keeps⟩ := @run_remainder chars (buffer ++ text) pasteBuffer start found
  have sequences := extract_append chars buffer (text.take (start - buffer.length))
  have lengths := congrArg List.length split
  rw [List.length_append] at lengths
  have taken : (buffer ++ text).take start = buffer ++ text.take (start - buffer.length) := by
    rw [List.take_append, List.take_of_length_le behind]
  have again : findSub bracketedPasteStart ((extractCompleteSequences chars buffer).2 ++ text) =
      some (start - front.length) := by
    have shifted := @findSub_drop _ _ bracketedPasteStart (buffer ++ text) front.length
      (start - front.length) (by rw [found]; congr 1; omega)
    nth_rewrite 1 [← split] at shifted
    rw [List.append_assoc, List.drop_left] at shifted
    exact shifted
  have left : ((extractCompleteSequences chars buffer).2 ++ text).take (start - front.length) =
      (extractCompleteSequences chars buffer).2 ++ text.take (start - buffer.length) := by
    rw [List.take_append, List.take_of_length_le (by omega)]
    congr 2
    omega
  have right : ((extractCompleteSequences chars buffer).2 ++ text).drop (start - front.length) =
      (buffer ++ text).drop start := by
    rw [List.drop_append, List.drop_append, List.drop_of_length_le (by omega),
      List.drop_of_length_le behind]
    congr 2
    omega
  obtain ⟨goesOnLater, keepsLater⟩ := @run_remainder chars
    ((extractCompleteSequences chars buffer).2 ++ text) pasteBuffer _ again
  rw [left, right] at goesOnLater keepsLater
  rw [taken, sequences] at goesOn keeps
  refine ⟨?_, keepsLater.mpr (keeps.mp fits)⟩
  dsimp only [Scan.more]
  rw [goesOn, goesOnLater, List.map_append, List.append_assoc]

/-- Outside a paste, with the marker of the next one cut in two. -/
theorem continues_cut (outside : s.inPaste = false) (absent : findSub bracketedPasteStart s.buffer = none)
    (found : findSub bracketedPasteStart (s.buffer ++ text) = some start) (cut : start < s.buffer.length)
    (fits : MarkersFit chars (s.more text)) : Continues chars s text := by
  obtain ⟨buffer, pasteBuffer, inPaste⟩ := s
  dsimp only [Scan.more] at outside absent found cut fits
  subst outside
  have stands := (findSub_spec found).2
  rw [List.drop_append_of_le_length (by omega)] at stands
  have standsFront : bracketedPasteStart <+: buffer.drop start ++ text := by
    rw [← stands]
    exact List.take_prefix _ _
  have short : (buffer.drop start).length < 6 := by
    have news := findSub_new absent found
    rw [pasteStart_length] at news
    rw [List.length_drop]
    omega
  have begins : buffer.drop start = bracketedPasteStart.take (buffer.drop start).length :=
    List.prefix_iff_eq_take.mp
      (List.prefix_of_prefix_length_le (List.prefix_append _ _) standsFront (by
        rw [pasteStart_length]
        omega))
  have taken : (buffer ++ text).take start = buffer.take start :=
    List.take_append_of_le_length (by omega)
  have stuckFits := @markersFit_stuck chars ⟨buffer ++ text, pasteBuffer, false⟩ rfl _ found
  obtain ⟨goesOn, keeps⟩ := @run_remainder chars (buffer ++ text) pasteBuffer start found
  dsimp only at stuckFits
  rw [taken] at stuckFits goesOn keeps
  rw [List.drop_append_of_le_length (by omega), ← List.append_assoc] at goesOn keeps
  have sequences := extract_append chars (buffer.take start) (buffer.drop start)
  rw [List.take_append_drop] at sequences
  have waits : nextSequence chars
      ((extractCompleteSequences chars (buffer.take start)).2 ++ buffer.drop start) = none := by
    by_cases clear : (extractCompleteSequences chars (buffer.take start)).2 = []
    · rw [clear, List.nil_append, begins]
      exact pasteStart_waits chars short
    · have swallows := ((stuckFits clear).mp fits).1
      unfold Swallows at swallows
      have split : bracketedPasteStart.take 5 =
          buffer.drop start ++ (bracketedPasteStart.take 5).drop (buffer.drop start).length := by
        have front : (bracketedPasteStart.take 5).take (buffer.drop start).length =
            buffer.drop start := by
          rw [List.take_take, Nat.min_eq_left (by omega), ← begins]
        nth_rewrite 1 [← front]
        rw [List.take_append_drop]
      rw [split, ← List.append_assoc] at swallows
      exact waiting_front swallows
  rw [extract_none waits, List.append_nil] at sequences
  unfold Continues
  rw [@run_plain chars ⟨buffer, pasteBuffer, false⟩ rfl absent]
  dsimp only [Scan.more]
  rw [sequences]
  exact ⟨goesOn, keeps.mp fits⟩

/-- A scan of a text in two parts. -/
theorem run_more (fits : MarkersFit chars (s.more text)) : Continues chars s text := by
  induction length : s.buffer.length using Nat.strong_induction_on generalizing s with
  | _ length ih =>
    cases inside : s.inPaste with
    | true =>
      cases ended : findSub bracketedPasteEnd s.buffer with
      | none => exact continues_waiting inside ended fits
      | some endIndex =>
        obtain ⟨bound, _⟩ := findSub_bound ended (by decide)
        rw [pasteEnd_length] at bound
        have longer : findSub bracketedPasteEnd (s.more text).buffer = some endIndex :=
          findSub_append ended
        have still : (s.more text).inPaste = true := inside
        have later := (markersFit_pasted still longer).mp fits
        have whole : (s.more text).buffer.drop (endIndex + 6) = s.buffer.drop (endIndex + 6) ++ text :=
          List.drop_append_of_le_length (by omega)
        have front : (s.more text).buffer.take endIndex = s.buffer.take endIndex :=
          List.take_append_of_le_length (by omega)
        rw [whole] at later
        obtain ⟨goesOn, keeps⟩ := @ih (s.buffer.drop (endIndex + 6)).length
          (by rw [List.length_drop]; omega) { buffer := s.buffer.drop (endIndex + 6) } later rfl
        unfold Continues
        rw [run_pasted inside ended]
        refine ⟨?_, keeps⟩
        rw [run_pasted still longer, whole, front]
        dsimp only [Scan.more] at goesOn ⊢
        rw [goesOn]
        rfl
    | false =>
      cases found : findSub bracketedPasteStart s.buffer with
      | none =>
        cases whole : findSub bracketedPasteStart (s.buffer ++ text) with
        | none => exact continues_plain inside whole
        | some start =>
          by_cases behind : s.buffer.length ≤ start
          · exact continues_behind inside found whole behind fits
          · exact continues_cut inside found whole (by omega) fits
      | some start =>
        by_cases clear : (extractCompleteSequences chars (s.buffer.take start)).2 = []
        · obtain ⟨bound, _⟩ := findSub_bound found (by decide)
          rw [pasteStart_length] at bound
          have longer : findSub bracketedPasteStart (s.more text).buffer = some start :=
            findSub_append found
          have still : (s.more text).inPaste = false := inside
          have front : (s.more text).buffer.take start = s.buffer.take start :=
            List.take_append_of_le_length (by omega)
          have whole : (s.more text).buffer.drop (start + 6) = s.buffer.drop (start + 6) ++ text :=
            List.drop_append_of_le_length (by omega)
          have clearLonger : (extractCompleteSequences chars ((s.more text).buffer.take start)).2 = [] := by
            rw [front]
            exact clear
          have later := (markersFit_start still longer clearLonger).mp fits
          rw [whole] at later
          obtain ⟨goesOn, keeps⟩ := @ih (s.buffer.drop (start + 6)).length
            (by rw [List.length_drop]; omega)
            { buffer := s.buffer.drop (start + 6), inPaste := true } later rfl
          unfold Continues
          rw [run_start inside found clear]
          refine ⟨?_, keeps⟩
          rw [run_start still longer clearLonger, whole, front]
          dsimp only [Scan.more] at goesOn ⊢
          rw [goesOn, List.append_assoc]
          rfl
        · exact continues_stuck inside found clear fits

end Continue

/-- A scan stops where it cannot go on. -/
theorem run_settled (chars : Characters) (s : Scan) :
    Scan.run chars (Scan.run chars s).2 = ([], (Scan.run chars s).2) := by
  induction length : s.buffer.length using Nat.strong_induction_on generalizing s with
  | _ length ih =>
    cases inside : s.inPaste with
    | true =>
      cases ended : findSub bracketedPasteEnd s.buffer with
      | none =>
        obtain ⟨buffer, pasteBuffer, inPaste⟩ := s
        dsimp only at inside ended
        subst inside
        rw [@run_waiting chars ⟨buffer, pasteBuffer, true⟩ rfl ended, splitPastePayload_eq]
        have keeps := held_append bracketedPasteEnd buffer []
        rw [List.append_nil, List.append_nil] at keeps
        rw [run_waiting rfl (findSub_of_held ended), splitPastePayload_eq]
        dsimp only
        rw [keeps, Nat.sub_self, List.take_zero, List.append_nil]
      | some endIndex =>
        obtain ⟨bound, _⟩ := findSub_bound ended (by decide)
        rw [pasteEnd_length] at bound
        rw [run_pasted inside ended]
        exact ih _ (by rw [List.length_drop]; omega) _ rfl
    | false =>
      cases found : findSub bracketedPasteStart s.buffer with
      | none =>
        obtain ⟨waits, ends⟩ := extract_remainder chars s.buffer
        have absent : findSub bracketedPasteStart (extractCompleteSequences chars s.buffer).2 = none := by
          rw [List.suffix_iff_eq_drop.mp ends]
          exact findSub_none_drop found _
        have still : { s with buffer := (extractCompleteSequences chars s.buffer).2 }.inPaste = false :=
          inside
        rw [run_plain inside found, run_plain still absent]
        dsimp only
        rw [extract_none waits]
        rfl
      | some start =>
        obtain ⟨bound, _⟩ := findSub_bound found (by decide)
        rw [pasteStart_length] at bound
        by_cases clear : (extractCompleteSequences chars (s.buffer.take start)).2 = []
        · rw [run_start inside found clear]
          exact ih _ (by rw [List.length_drop]; omega) _ rfl
        · obtain ⟨buffer, pasteBuffer, inPaste⟩ := s
          dsimp only at inside found clear
          subst inside
          obtain ⟨goesOn, _⟩ := @run_remainder chars buffer pasteBuffer start found
          rw [@run_stuck chars ⟨buffer, pasteBuffer, false⟩ rfl _ found clear] at goesOn ⊢
          rw [Prod.mk.injEq, List.self_eq_append_right] at goesOn
          exact Prod.ext goesOn.1 goesOn.2.symm

end Loushang.Tui
