import Loushang.Tui.InputChunks

/-!
# Pastes by their markers

Which pastes a text holds when only its markers are read, whatever stands before them; and what a
reader that is fed one character at a time keeps in its buffer.
-/
namespace Loushang.Tui
open Loushang.Lib

/-- The texts between a start and the end behind it. -/
def markedPastes (s : Scan) : List Text :=
  if s.inPaste then
    match _found : findSub bracketedPasteEnd s.buffer with
    | none => []
    | some endIndex =>
      (s.pasteBuffer ++ s.buffer.take endIndex) :: markedPastes { buffer := s.buffer.drop (endIndex + 6) }
  else
    match _found : findSub bracketedPasteStart s.buffer with
    | none => []
    | some start => markedPastes { buffer := s.buffer.drop (start + 6), inPaste := true }
termination_by s.buffer.length
decreasing_by
  · have bound := (findSub_bound _found (by decide)).1
    rw [pasteEnd_length] at bound
    rw [List.length_drop]
    omega
  · have bound := (findSub_bound _found (by decide)).1
    rw [pasteStart_length] at bound
    rw [List.length_drop]
    omega

def Token.payload? : Token → Option Text
  | .paste payload => some payload
  | _ => none

/-- The pastes a scan found. -/
def payloads (tokens : List Token) : List Text := tokens.filterMap Token.payload?

section Payloads
variable {chars : Characters} {s : Scan}

theorem payloads_sequences (sequences : List Text) (rest : List Token) :
    payloads (sequences.map .sequence ++ rest) = payloads rest := by
  unfold payloads
  rw [List.filterMap_append]
  have nothing : (sequences.map Token.sequence).filterMap Token.payload? = [] := by
    rw [List.filterMap_eq_nil_iff]
    intro token member
    obtain ⟨sequence, _, rfl⟩ := List.mem_map.mp member
    rfl
  rw [nothing, List.nil_append]

theorem markedPastes_waiting (inside : s.inPaste = true)
    (ended : findSub bracketedPasteEnd s.buffer = none) : markedPastes s = [] := by
  rw [markedPastes, if_pos inside]
  split
  · rfl
  · next found =>
    rw [ended] at found
    cases found

theorem markedPastes_pasted (inside : s.inPaste = true) {endIndex : Nat}
    (ended : findSub bracketedPasteEnd s.buffer = some endIndex) :
    markedPastes s = (s.pasteBuffer ++ s.buffer.take endIndex) ::
      markedPastes { buffer := s.buffer.drop (endIndex + 6) } := by
  rw [markedPastes, if_pos inside]
  split
  · next found =>
    rw [ended] at found
    cases found
  · next found =>
    rw [ended] at found
    cases found
    rfl

theorem markedPastes_plain (outside : s.inPaste = false)
    (absent : findSub bracketedPasteStart s.buffer = none) : markedPastes s = [] := by
  rw [markedPastes, outside, if_neg Bool.false_ne_true]
  split
  · rfl
  · next found =>
    rw [absent] at found
    cases found

theorem markedPastes_start (outside : s.inPaste = false) {start : Nat}
    (found : findSub bracketedPasteStart s.buffer = some start) :
    markedPastes s = markedPastes { buffer := s.buffer.drop (start + 6), inPaste := true } := by
  rw [markedPastes, outside, if_neg Bool.false_ne_true]
  split
  · next absent =>
    rw [found] at absent
    cases absent
  · next again =>
    rw [found] at again
    cases again
    rfl

/-- Where the markers fit, the scan finds every paste they mark. -/
theorem payloads_run (fits : MarkersFit chars s) : payloads (Scan.run chars s).1 = markedPastes s := by
  induction length : s.buffer.length using Nat.strong_induction_on generalizing s with
  | _ length ih =>
    cases inside : s.inPaste with
    | true =>
      cases ended : findSub bracketedPasteEnd s.buffer with
      | none =>
        rw [run_waiting inside ended, markedPastes_waiting inside ended]
        rfl
      | some endIndex =>
        obtain ⟨bound, _⟩ := findSub_bound ended (by decide)
        rw [pasteEnd_length] at bound
        have later := ih _ (by rw [List.length_drop]; omega) ((markersFit_pasted inside ended).mp fits) rfl
        rw [run_pasted inside ended, markedPastes_pasted inside ended, ← later]
        rfl
    | false =>
      cases found : findSub bracketedPasteStart s.buffer with
      | none =>
        have nothing := payloads_sequences (extractCompleteSequences chars s.buffer).1 []
        rw [List.append_nil] at nothing
        rw [run_plain inside found, markedPastes_plain inside found]
        exact nothing
      | some start =>
        obtain ⟨bound, _⟩ := findSub_bound found (by decide)
        rw [pasteStart_length] at bound
        rw [markedPastes_start inside found]
        by_cases clear : (extractCompleteSequences chars (s.buffer.take start)).2 = []
        · have later := ih _ (by rw [List.length_drop]; omega)
            ((markersFit_start inside found clear).mp fits) rfl
          rw [run_start inside found clear, payloads_sequences, ← later]
          rfl
        · obtain ⟨_, ended⟩ := (markersFit_stuck inside found clear).mp fits
          have nothing := payloads_sequences (extractCompleteSequences chars (s.buffer.take start)).1 []
          rw [List.append_nil] at nothing
          rw [run_stuck inside found clear, markedPastes_waiting rfl ended]
          exact nothing

/-- Outside a paste every text without a marker at the front of the buffer waits, and the buffer does
not start with a marker; inside a paste the buffer holds no end. -/
def Resting (chars : Characters) (s : Scan) : Prop :=
  if s.inPaste then findSub bracketedPasteEnd s.buffer = none
  else findSub bracketedPasteStart s.buffer ≠ some 0 ∧
    ∀ length, findSub bracketedPasteStart (s.buffer.take length) = none →
      nextSequence chars (s.buffer.take length) = none

/-- A scan that finds as many pastes as are marked and comes to rest had markers that fit. -/
theorem markersFit_of_rest (counted : (payloads (Scan.run chars s).1).length = (markedPastes s).length)
    (rests : Resting chars (Scan.run chars s).2) : MarkersFit chars s := by
  induction length : s.buffer.length using Nat.strong_induction_on generalizing s with
  | _ length ih =>
    cases inside : s.inPaste with
    | true =>
      cases ended : findSub bracketedPasteEnd s.buffer with
      | none => exact markersFit_waiting inside ended
      | some endIndex =>
        obtain ⟨bound, _⟩ := findSub_bound ended (by decide)
        rw [pasteEnd_length] at bound
        rw [run_pasted inside ended] at counted rests
        rw [markedPastes_pasted inside ended, List.length_cons] at counted
        refine (markersFit_pasted inside ended).mpr
          (ih _ (by rw [List.length_drop]; omega) (Nat.succ.inj counted) rests rfl)
    | false =>
      cases found : findSub bracketedPasteStart s.buffer with
      | none => exact markersFit_plain inside found
      | some start =>
        obtain ⟨bound, _⟩ := findSub_bound found (by decide)
        rw [pasteStart_length] at bound
        rw [markedPastes_start inside found] at counted
        by_cases clear : (extractCompleteSequences chars (s.buffer.take start)).2 = []
        · rw [run_start inside found clear] at counted rests
          rw [payloads_sequences] at counted
          exact (markersFit_start inside found clear).mpr
            (ih _ (by rw [List.length_drop]; omega) counted rests rfl)
        · refine (markersFit_stuck inside found clear).mpr ⟨?_, ?_⟩
          · -- The buffer at rest is the remainder and the marker with all behind it.
            rw [run_stuck inside found clear] at rests
            unfold Resting at rests
            rw [inside, if_neg Bool.false_ne_true] at rests
            have again := @findSub_remainder chars s.buffer start found
            have free := @findSub_take _ _ _ _ _
              ((extractCompleteSequences chars (s.buffer.take start)).2.length + 5) again (by
                rw [pasteStart_length]
                omega)
            have waits := rests.2 _ free
            have marker : (s.buffer.drop start).take 5 = bracketedPasteStart.take 5 := by
              rw [← (findSub_spec found).2, List.take_take]
              rfl
            rw [List.take_length_add_append, marker] at waits
            exact waits
          · cases ended : findSub bracketedPasteEnd (s.buffer.drop (start + 6)) with
            | none => rfl
            | some endIndex =>
              have nothing := payloads_sequences
                (extractCompleteSequences chars (s.buffer.take start)).1 []
              rw [List.append_nil] at nothing
              rw [run_stuck inside found clear, nothing, markedPastes_pasted rfl ended] at counted
              cases counted

/-- A new reader is at rest, and a reader whose buffer is used up. -/
theorem resting_new (chars : Characters) : Resting chars {} := by
  refine ⟨?_, ?_⟩
  · intro same
    cases same
  · intro length _
    rw [List.take_nil]
    rfl

/-- One more character leaves a reader at rest. -/
theorem resting_step (rests : Resting chars s) (point : CodePoint) :
    Resting chars (Scan.run chars (s.more [point])).2 := by
  obtain ⟨buffer, pasteBuffer, inPaste⟩ := s
  unfold Resting at rests
  dsimp only at rests
  cases inPaste with
  | true =>
    rw [if_pos rfl] at rests
    cases ended : findSub bracketedPasteEnd (buffer ++ [point]) with
    | none =>
      rw [@run_waiting chars (Scan.more ⟨buffer, pasteBuffer, true⟩ [point]) rfl ended,
        splitPastePayload_eq]
      exact findSub_of_held ended
    | some endIndex =>
      -- The character is the last of the marker.
      have bound := (findSub_bound ended (by decide)).1
      have news := findSub_new rests ended
      have last : (buffer ++ [point]).drop (endIndex + 6) = [] := by
        rw [pasteEnd_length] at bound news
        rw [List.length_append, List.length_singleton] at bound
        rw [List.drop_eq_nil_iff, List.length_append, List.length_singleton]
        omega
      rw [@run_pasted chars (Scan.more ⟨buffer, pasteBuffer, true⟩ [point]) rfl _ ended]
      dsimp only [Scan.more]
      rw [last]
      exact resting_new chars
  | false =>
    rw [if_neg Bool.false_ne_true] at rests
    obtain ⟨notFront, waits⟩ := rests
    cases found : findSub bracketedPasteStart (buffer ++ [point]) with
    | none =>
      rw [@run_plain chars (Scan.more ⟨buffer, pasteBuffer, false⟩ [point]) rfl found]
      dsimp only [Scan.more]
      obtain ⟨stuck, ends⟩ := extract_remainder chars (buffer ++ [point])
      refine ⟨?_, ?_⟩
      · have absent := findSub_none_drop found
          ((buffer ++ [point]).length - (extractCompleteSequences chars (buffer ++ [point])).2.length)
        rw [← List.suffix_iff_eq_drop.mp ends] at absent
        rw [absent]
        intro same
        cases same
      · intro length _
        rw [← List.take_append_drop length (extractCompleteSequences chars (buffer ++ [point])).2] at stuck
        exact waiting_front stuck
    | some start =>
      have bound := (findSub_bound found (by decide)).1
      rw [pasteStart_length, List.length_append, List.length_singleton] at bound
      by_cases front : start = 0
      · -- The character is the last of a marker at the front.
        subst front
        have absent : findSub bracketedPasteStart buffer = none := by
          cases earlier : findSub bracketedPasteStart buffer with
          | none => rfl
          | some first =>
            have same := @findSub_append _ _ _ _ [point] _ earlier
            rw [found] at same
            cases same
            exact absurd earlier notFront
        have news := findSub_new absent found
        rw [pasteStart_length] at news
        have last : (buffer ++ [point]).drop (0 + 6) = [] := by
          rw [List.drop_eq_nil_iff, List.length_append, List.length_singleton]
          omega
        rw [@run_start chars (Scan.more ⟨buffer, pasteBuffer, false⟩ [point]) rfl 0 found rfl]
        dsimp only [Scan.more]
        rw [last]
        exact (rfl : findSub bracketedPasteEnd [] = none)
      · have taken : (buffer ++ [point]).take start = buffer.take start :=
          List.take_append_of_le_length (by omega)
        have free : findSub bracketedPasteStart (buffer.take start) = none := by
          rw [← taken]
          exact findSub_take found (by rw [pasteStart_length]; omega)
        have stuck := extract_none (waits start free)
        have nonempty : buffer.take start ≠ [] := by
          intro empty
          have := congrArg List.length empty
          rw [List.length_take, List.length_nil] at this
          omega
        have keeps := @run_stuck chars (Scan.more ⟨buffer, pasteBuffer, false⟩ [point]) rfl _ found
        dsimp only [Scan.more] at keeps ⊢
        rw [taken, stuck] at keeps
        rw [keeps nonempty]
        rw [← taken, List.take_append_drop]
        refine ⟨?_, ?_⟩
        · rw [found]
          intro same
          cases same
          exact front rfl
        · intro length shorter
          by_cases inside : length ≤ buffer.length
          · rw [List.take_append_of_le_length inside] at shorter ⊢
            exact waits length shorter
          · rw [List.take_of_length_le (by rw [List.length_append, List.length_singleton]; omega),
              found] at shorter
            cases shorter

end Payloads

end Loushang.Tui
