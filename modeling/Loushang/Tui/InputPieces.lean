import Loushang.Tui.InputPastes
import Loushang.Tui.InputRuns

/-!
# Input in pieces

One text fed at once and in any pieces. A terminal decides where its output is cut, so the events
and the fields of the reader afterwards should not depend on it.
-/
namespace Loushang.Tui
open Loushang.Lib

/-! ## Merged text -/

/-- A text event holds some text. -/
def Worded (events : List InputEvent) : Prop := ∀ event ∈ events, event.kind = .text → event.text ≠ []

theorem coalesceFrom_append {text raw gathered gatheredRaw : Text} {front : List InputEvent}
    (worded : Worded front) (nothing : gathered = [] → gatheredRaw = []) (back : List InputEvent) :
    coalesceFrom text raw (coalesceFrom gathered gatheredRaw front ++ back) =
      coalesceFrom (text ++ gathered) (raw ++ gatheredRaw) (front ++ back) := by
  induction front generalizing text raw gathered gatheredRaw with
  | nil =>
    rw [coalesceFrom]
    split
    · next empty => rw [empty, nothing empty, List.append_nil, List.append_nil]
    · have isText : (textEvent gathered gatheredRaw).kind = .text := rfl
      rw [List.singleton_append, coalesceFrom, if_pos isText]
      rfl
  | cons event rest ih =>
    have later : Worded rest := fun other member => worded other (List.mem_cons_of_mem _ member)
    rw [coalesceFrom, List.cons_append, coalesceFrom]
    by_cases isText : event.kind = .text
    · have holds := worded event List.mem_cons_self isText
      rw [if_pos isText, if_pos isText, ih later]
      · rw [List.append_assoc, List.append_assoc]
      · intro empty
        exact absurd (List.append_eq_nil_iff.mp empty).2 holds
    · rw [if_neg isText, if_neg isText]
      by_cases empty : gathered = []
      · rw [if_pos empty, empty, nothing empty, List.append_nil, List.append_nil, List.cons_append,
          coalesceFrom, if_neg isText]
        split
        · next start => rw [start, ih later (fun _ => rfl), List.append_nil, List.append_nil]
        · rw [ih later (fun _ => rfl)]
          rfl
      · have some : text ++ gathered ≠ [] := fun both => empty (List.append_eq_nil_iff.mp both).2
        have gatheredText : (textEvent gathered gatheredRaw).kind = .text := rfl
        have step : coalesceFrom (text ++ (textEvent gathered gatheredRaw).text)
            (raw ++ (textEvent gathered gatheredRaw).raw)
            (event :: (coalesceFrom [] [] rest ++ back)) =
          textEvent (text ++ gathered) (raw ++ gatheredRaw) :: event ::
            coalesceFrom [] [] (coalesceFrom [] [] rest ++ back) := by
          rw [coalesceFrom, if_neg isText]
          exact if_neg some
        rw [if_neg empty, if_neg some, List.cons_append, List.cons_append, coalesceFrom,
          if_pos gatheredText, step, ih later (fun _ => rfl)]
        rfl

variable {front : List InputEvent}

/-- Merging before more events come changes nothing. -/
theorem coalesce_front (worded : Worded front) (back : List InputEvent) :
    coalesceTextEvents (coalesceTextEvents front ++ back) = coalesceTextEvents (front ++ back) :=
  @coalesceFrom_append [] [] [] [] front worded (fun _ => rfl) back

variable {back : List InputEvent}

theorem coalesceFrom_back (worded : Worded back) (text raw : Text) (front : List InputEvent) :
    coalesceFrom text raw (front ++ coalesceTextEvents back) = coalesceFrom text raw (front ++ back) := by
  induction front generalizing text raw with
  | nil =>
    have merged := @coalesceFrom_append text raw [] [] back worded (fun _ => rfl) []
    rw [List.append_nil, List.append_nil, List.append_nil, List.append_nil] at merged
    exact merged
  | cons event rest ih =>
    rw [List.cons_append, List.cons_append, coalesceFrom, coalesceFrom, ih, ih, ih]

theorem coalesce_back (worded : Worded back) (front : List InputEvent) :
    coalesceTextEvents (front ++ coalesceTextEvents back) = coalesceTextEvents (front ++ back) :=
  coalesceFrom_back worded [] [] front

variable {events : List InputEvent}

theorem worded_coalesce (worded : Worded events) (text raw : Text) :
    Worded (coalesceFrom text raw events) := by
  induction events generalizing text raw with
  | nil =>
    rw [coalesceFrom]
    split
    · intro event member
      cases member
    · next some =>
      intro event member _
      rw [List.mem_singleton.mp member]
      exact some
  | cons event rest ih =>
    have later : Worded rest := fun other member => worded other (List.mem_cons_of_mem _ member)
    rw [coalesceFrom]
    split
    · exact ih later _ _
    next other =>
    split
    · intro found member isText
      rcases List.mem_cons.mp member with rfl | member
      · exact absurd isText other
      · exact ih later _ _ found member isText
    · next some =>
      intro found member isText
      rcases List.mem_cons.mp member with rfl | member
      · exact some
      rcases List.mem_cons.mp member with rfl | member
      · exact absurd isText other
      · exact ih later _ _ found member isText

/-- The texts of the pastes. -/
def pasteTexts (events : List InputEvent) : List Text :=
  (events.filter fun event => event.kind = .paste).map InputEvent.text

theorem pasteTexts_coalesce (events : List InputEvent) (text raw : Text) :
    pasteTexts (coalesceFrom text raw events) = pasteTexts events := by
  unfold pasteTexts
  induction events generalizing text raw with
  | nil =>
    rw [coalesceFrom]
    split <;> rfl
  | cons event rest ih =>
    rw [coalesceFrom]
    split
    · next isText =>
      rw [ih, List.filter_cons_of_neg]
      rw [isText]
      decide
    split
    · rw [List.filter_cons, List.filter_cons]
      split
      · rw [List.map_cons, List.map_cons, ih]
      · exact ih _ _
    · rw [List.filter_cons_of_neg (by simp [textEvent]), List.filter_cons, List.filter_cons]
      split
      · rw [List.map_cons, List.map_cons, ih]
      · exact ih _ _

variable {pending after : Option Nat}

/-- An event of a sequence is no paste, and holds text where it is text. -/
theorem event_spec {env : Surroundings} {sequence : Text} {event : InputEvent}
    (decoded : eventFromSequence env pending sequence = .ok (some event, after)) :
    event.kind ≠ .paste ∧ (event.kind = .text → event.text ≠ []) := by
  unfold eventFromSequence at decoded
  split at decoded
  · cases decoded
  · split at decoded
    · cases decoded
      simp
    split at decoded
    · cases decoded
    split at decoded
    · cases decoded
      simp
    · cases decoded
      simp
  next nonempty several =>
  split at decoded
  · cases decoded
    simp
  split at decoded
  · cases decoded
    simp
  cases mouse : parseMouseSequence env.chars sequence with
  | error raised =>
    rw [mouse] at decoded
    cases decoded
  | ok report =>
    rw [mouse, ok_bind] at decoded
    cases report with
    | some report =>
      cases decoded
      simp
    | none =>
      dsimp only at decoded
      split at decoded
      · cases decoded
        simp
      split at decoded
      · cases decoded
        simp
      split at decoded
      · cases decoded
        simp
      cases key : parseKeySequence env.chars sequence with
      | error raised =>
        rw [key] at decoded
        cases decoded
      | ok parsed =>
        rw [key, ok_bind] at decoded
        cases parsed with
        | some named =>
          dsimp only at decoded
          cases printable : kittyPrintableText env.chars sequence with
          | error raised =>
            rw [printable] at decoded
            cases decoded
          | ok shown =>
            rw [printable, ok_bind] at decoded
            cases shown with
            | some point =>
              cases decoded
              simp
            | none =>
              cases decoded
              simp
        | none =>
          dsimp only at decoded
          split at decoded
          · cases decoded
            simp
          split at decoded
          · cases decoded
            simp
          · cases decoded
            simpa using nonempty

theorem worded_append (first : Worded front) (second : Worded back) : Worded (front ++ back) := by
  exact List.forall_mem_append.mpr ⟨first, second⟩

variable {tokens : List Token}

theorem decodeTokens_worded {env : Surroundings}
    (decoded : decodeTokens env pending tokens = (.ok events, after)) : Worded events := by
  induction tokens generalizing pending events with
  | nil =>
    cases decoded
    intro event member
    cases member
  | cons token rest ih =>
    cases token with
    | sequence text =>
      rw [decodeTokens] at decoded
      cases one : eventFromSequence env pending text with
      | error raised =>
        rw [one] at decoded
        cases decoded
      | ok result =>
        rw [one] at decoded
        obtain ⟨event, next⟩ := result
        dsimp only at decoded
        cases later : decodeTokens env next rest with
        | mk outcome last =>
          rw [later] at decoded
          cases outcome with
          | error raised => cases decoded
          | ok more =>
            cases decoded
            apply worded_append _ (ih later)
            intro found member isText
            cases event with
            | none => cases member
            | some event =>
              rw [Option.toList_some, List.mem_singleton] at member
              subst member
              exact (event_spec one).2 isText
    | pasteStart => exact ih decoded
    | paste payload =>
      rw [decodeTokens] at decoded
      cases clean : sanitizePasteText env.chars payload with
      | error raised =>
        rw [clean] at decoded
        cases decoded
      | ok text =>
        rw [clean] at decoded
        cases later : decodeTokens env none rest with
        | mk outcome last =>
          rw [later] at decoded
          cases outcome with
          | error raised => cases decoded
          | ok more =>
            cases decoded
            intro event member isText
            rcases List.mem_cons.mp member with rfl | member
            · cases isText
            · exact ih later event member isText

/-! ## Feeding pieces -/

/-- Calls of `feed` one after the other, up to one that raises. -/
def feedAll (env : Surroundings) : InputReader → List Text → Except Raised (List InputEvent) × InputReader
  | r, [] => (.ok [], r)
  | r, data :: rest =>
    match r.feed env data with
    | (.error raised, r) => (.error raised, r)
    | (.ok events, r) => ((feedAll env r rest).1.map (events ++ ·), (feedAll env r rest).2)

variable {env : Surroundings}

theorem feed_ok {r : InputReader} {data : Text} {new : List InputEvent} {after : Option Nat}
    (decoded : decodeTokens env r.pending (Scan.run env.chars (r.scan.more data)).1 = (.ok new, after)) :
    r.feed env data =
      (.ok (coalesceTextEvents new), (Scan.run env.chars (r.scan.more data)).2.reader after) := by
  unfold InputReader.feed
  dsimp only
  rw [(@feed_scan env data r).1 new after decoded]
  rfl

/-- A call that returns leaves what its scan leaves. -/
theorem feed_scan_of_ok {r last : InputReader} {data : Text} (fed : r.feed env data = (.ok events, last)) :
    last.scan = (Scan.run env.chars (r.scan.more data)).2 := by
  cases decoded : decodeTokens env r.pending (Scan.run env.chars (r.scan.more data)).1 with
  | mk outcome after =>
    cases outcome with
    | ok new =>
      rw [feed_ok decoded] at fed
      cases fed
      rfl
    | error raised =>
      have failed := (@feed_scan env data r).2 raised (congrArg Prod.fst decoded)
      unfold InputReader.feed at fed
      dsimp only at fed
      rw [Prod.ext_iff, failed] at fed
      cases fed.1

theorem decodeTokens_split {front back : List Token}
    (decoded : decodeTokens env pending (front ++ back) = (.ok events, after)) :
    ∃ first between second, decodeTokens env pending front = (.ok first, between) ∧
      decodeTokens env between back = (.ok second, after) ∧ events = first ++ second := by
  cases start : decodeTokens env pending front with
  | mk outcome between =>
    cases outcome with
    | error raised =>
      have failed := decodeTokens_append_error (congrArg Prod.fst start) back
      rw [decoded] at failed
      cases failed
    | ok first =>
      rw [decodeTokens_append start] at decoded
      cases later : decodeTokens env between back with
      | mk outcome last =>
        rw [later] at decoded
        cases outcome with
        | error raised => cases decoded
        | ok second =>
          cases decoded
          exact ⟨first, between, second, rfl, later, rfl⟩

/-- The pieces of a text give the events of the text and leave what it leaves. -/
theorem feedAll_scan {r : InputReader} {chunks : List Text} {events : List InputEvent}
    {after : Option Nat} (settled : Scan.run env.chars r.scan = ([], r.scan))
    (fits : MarkersFit env.chars (r.scan.more chunks.flatten))
    (decoded : decodeTokens env r.pending (Scan.run env.chars (r.scan.more chunks.flatten)).1 =
      (.ok events, after)) :
    ∃ parts, feedAll env r chunks =
        (.ok parts, (Scan.run env.chars (r.scan.more chunks.flatten)).2.reader after) ∧
      Worded parts ∧ coalesceTextEvents parts = coalesceTextEvents events := by
  induction chunks generalizing r events after with
  | nil =>
    have nothing : r.scan.more ([] : List Text).flatten = r.scan := by
      unfold Scan.more
      rw [List.flatten_nil, List.append_nil]
    rw [nothing, settled] at decoded ⊢
    cases decoded
    exact ⟨[], rfl, fun event member => (by cases member), rfl⟩
  | cons data rest ih =>
    have whole : r.scan.more (data :: rest).flatten = (r.scan.more data).more rest.flatten := by
      unfold Scan.more
      rw [List.flatten_cons, ← List.append_assoc]
    rw [whole] at fits decoded ⊢
    obtain ⟨goesOn, keeps⟩ := run_more fits
    rw [goesOn] at decoded ⊢
    obtain ⟨first, between, second, decodedFirst, decodedSecond, same⟩ := decodeTokens_split decoded
    have stays : Scan.run env.chars (Scan.run env.chars (r.scan.more data)).2 =
        ([], (Scan.run env.chars (r.scan.more data)).2) := run_settled env.chars (r.scan.more data)
    obtain ⟨parts, fed, worded, merged⟩ := @ih
      ((Scan.run env.chars (r.scan.more data)).2.reader between) second after stays keeps decodedSecond
    have wordedFirst := decodeTokens_worded decodedFirst
    have wordedSecond := decodeTokens_worded decodedSecond
    refine ⟨coalesceTextEvents first ++ parts, ?_, ?_, ?_⟩
    · rw [feedAll, feed_ok decodedFirst]
      dsimp only
      rw [fed]
      rfl
    · exact worded_append (worded_coalesce wordedFirst [] []) worded
    · calc
        coalesceTextEvents (coalesceTextEvents first ++ parts)
            = coalesceTextEvents (first ++ parts) := coalesce_front wordedFirst parts
        _ = coalesceTextEvents (first ++ coalesceTextEvents parts) := (coalesce_back worded first).symm
        _ = coalesceTextEvents (first ++ coalesceTextEvents second) := by rw [merged]
        _ = coalesceTextEvents (first ++ second) := coalesce_back wordedSecond first
        _ = coalesceTextEvents events := by rw [same]

/-- The pastes a decoding answers are those the scan found, with their controls removed. -/
theorem decodeTokens_pastes (decoded : decodeTokens env pending tokens = (.ok events, after)) :
    (payloads tokens).mapM (sanitizePasteText env.chars) = .ok (pasteTexts events) := by
  induction tokens generalizing pending events with
  | nil =>
    cases decoded
    rfl
  | cons token rest ih =>
    cases token with
    | sequence text =>
      rw [decodeTokens] at decoded
      cases one : eventFromSequence env pending text with
      | error raised =>
        rw [one] at decoded
        cases decoded
      | ok result =>
        rw [one] at decoded
        obtain ⟨event, next⟩ := result
        dsimp only at decoded
        cases later : decodeTokens env next rest with
        | mk outcome last =>
          rw [later] at decoded
          cases outcome with
          | error raised => cases decoded
          | ok more =>
            cases decoded
            have same : pasteTexts (event.toList ++ more) = pasteTexts more := by
              unfold pasteTexts
              cases event with
              | none => rfl
              | some event =>
                have other := (event_spec one).1
                rw [Option.toList_some, List.singleton_append, List.filter_cons_of_neg (by simpa using other)]
            rw [same, ← ih later]
            rfl
    | pasteStart => exact ih decoded
    | paste payload =>
      rw [decodeTokens] at decoded
      cases clean : sanitizePasteText env.chars payload with
      | error raised =>
        rw [clean] at decoded
        cases decoded
      | ok text =>
        rw [clean] at decoded
        cases later : decodeTokens env none rest with
        | mk outcome last =>
          rw [later] at decoded
          cases outcome with
          | error raised => cases decoded
          | ok more =>
            cases decoded
            have split : payloads (.paste payload :: rest) = payload :: payloads rest := rfl
            rw [split, List.mapM_cons, clean, ok_bind, ih later]
            rfl

/-- Fed one character at a time a new reader stays at rest. -/
theorem feedAll_resting {r last : InputReader} {events : List InputEvent} {data : Text}
    (rests : Resting env.chars r.scan)
    (fed : feedAll env r (data.map fun point => [point]) = (.ok events, last)) :
    Resting env.chars last.scan := by
  induction data generalizing r events with
  | nil =>
    cases fed
    exact rests
  | cons point rest ih =>
    rw [List.map_cons, feedAll] at fed
    cases one : r.feed env [point] with
    | mk outcome next =>
      rw [one] at fed
      cases outcome with
      | error raised => cases fed
      | ok new =>
        dsimp only at fed
        cases later : feedAll env next (rest.map fun point => [point]) with
        | mk outcome final =>
          rw [later] at fed
          cases outcome with
          | error raised => cases fed
          | ok more =>
            cases fed
            refine ih ?_ later
            rw [feed_scan_of_ok one]
            exact resting_step rests point

theorem length_of_mapM {f : Text → Except Raised Text} {texts results : List Text}
    (mapped : texts.mapM f = .ok results) : results.length = texts.length := by
  induction texts generalizing results with
  | nil =>
    cases mapped
    rfl
  | cons text rest ih =>
    rw [List.mapM_cons] at mapped
    cases first : f text with
    | error raised =>
      rw [first] at mapped
      cases mapped
    | ok result =>
      rw [first, ok_bind] at mapped
      cases later : rest.mapM f with
      | error raised =>
        rw [later] at mapped
        cases mapped
      | ok more =>
        rw [later] at mapped
        cases mapped
        rw [List.length_cons, List.length_cons, ih later]

/-- A text gives a new reader the same merged events and the same fields in whatever pieces it is
fed, without an exception, and every paste that its markers delimit is one paste event. -/
def PiecesInvisible (env : Surroundings) (data : Text) : Prop :=
  ∃ events last, InputReader.feed env data {} = (.ok events, last) ∧
    (∀ chunks : List Text, chunks.flatten = data →
      ∃ parts, feedAll env {} chunks = (.ok parts, last) ∧ coalesceTextEvents parts = events) ∧
    (markedPastes { buffer := data }).mapM (sanitizePasteText env.chars) = .ok (pasteTexts events)

/-- Pieces are invisible exactly where all numbers are in range and every paste begins behind
complete sequences, or behind one that goes on waiting while the paste does not end. -/
theorem pieces_invisible_iff (env : Surroundings) (data : Text) :
    PiecesInvisible env data ↔
      (∀ token ∈ (Scan.run env.chars { buffer := data }).1, token.Fits env.chars) ∧
        MarkersFit env.chars { buffer := data } := by
  constructor
  · intro ⟨events, last, fed, pieces, pastes⟩
    have inRange := (returns_feed env {} data).mp ⟨events, congrArg Prod.fst fed⟩
    refine ⟨inRange, ?_⟩
    obtain ⟨outcome, decoded⟩ := (returns_decodeTokens env none _).mpr inRange
    have whole := @feed_ok env {} data outcome _ (Prod.ext decoded rfl)
    rw [fed] at whole
    cases whole
    have found := decodeTokens_pastes (Prod.ext decoded rfl)
    have single : (data.map fun point => [point]).flatten = data := by
      rw [← List.flatMap_def, List.flatMap_singleton']
    obtain ⟨parts, oneByOne, _⟩ := pieces (data.map fun point => [point]) single
    have rests := @feedAll_resting env {} _ _ data (resting_new env.chars) oneByOne
    unfold coalesceTextEvents at pastes
    rw [pasteTexts_coalesce] at pastes
    have counted := (length_of_mapM found).symm.trans (length_of_mapM pastes)
    exact markersFit_of_rest counted rests
  · intro ⟨inRange, fits⟩
    obtain ⟨outcome, decoded⟩ := (returns_decodeTokens env none _).mpr inRange
    have whole := @feed_ok env {} data outcome _ (Prod.ext decoded rfl)
    refine ⟨_, _, whole, ?_, ?_⟩
    · intro chunks same
      subst same
      obtain ⟨parts, fed, _, merged⟩ := @feedAll_scan env {} chunks outcome _ rfl fits
        (Prod.ext decoded rfl)
      exact ⟨parts, fed, merged⟩
    · unfold coalesceTextEvents
      rw [pasteTexts_coalesce, ← payloads_run fits]
      exact decodeTokens_pastes (Prod.ext decoded rfl)

/-- A paste behind an escape: fed at once it is kept in the buffer for good, fed with its marker cut
in two it is delivered. -/
theorem escape_before_paste :
    (InputReader.feed asciiSurroundings (esc :: textOf "\x1b[200~hello\x1b[201~") {}).1 = .ok [] ∧
      (feedAll asciiSurroundings {} [esc :: textOf "\x1b[2", textOf "00~hello\x1b[201~"]).1 =
        .ok [{ kind := .key, key := textOf "escape", raw := [esc] }, pasteEvent (textOf "hello")] ∧
      ¬ PiecesInvisible asciiSurroundings (esc :: textOf "\x1b[200~hello\x1b[201~") := by
  have whole : (InputReader.feed asciiSurroundings
      (esc :: textOf "\x1b[200~hello\x1b[201~") {}).1 = .ok [] := by decide
  have cut : (feedAll asciiSurroundings {} [esc :: textOf "\x1b[2", textOf "00~hello\x1b[201~"]).1 =
      .ok [{ kind := .key, key := textOf "escape", raw := [esc] }, pasteEvent (textOf "hello")] := by
    decide
  refine ⟨whole, cut, ?_⟩
  intro ⟨events, last, fed, pieces, _⟩
  obtain ⟨parts, fedCut, merged⟩ := pieces [esc :: textOf "\x1b[2", textOf "00~hello\x1b[201~"] rfl
  rw [fed] at whole
  rw [fedCut] at cut
  cases whole
  cases cut
  cases merged

end Loushang.Tui
