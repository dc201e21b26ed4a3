import Loushang.Lib.Marker
import Loushang.Tui.InputKeys

/-!
# Images in terminal lines

What `terminal_image.py` and `render_loop.py` read off the text of a line: whether it draws an image,
which Kitty images it draws, the sequences that delete them, and the text a line is written as.
-/
namespace Loushang.Tui
open Loushang.Lib

/-- `KITTY_IMAGE_PREFIX`. -/
def kittyImagePrefix : Text := [0x1b, 0x5f, 0x47]

/-- `ITERM2_IMAGE_PREFIX`. -/
def iterm2ImagePrefix : Text := [0x1b] ++ textOf "]1337;File="

/-- `is_terminal_image_line`. -/
def isTerminalImageLine (line : Text) : Bool :=
  (findSub kittyImagePrefix line).isSome || (findSub iterm2ImagePrefix line).isSome

/-- `_line_uses_tmux_passthrough`. -/
def lineUsesTmuxPassthrough (line : Text) : Bool := (findSub ([0x1b] ++ textOf "Ptmux;") line).isSome

/-- The digits of `int(text)` without its sign: groups of decimal digits between underscores. -/
def unsignedOf (chars : Characters) (text : Text) : Option Nat :=
  let groups := splitOn 0x5f text
  if groups.all fun group => !group.isEmpty && group.all (isDigit chars) then
    (intOf chars groups.flatten).toOption
  else none

/-- `int(text)`, none where it raises. -/
def integerOf (chars : Characters) (text : Text) : Option Int :=
  match (PyStr.strip ⟨text⟩).points with
  | 0x2b :: rest => (unsignedOf chars rest).map Int.ofNat
  | 0x2d :: rest => (unsignedOf chars rest).map fun value => -Int.ofNat value
  | text => (unsignedOf chars text).map Int.ofNat

/-- The image a parameter `i=…` names. -/
def imageIdOf (chars : Characters) (param : Text) : Option Int :=
  match param with
  | 0x69 :: 0x3d :: value => (integerOf chars value).filter fun id => 0 < id
  | _ => none

/-- The images named behind an offset of a line, with repetitions. -/
def imageIdsFrom (chars : Characters) (text : Text) : List Int :=
  match _found : findSub kittyImagePrefix text with
  | none => []
  | some start =>
    let params := text.drop (start + kittyImagePrefix.length)
    match findSub [0x3b] params with
    | none => imageIdsFrom chars params
    | some stop =>
      if (findSub stringTerminator params).any fun terminator => terminator < stop then
        imageIdsFrom chars params
      else
        (splitOn 0x2c (params.take stop)).filterMap (imageIdOf chars) ++
          imageIdsFrom chars (params.drop (stop + 1))
termination_by text.length
decreasing_by
  all_goals
    obtain ⟨inside, _⟩ := findSub_spec _found
    simp only [List.length_drop, kittyImagePrefix, List.length_cons, List.length_nil] at *
    omega

/-- What is left where every item has a key of its own: the first of each. -/
def firstOf {A K : Type} [DecidableEq K] (key : A → K) : List K → List A → List A
  | _, [] => []
  | seen, item :: rest =>
    if key item ∈ seen then firstOf key seen rest else item :: firstOf key (key item :: seen) rest

/-- `extract_kitty_image_ids`. -/
def extractKittyImageIds (chars : Characters) (line : Text) : List Int :=
  firstOf id [] (imageIdsFrom chars line)

/-- `delete_kitty_image`. -/
def deleteKittyImage (imageId : Int) : Text :=
  kittyImagePrefix ++ textOf ("a=d,d=I,i=" ++ toString (max 1 imageId) ++ ",q=2") ++ stringTerminator

/-- `wrap_tmux_passthrough`. -/
def wrapTmuxPassthrough (sequence : Text) : Text :=
  if sequence = [] then sequence
  else [0x1b] ++ textOf "Ptmux;" ++ replaceSub [0x1b] [0x1b, 0x1b] sequence ++ stringTerminator

/-- The sequence that deletes an image of a line. -/
def deleteSequence (line : Text) (imageId : Int) : Text :=
  if lineUsesTmuxPassthrough line then wrapTmuxPassthrough (deleteKittyImage imageId)
  else deleteKittyImage imageId

/-- `normalize_terminal_output`. -/
def normalizeTerminalOutput (text : Text) : Text :=
  text.flatMap fun point =>
    if point = 0xe33 then [0xe4d, 0xe32] else if point = 0xeb3 then [0xecd, 0xeb2] else [point]

/-- `SEGMENT_RESET`. -/
def segmentReset : Text := [0x1b] ++ textOf "[0m" ++ [0x1b] ++ textOf "]8;;" ++ [0x07]

/-- `_finalize_rendered_line`. -/
def finalizeRenderedLine (line : Text) : Text :=
  if isTerminalImageLine line then line
  else
    let normalized := normalizeTerminalOutput line
    if !normalized.contains 0x1b then normalized
    else if endsWith segmentReset normalized then normalized
    else normalized ++ segmentReset

end Loushang.Tui
