import Loushang.Lib.Text
import Mathlib.Data.Int.Bitwise

/-!
# Keys and terminal reports

The parsers of complete sequences in `tui/input.py`, from a sequence to the key, mouse report or
response it stands for, with `normalize_key_id` of `tui/keybindings.py`. A regular expression is
a matcher that reads its groups one after the other: no group can give a character back. Where
`int` or `chr` raises, so does the parser. The tables of `unicodedata` are a parameter.
-/
namespace Loushang.Tui
open Loushang.Lib

/-- The characters of a `str`. -/
abbrev Text := List CodePoint

def textOf (text : String) : Text := (PyStr.ofString text).points

def textTable (entries : List (String × String)) : List (Text × Text) :=
  entries.map fun entry => (textOf entry.1, textOf entry.2)

/-- What the code asks the interpreter about characters. -/
structure Characters where
  /-- The value of a decimal digit, of any script; `\d` matches these. -/
  digit : CodePoint → Option Nat
  /-- `char.lower()`. -/
  lower : CodePoint → Text

/-- `int` refuses a text of more digits, `chr` a number above the last code point. -/
inductive Raised where
  | tooManyDigits
  | notACodePoint
  deriving DecidableEq

inductive KeyEventType where
  | press
  | repeat
  | release
  deriving DecidableEq

inductive MouseAction where
  | press
  | release
  | drag
  | scrollUp
  | scrollDown
  | move
  deriving DecidableEq

structure MouseModifiers where
  shift : Bool
  alt : Bool
  ctrl : Bool
  deriving DecidableEq

/-- `_ARROW_CODEPOINTS`, without the names, which nothing reads. -/
def arrowCodepoints : List (String × Int) := [("A", -1), ("B", -2), ("C", -3), ("D", -4)]

/-- `_FUNCTIONAL_CODEPOINTS`. -/
def functionalCodepoints : List (Int × String) :=
  [(2, "insert"), (3, "delete"), (5, "pageUp"), (6, "pageDown"), (7, "home"), (8, "end"),
    (11, "f1"), (12, "f2"), (13, "f3"), (14, "f4"), (15, "f5"), (17, "f6"), (18, "f7"),
    (19, "f8"), (20, "f9"), (21, "f10"), (23, "f11"), (24, "f12")]

/-- `_FUNCTIONAL_NAME_CODEPOINTS`. -/
def functionalNameCodepoints : List (String × Int) :=
  [("delete", -10), ("insert", -11), ("pageUp", -12), ("pageDown", -13), ("home", -14),
    ("end", -15), ("clear", -16), ("f1", -17), ("f2", -18), ("f3", -19), ("f4", -20), ("f5", -21),
    ("f6", -22), ("f7", -23), ("f8", -24), ("f9", -25), ("f10", -26), ("f11", -27), ("f12", -28)]

/-- `_KITTY_FUNCTIONAL_EQUIVALENTS`. -/
def kittyFunctionalEquivalents : List (Int × Int) :=
  [(57399, 48), (57400, 49), (57401, 50), (57402, 51), (57403, 52), (57404, 53), (57405, 54),
    (57406, 55), (57407, 56), (57408, 57), (57409, 46), (57410, 47), (57411, 42), (57412, 45),
    (57413, 43), (57414, 13), (57415, 61), (57416, 44), (57417, -4), (57418, -3), (57419, -1),
    (57420, -2), (57421, -12), (57422, -13), (57423, -14), (57424, -15), (57425, -11),
    (57426, -10)]

/-- `_NEGATIVE_FUNCTIONAL_CODEPOINTS`. -/
def negativeFunctionalCodepoints : List (Int × String) :=
  [(-1, "up"), (-2, "down"), (-3, "right"), (-4, "left"), (-10, "delete"), (-11, "insert"),
    (-12, "pageUp"), (-13, "pageDown"), (-14, "home"), (-15, "end"), (-16, "clear"), (-17, "f1"),
    (-18, "f2"), (-19, "f3"), (-20, "f4"), (-21, "f5"), (-22, "f6"), (-23, "f7"), (-24, "f8"),
    (-25, "f9"), (-26, "f10"), (-27, "f11"), (-28, "f12")]

/-- `_LEGACY_KEY_SEQUENCES`. -/
def legacyKeySequences : List (Text × Text) :=
  textTable
    [("\x1b[A", "up"), ("\x1bOA", "up"), ("\x1b[B", "down"), ("\x1bOB", "down"),
      ("\x1b[C", "right"), ("\x1bOC", "right"), ("\x1b[D", "left"), ("\x1bOD", "left"),
      ("\x1b[H", "home"), ("\x1bOH", "home"), ("\x1b[1~", "home"), ("\x1b[7~", "home"),
      ("\x1b[F", "end"), ("\x1bOF", "end"), ("\x1b[4~", "end"), ("\x1b[8~", "end"),
      ("\x1b[2~", "insert"), ("\x1b[3~", "delete"), ("\x1b[5~", "pageUp"), ("\x1b[[5~", "pageUp"),
      ("\x1b[6~", "pageDown"), ("\x1b[[6~", "pageDown"), ("\x1b[E", "clear"), ("\x1bOE", "clear"),
      ("\x1b[e", "shift+clear"), ("\x1bOe", "ctrl+clear"), ("\x1bOP", "f1"), ("\x1bOQ", "f2"),
      ("\x1bOR", "f3"), ("\x1bOS", "f4"), ("\x1b[11~", "f1"), ("\x1b[12~", "f2"),
      ("\x1b[13~", "f3"), ("\x1b[14~", "f4"), ("\x1b[15~", "f5"), ("\x1b[17~", "f6"),
      ("\x1b[18~", "f7"), ("\x1b[19~", "f8"), ("\x1b[20~", "f9"), ("\x1b[21~", "f10"),
      ("\x1b[23~", "f11"), ("\x1b[24~", "f12"), ("\x1b[[A", "f1"), ("\x1b[[B", "f2"),
      ("\x1b[[C", "f3"), ("\x1b[[D", "f4"), ("\x1b[[E", "f5"), ("\x1b[Z", "shift+tab"),
      ("\x1b[a", "shift+up"), ("\x1b[b", "shift+down"), ("\x1b[c", "shift+right"),
      ("\x1b[d", "shift+left"), ("\x1bOa", "ctrl+up"), ("\x1bOb", "ctrl+down"),
      ("\x1bOc", "ctrl+right"), ("\x1bOd", "ctrl+left"), ("\x1b[1;3A", "alt+up"),
      ("\x1b[1;3B", "alt+down"), ("\x1b[1;3C", "alt+right"), ("\x1b[1;3D", "alt+left"),
      ("\x1bp", "alt+up"), ("\x1bn", "alt+down"), ("\x1bf", "alt+right"), ("\x1bb", "alt+left"),
      ("\x1by", "alt+y"), ("\x1b\x0d", "alt+enter")]

/-- `_CONTROL_KEY_MAP`. -/
def controlKeyMap : List (Text × Text) :=
  textTable
    [("\x00", "ctrl+space"), ("\x01", "ctrl+a"), ("\x02", "ctrl+b"), ("\x03", "ctrl+c"),
      ("\x04", "ctrl+d"), ("\x05", "ctrl+e"), ("\x06", "ctrl+f"), ("\x07", "ctrl+g"),
      ("\x08", "backspace"), ("\x09", "tab"), ("\x0a", "ctrl+j"), ("\x0b", "ctrl+k"),
      ("\x0f", "ctrl+o"), ("\x0d", "enter"), ("\x14", "ctrl+t"), ("\x15", "ctrl+u"),
      ("\x16", "ctrl+v"), ("\x17", "ctrl+w"), ("\x19", "ctrl+y"), ("\x1d", "ctrl+]"),
      ("\x1f", "ctrl+-"), ("\x7f", "backspace")]

/-- `_ALT_CONTROL_KEY_MAP`. -/
def altControlKeyMap : List (Text × Text) :=
  textTable [("\x08", "alt+backspace"), ("\x7f", "alt+backspace")] ++
    controlKeyMap.map fun (control, key) =>
      if (textOf "ctrl+").isPrefixOf key then (control, textOf "ctrl+alt+" ++ key.drop 5)
      else (control, textOf "alt+" ++ key)

/-- `_SYMBOL_KEYS`. -/
def symbolKeys : Text := textOf "`-=[]\\;',./!@#$%^&*()_+|~\x7b\x7d:<>?"

/-! ## Matching -/

def isDigit (chars : Characters) (point : CodePoint) : Bool := (chars.digit point).isSome

/-- `sys.int_info.default_max_str_digits`. -/
def maxDigits : Nat := 4300

/-- `int(digits)`. -/
def intOf (chars : Characters) (digits : Text) : Except Raised Nat :=
  if maxDigits < digits.length then .error .tooManyDigits
  else .ok (digits.foldl (fun value point => value * 10 + (chars.digit point).getD 0) 0)

/-- `chr(codepoint)`. -/
def chr (codepoint : Int) : Except Raised CodePoint :=
  if inside : 0 ≤ codepoint ∧ codepoint < 0x110000 then
    .ok ⟨codepoint.toNat, by omega⟩
  else .error .notACodePoint

/-- A literal text. -/
def literal (expected : String) (text : Text) : Option Text :=
  if (textOf expected).isPrefixOf text then some (text.drop (textOf expected).length) else none

/-- `(\d+)`. -/
def digits (chars : Characters) (text : Text) : Option (Text × Text) :=
  match text.span (isDigit chars) with
  | ([], _) => none
  | (group, rest) => some (group, rest)

/-- `(?:SEPARATOR(\d+))?`. -/
def optionalDigits (chars : Characters) (separator : String) (text : Text) : Option Text × Text :=
  match (literal separator text).bind (digits chars) with
  | some (group, rest) => (some group, rest)
  | none => (none, text)

/-- `(?:SEPARATOR(\d*))?`. -/
def optionalAnyDigits (chars : Characters) (separator : String) (text : Text) :
    Option Text × Text :=
  match literal separator text with
  | some rest => (some (rest.takeWhile (isDigit chars)), rest.dropWhile (isDigit chars))
  | none => (none, text)

/-- One of a few characters. -/
def oneOf (choices : String) : Text → Option (CodePoint × Text)
  | point :: rest => if (textOf choices).contains point then some (point, rest) else none
  | [] => none

/-- `$`, which also matches before a last newline. -/
def atEnd (text : Text) : Option Unit :=
  if text = [] ∨ text = [0x0a] then some () else none

/-! ## Reports and responses -/

/-- `_parse_focus_sequence`. -/
def parseFocusSequence (sequence : Text) : Option Bool :=
  if sequence = textOf "\x1b[I" then some true
  else if sequence = textOf "\x1b[O" then some false
  else none

/-- `^<\d+;\d+;\d+[Mm]$`, with its groups. -/
def matchSgrMouse (chars : Characters) (payload : Text) :
    Option (Text × Text × Text × CodePoint) := do
  let rest ← literal "<" payload
  let (code, rest) ← digits chars rest
  let rest ← literal ";" rest
  let (column, rest) ← digits chars rest
  let rest ← literal ";" rest
  let (row, rest) ← digits chars rest
  let (final, rest) ← oneOf "Mm" rest
  let _ ← atEnd rest
  return (code, column, row, final)

/-- `_decode_mouse_code`. -/
def decodeMouseCode (code : Nat) (released : Bool) : Nat × MouseAction × MouseModifiers :=
  let modifiers := ⟨code.testBit 2, code.testBit 3, code.testBit 4⟩
  let button := code % 4
  if code.testBit 6 then (button, if button = 0 then .scrollUp else .scrollDown, modifiers)
  else if released || (button = 3 && !code.testBit 5) then
    (if button = 3 then 0 else button, .release, modifiers)
  else if code.testBit 5 then (button, if button = 3 then .move else .drag, modifiers)
  else (button, .press, modifiers)

structure MouseReport where
  button : Nat
  column : Nat
  row : Nat
  action : MouseAction
  modifiers : MouseModifiers
  deriving DecidableEq

/-- `_parse_sgr_mouse_sequence`. -/
def parseSgrMouseSequence (chars : Characters) (sequence : Text) :
    Except Raised (Option MouseReport) := do
  match (literal "\x1b[" sequence).bind (matchSgrMouse chars) with
  | none => return none
  | some (code, column, row, final) =>
    let code ← intOf chars code
    let column ← intOf chars column
    let row ← intOf chars row
    let (button, action, modifiers) := decodeMouseCode code (textOf "m" = [final])
    return some ⟨button, column - 1, row - 1, action, modifiers⟩

/-- `_parse_x10_mouse_sequence`. -/
def parseX10MouseSequence (sequence : Text) : Option MouseReport :=
  match literal "\x1b[M" sequence with
  | some (code :: column :: row :: _) =>
    let (button, action, modifiers) := decodeMouseCode (code.val - 32) false
    some ⟨button, column.val - 33, row.val - 33, action, modifiers⟩
  | _ => none

/-- `_parse_mouse_sequence`. -/
def parseMouseSequence (chars : Characters) (sequence : Text) :
    Except Raised (Option MouseReport) := do
  match ← parseSgrMouseSequence chars sequence with
  | some report => return some report
  | none => return parseX10MouseSequence sequence

/-- `_parse_kitty_protocol_response`. -/
def parseKittyProtocolResponse (chars : Characters) (sequence : Text) : Option Text := do
  let rest ← literal "\x1b[?" sequence
  let (group, rest) ← digits chars rest
  let rest ← literal "u" rest
  let _ ← atEnd rest
  return group

/-- `_parse_cell_size_response`. -/
def parseCellSizeResponse (chars : Characters) (sequence : Text) : Option Text := do
  let rest ← literal "\x1b[6;" sequence
  let (height, rest) ← digits chars rest
  let rest ← literal ";" rest
  let (width, rest) ← digits chars rest
  let rest ← literal "t" rest
  let _ ← atEnd rest
  return height ++ textOf ";" ++ width

/-- `text.endswith(suffix)`. -/
def endsWith (suffix text : Text) : Bool := suffix.isSuffixOf text

/-- `ST`, and `BEL`. -/
def stringTerminator : Text := [0x1b, 0x5c]

def bell : Text := [0x07]

/-- `sequence[2:-length]`. -/
def controlPayload (sequence : Text) (length : Nat) : Text :=
  (sequence.take (sequence.length - length)).drop 2

/-- `_parse_terminal_control_response`. -/
def parseTerminalControlResponse (sequence : Text) : Option (Text × Text) :=
  if (literal "\x1b]" sequence).isSome && (endsWith bell sequence || endsWith stringTerminator sequence) then
    some (textOf "osc", controlPayload sequence (if endsWith bell sequence then 1 else 2))
  else if (literal "\x1bP" sequence).isSome && endsWith stringTerminator sequence then
    some (textOf "dcs", controlPayload sequence 2)
  else if (literal "\x1b_" sequence).isSome && endsWith stringTerminator sequence then
    some (textOf "apc", controlPayload sequence 2)
  else none

/-! ## Keys -/

/-- `_event_type`. -/
def eventType (value : Option Text) : KeyEventType :=
  if value = some (textOf "2") then .repeat
  else if value = some (textOf "3") then .release
  else .press

/-- The groups of a `CSI … u` key: code point, base layout key, modifier and event type. -/
structure CsiU where
  codepoint : Text
  baseLayoutKey : Option Text
  modifier : Option Text
  event : Option Text

def matchCsiU (chars : Characters) (sequence : Text) : Option CsiU := do
  let rest ← literal "\x1b[" sequence
  let (codepoint, rest) ← digits chars rest
  let (_, rest) := optionalAnyDigits chars ":" rest
  let (baseLayoutKey, rest) := optionalDigits chars ":" rest
  let (modifier, rest) := optionalDigits chars ";" rest
  let (event, rest) := optionalDigits chars ":" rest
  let rest ← literal "u" rest
  let _ ← atEnd rest
  return ⟨codepoint, baseLayoutKey, modifier, event⟩

/-- `^\x1b\[1;(\d+)(?::(\d+))?([FINALS])$`. -/
def matchModifiedFinal (chars : Characters) (finals : String) (sequence : Text) :
    Option (Text × Option Text × CodePoint) := do
  let rest ← literal "\x1b[1;" sequence
  let (modifier, rest) ← digits chars rest
  let (event, rest) := optionalDigits chars ":" rest
  let (final, rest) ← oneOf finals rest
  let _ ← atEnd rest
  return (modifier, event, final)

/-- `^\x1b\[(\d+)(?:;(\d+))?(?::(\d+))?~$`. -/
def matchFunctional (chars : Characters) (sequence : Text) :
    Option (Text × Option Text × Option Text) := do
  let rest ← literal "\x1b[" sequence
  let (number, rest) ← digits chars rest
  let (modifier, rest) := optionalDigits chars ";" rest
  let (event, rest) := optionalDigits chars ":" rest
  let rest ← literal "~" rest
  let _ ← atEnd rest
  return (number, modifier, event)

/-- `^\x1bO([PQRSE])$`. -/
def matchSs3Function (sequence : Text) : Option CodePoint := do
  let rest ← literal "\x1bO" sequence
  let (final, rest) ← oneOf "PQRSE" rest
  let _ ← atEnd rest
  return final

/-- `^\x1b\[27;(\d+);(\d+)~$`. -/
def matchModifyOtherKeys (chars : Characters) (sequence : Text) : Option (Text × Text) := do
  let rest ← literal "\x1b[27;" sequence
  let (modifier, rest) ← digits chars rest
  let rest ← literal ";" rest
  let (codepoint, rest) ← digits chars rest
  let rest ← literal "~" rest
  let _ ← atEnd rest
  return (modifier, codepoint)

structure KittyKey where
  codepoint : Int
  modifier : Int
  eventType : KeyEventType
  baseLayoutKey : Option Nat

/-- `int(group or "1") - 1`. -/
def modifierOf (chars : Characters) (group : Option Text) : Except Raised Int := do
  match group with
  | none => return 0
  | some group => return (← intOf chars group) - 1

/-- The code point of a function key's name. -/
def namedCodepoint (name : String) : Int := (functionalNameCodepoints.lookup name).getD 0

/-- `_parse_kitty_sequence`. -/
def parseKittySequence (chars : Characters) (sequence : Text) :
    Except Raised (Option KittyKey) := do
  if let some groups := matchCsiU chars sequence then
    let codepoint ← intOf chars groups.codepoint
    let baseLayoutKey ←
      match groups.baseLayoutKey with
      | none => pure none
      | some group => do pure (some (← intOf chars group))
    let modifier ← modifierOf chars groups.modifier
    return some ⟨codepoint, modifier, eventType groups.event, baseLayoutKey⟩
  else if let some (modifier, event, final) := matchModifiedFinal chars "ABCD" sequence then
    let codepoint := (arrowCodepoints.find? fun entry => textOf entry.1 = [final]).elim 0 Prod.snd
    return some ⟨codepoint, ← modifierOf chars (some modifier), eventType event, none⟩
  else if let some (number, modifier, event) := matchFunctional chars sequence then
    let number ← intOf chars number
    let modifier ← modifierOf chars modifier
    if number = 13 ∧ modifier ≠ 0 then
      return some ⟨13, modifier, eventType event, none⟩
    else
      match functionalCodepoints.lookup (number : Int) with
      | none => return none
      | some name => return some ⟨namedCodepoint name, modifier, eventType event, none⟩
  else if let some final := matchSs3Function sequence then
    let name :=
      if textOf "P" = [final] then "f1"
      else if textOf "Q" = [final] then "f2"
      else if textOf "R" = [final] then "f3"
      else if textOf "S" = [final] then "f4"
      else "clear"
    return some ⟨namedCodepoint name, 0, .press, none⟩
  else if let some (modifier, event, final) := matchModifiedFinal chars "HF" sequence then
    let codepoint := if textOf "H" = [final] then -14 else -15
    return some ⟨codepoint, ← modifierOf chars (some modifier), eventType event, none⟩
  else
    return none

/-- `_parse_modify_other_keys`. -/
def parseModifyOtherKeys (chars : Characters) (sequence : Text) :
    Except Raised (Option (Int × Int)) := do
  match matchModifyOtherKeys chars sequence with
  | none => return none
  | some (modifier, codepoint) =>
    let codepoint ← intOf chars codepoint
    let modifier ← intOf chars modifier
    return some (codepoint, (modifier : Int) - 1)

/-- `modifier & ~_LOCK_MASK`. -/
def effectiveModifier (modifier : Int) : Int := Int.land modifier (Int.lnot (64 + 128))

/-- `_normalize_shifted_letter`; bit 0 is `_MOD_SHIFT`. -/
def normalizeShiftedLetter (codepoint modifier : Int) : Int :=
  if (effectiveModifier modifier).testBit 0 && 65 ≤ codepoint && codepoint ≤ 90 then codepoint + 32
  else codepoint

/-- `_is_authoritative_keyboard_codepoint`. -/
def isAuthoritativeKeyboardCodepoint (codepoint : Int) : Except Raised Bool := do
  if (97 ≤ codepoint ∧ codepoint ≤ 122) ∨ (48 ≤ codepoint ∧ codepoint ≤ 57) then return true
  else return symbolKeys.contains (← chr codepoint)

/-- `text.split(separator)`. -/
def splitOn (separator : CodePoint) : Text → List Text
  | [] => [[]]
  | point :: rest =>
    if point = separator then [] :: splitOn separator rest
    else
      match splitOn separator rest with
      | [] => [[point]]
      | part :: parts => (point :: part) :: parts

/-- `text.replace(old, new)`; every turn takes a character, so the length is fuel enough. -/
def replaceAll (old new : Text) : Nat → Text → Text
  | 0, text => text
  | _ + 1, [] => []
  | fuel + 1, point :: rest =>
    if old.isPrefixOf (point :: rest) then
      new ++ replaceAll old new fuel ((point :: rest).drop old.length)
    else point :: replaceAll old new fuel rest

def replaceText (old new : String) (text : Text) : Text :=
  replaceAll (textOf old) (textOf new) text.length text

/-- `separator.join(parts)`. -/
def joinText (separator : String) (parts : List Text) : Text :=
  List.intercalate (textOf separator) parts

/-- `_MODIFIER_ORDER`. -/
def modifierOrder : List String := ["ctrl", "shift", "alt", "super"]

/-- `_ALIASES`. -/
def aliases : List (Text × Text) :=
  textTable
    [("esc", "escape"), ("return", "enter"), ("alt_enter", "alt+enter"), ("alt_up", "alt+up"),
      ("alt_down", "alt+down"), ("alt_left", "alt+left"), ("alt_right", "alt+right"),
      ("ctrl_a", "ctrl+a"), ("ctrl_b", "ctrl+b"), ("ctrl_c", "ctrl+c"), ("ctrl_d", "ctrl+d"),
      ("ctrl_e", "ctrl+e"), ("ctrl_f", "ctrl+f"), ("ctrl_g", "ctrl+g"), ("ctrl_j", "ctrl+j"),
      ("ctrl_k", "ctrl+k"), ("ctrl_o", "ctrl+o"), ("ctrl_t", "ctrl+t"), ("ctrl_u", "ctrl+u"),
      ("ctrl_w", "ctrl+w"), ("ctrl_y", "ctrl+y"), ("alt_y", "alt+y")]

/-- `normalize_key_id`. -/
def normalizeKeyId (key : Text) : Text :=
  let key := (aliases.lookup key).getD key
  let key := replaceText "pagedown" "pageDown" (replaceText "pageup" "pageUp" key)
  let parts := splitOn 0x2b key
  match parts.reverse with
  | base :: front@(_ :: _) =>
    joinText "+" ((modifierOrder.map textOf).filter front.contains ++ [base])
  | _ => key

/-- `_apply_modifiers`. -/
def applyModifiers (base : Text) (modifier : Int) : Text :=
  let effective := effectiveModifier modifier
  let modifiers :=
    (if effective.testBit 2 then ["ctrl"] else []) ++
      (if effective.testBit 0 then ["shift"] else []) ++
      (if effective.testBit 1 then ["alt"] else []) ++
      (if effective.testBit 3 then ["super"] else [])
  normalizeKeyId
    (if modifiers = [] then base else joinText "+" (modifiers.map textOf ++ [base]))

/-- `_KITTY_FUNCTIONAL_EQUIVALENTS.get(codepoint, codepoint)`. -/
def normalizedCodepoint (codepoint : Int) : Int :=
  (kittyFunctionalEquivalents.lookup codepoint).getD codepoint

/-- The base of a key that is named by its character. -/
def characterBase (chars : Characters) (codepoint modifier : Int) (baseLayoutKey : Option Nat) :
    Except Raised Text := do
  let identity := normalizeShiftedLetter codepoint modifier
  let effective : Int :=
    if ← isAuthoritativeKeyboardCodepoint identity then identity
    else
      match baseLayoutKey with
      | none => identity
      | some 0 => identity
      | some key => key
  return chars.lower (← chr (normalizeShiftedLetter effective modifier))

/-- The base of a key that has a name. -/
def namedBase (codepoint : Int) : Option Text :=
  match negativeFunctionalCodepoints.lookup codepoint with
  | some name => some (textOf name)
  | none =>
    if codepoint = 9 then some (textOf "tab")
    else if codepoint = 13 ∨ codepoint = 57414 then some (textOf "enter")
    else if codepoint = 27 then some (textOf "escape")
    else if codepoint = 32 then some (textOf "space")
    else if codepoint = 127 then some (textOf "backspace")
    else none

/-- `_format_key_from_codepoint`. -/
def formatKeyFromCodepoint (chars : Characters) (codepoint modifier : Int)
    (baseLayoutKey : Option Nat) : Except Raised Text := do
  let codepoint := normalizedCodepoint codepoint
  let base ←
    match namedBase codepoint with
    | some base => pure base
    | none => characterBase chars codepoint modifier baseLayoutKey
  return applyModifiers base modifier

/-- `_parse_key_sequence`. -/
def parseKeySequence (chars : Characters) (sequence : Text) :
    Except Raised (Option (Text × KeyEventType)) := do
  if let some key := legacyKeySequences.lookup sequence then
    return some (key, .press)
  else
    match ← parseKittySequence chars sequence with
    | some kitty =>
      let key ← formatKeyFromCodepoint chars kitty.codepoint kitty.modifier kitty.baseLayoutKey
      return some (key, kitty.eventType)
    | none =>
      match ← parseModifyOtherKeys chars sequence with
      | some (codepoint, modifier) =>
        return some (← formatKeyFromCodepoint chars codepoint modifier none, .press)
      | none => return none

/-- `_kitty_printable_text`; only what it does with a sequence that parses as a key. -/
def kittyPrintableText (chars : Characters) (sequence : Text) :
    Except Raised (Option CodePoint) := do
  match ← parseKittySequence chars sequence with
  | none => return none
  | some kitty =>
    if kitty.eventType ≠ .press ∨ effectiveModifier kitty.modifier ≠ 0 then return none
    else
      let codepoint := normalizedCodepoint kitty.codepoint
      if (negativeFunctionalCodepoints.lookup codepoint).isSome then return none
      else if codepoint ∈ [9, 13, 27, 127] then return none
      else if codepoint < 32 then return none
      else return some (← chr codepoint)

/-- `_parse_alt_control_sequence`. -/
def parseAltControlSequence (sequence : Text) : Option Text :=
  match sequence with
  | [0x1b, control] => altControlKeyMap.lookup [control]
  | _ => none

end Loushang.Tui
