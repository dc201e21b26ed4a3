import Loushang.Lib.Dict
import Loushang.Lib.Text

/-!
# JSON texts

`json.dumps` with compact separators and ASCII escapes, and `json.loads`, over the code
points of a `str`. A float is kept as its literal, since nothing here reads its number. The
recursion limit of the scanner is not modelled; the limit of 4300 digits of `int` is.
-/
namespace Loushang.Lib

inductive JsonValue where
  | null
  | bool (value : Bool)
  | int (value : Int)
  | float (literal : PyStr)
  | str (text : PyStr)
  | arr (items : List JsonValue)
  | obj (entries : List (PyStr × JsonValue))

namespace JsonText

abbrev quote : CodePoint := 0x22
abbrev backslash : CodePoint := 0x5c
abbrev comma : CodePoint := 0x2c
abbrev colon : CodePoint := 0x3a
abbrev minus : CodePoint := 0x2d
abbrev openArr : CodePoint := 0x5b
abbrev closeArr : CodePoint := 0x5d
abbrev openObj : CodePoint := 0x7b
abbrev closeObj : CodePoint := 0x7d
abbrev letterU : CodePoint := 0x75
abbrev newline : CodePoint := 0x0a

def codes (text : String) : List CodePoint := (PyStr.ofString text).points

/-! ## `json.dumps` -/

def hexDigit (n : Nat) : CodePoint :=
  ⟨(Nat.digitChar (n % 16)).toNat, toNat_lt_codePoint _⟩

/-- `'\\u{0:04x}'.format(n)`. -/
def unicodeEscape (n : Nat) : List CodePoint :=
  [backslash, letterU, hexDigit (n / 4096), hexDigit (n / 256), hexDigit (n / 16), hexDigit n]

/-- One code point of a text under `ensure_ascii`. -/
def escape (point : CodePoint) : List CodePoint :=
  if point = quote ∨ point = backslash then [backslash, point]
  else if point = 0x0a then [backslash, 0x6e]
  else if point = 0x0d then [backslash, 0x72]
  else if point = 0x09 then [backslash, 0x74]
  else if point = 0x0c then [backslash, 0x66]
  else if point = 0x08 then [backslash, 0x62]
  else if 0x20 ≤ point.val ∧ point.val ≤ 0x7e then [point]
  else if point.val < 0x10000 then unicodeEscape point.val
  else
    unicodeEscape (0xd800 + (point.val - 0x10000) / 0x400) ++
      unicodeEscape (0xdc00 + (point.val - 0x10000) % 0x400)

def dumpStr (text : PyStr) : List CodePoint :=
  quote :: (text.points.flatMap escape ++ [quote])

def digits (n : Nat) : List CodePoint :=
  (Nat.toDigits 10 n).map fun c => ⟨c.toNat, toNat_lt_codePoint c⟩

def dumpInt (value : Int) : List CodePoint :=
  if value < 0 then minus :: digits value.natAbs else digits value.natAbs

mutual

def dump : JsonValue → List CodePoint
  | .null => codes "null"
  | .bool true => codes "true"
  | .bool false => codes "false"
  | .int value => dumpInt value
  | .float literal => literal.points
  | .str text => dumpStr text
  | .arr [] => [openArr, closeArr]
  | .arr (item :: items) => openArr :: (dump item ++ (dumpItems items ++ [closeArr]))
  | .obj [] => [openObj, closeObj]
  | .obj ((key, value) :: entries) =>
    openObj :: (dumpStr key ++ colon :: (dump value ++ (dumpMembers entries ++ [closeObj])))

/-- The items behind the first one. -/
def dumpItems : List JsonValue → List CodePoint
  | [] => []
  | item :: items => comma :: (dump item ++ dumpItems items)

/-- The members behind the first one. -/
def dumpMembers : List (PyStr × JsonValue) → List CodePoint
  | [] => []
  | (key, value) :: entries =>
    comma :: (dumpStr key ++ colon :: (dump value ++ dumpMembers entries))

end

/-- `json.dumps(value, separators=(",", ":"))`. -/
def dumps (value : JsonValue) : PyStr := ⟨dump value⟩

/-! ## `json.loads` -/

def isDigit (point : CodePoint) : Bool := 0x30 ≤ point.val && point.val ≤ 0x39

def hexValue (point : CodePoint) : Option Nat :=
  if isDigit point then some (point.val - 0x30)
  else if 0x61 ≤ point.val ∧ point.val ≤ 0x66 then some (point.val - 0x57)
  else if 0x41 ≤ point.val ∧ point.val ≤ 0x46 then some (point.val - 0x37)
  else none

def hexNumber (a b c d : CodePoint) : Option Nat :=
  match hexValue a, hexValue b, hexValue c, hexValue d with
  | some a, some b, some c, some d => some (4096 * a + 256 * b + 16 * c + d)
  | _, _, _, _ => none

/-- The character behind a backslash that stands for one character. -/
def simpleEscape (kind : CodePoint) : Option CodePoint :=
  if kind = quote ∨ kind = backslash ∨ kind = 0x2f then some kind
  else if kind = 0x62 then some 0x08
  else if kind = 0x66 then some 0x0c
  else if kind = 0x6e then some 0x0a
  else if kind = 0x72 then some 0x0d
  else if kind = 0x74 then some 0x09
  else none

/-- `\uXXXX` behind its `u`; a high surrogate joins the low surrogate of an escape right
behind it. -/
def unicodePoint : List CodePoint → Option (CodePoint × List CodePoint)
  | a :: b :: c :: d :: rest =>
    match hexNumber a b c d with
    | none => none
    | some first =>
      match rest with
      | slash :: kind :: e :: f :: g :: h :: behind =>
        if 0xd800 ≤ first ∧ first ≤ 0xdbff ∧ slash = backslash ∧ kind = letterU then
          match hexNumber e f g h with
          | none => none
          | some second =>
            if 0xdc00 ≤ second ∧ second ≤ 0xdfff then
              some (Fin.ofNat _ (0x10000 + (first - 0xd800) * 0x400 + (second - 0xdc00)), behind)
            else some (Fin.ofNat _ first, rest)
        else some (Fin.ofNat _ first, rest)
      | _ => some (Fin.ofNat _ first, rest)
  | _ => none

/-- The code point behind a backslash. -/
def escapedPoint : List CodePoint → Option (CodePoint × List CodePoint)
  | [] => none
  | kind :: rest =>
    if kind = letterU then unicodePoint rest
    else (simpleEscape kind).map fun point => (point, rest)

/-- One code point of a string, written plainly or as an escape. -/
def stringPoint (point : CodePoint) (rest : List CodePoint) : Option (CodePoint × List CodePoint) :=
  if point.val < 0x20 then none
  else if point = backslash then escapedPoint rest
  else some (point, rest)

/-- The text behind an opening quote, and what follows its closing quote. -/
def scanPoints : Nat → List CodePoint → Option (List CodePoint × List CodePoint)
  | 0, _ => none
  | _ + 1, [] => none
  | fuel + 1, point :: rest =>
    if point = quote then some ([], rest)
    else
      match stringPoint point rest with
      | none => none
      | some (point, rest) =>
        (scanPoints fuel rest).map fun scanned => (point :: scanned.1, scanned.2)

/-- Each code point read takes one or more of `text`. -/
def scanString (text : List CodePoint) : Option (List CodePoint × List CodePoint) :=
  scanPoints text.length text

def isJsonSpace (point : CodePoint) : Bool :=
  point = 0x20 || point = 0x09 || point = 0x0a || point = 0x0d

def skipSpace (text : List CodePoint) : List CodePoint := text.dropWhile isJsonSpace

def digitsValue (text : List CodePoint) : Nat :=
  text.foldl (fun sofar point => 10 * sofar + (point.val - 0x30)) 0

/-- The optional fraction at the front of `text`. -/
def fraction : List CodePoint → List CodePoint × List CodePoint
  | [] => ([], [])
  | dot :: rest =>
    if dot = 0x2e ∧ rest.takeWhile isDigit ≠ [] then
      (dot :: rest.takeWhile isDigit, rest.dropWhile isDigit)
    else ([], dot :: rest)

def exponentSign : List CodePoint → List CodePoint × List CodePoint
  | [] => ([], [])
  | sign :: rest => if sign = 0x2b ∨ sign = minus then ([sign], rest) else ([], sign :: rest)

/-- The optional exponent at the front of `text`. -/
def exponent : List CodePoint → List CodePoint × List CodePoint
  | [] => ([], [])
  | mark :: rest =>
    let signed := exponentSign rest
    if (mark = 0x65 ∨ mark = 0x45) ∧ signed.2.takeWhile isDigit ≠ [] then
      (mark :: (signed.1 ++ signed.2.takeWhile isDigit), signed.2.dropWhile isDigit)
    else ([], mark :: rest)

/-- The integer part: one zero, or digits that do not start with a zero. -/
def integerPart : List CodePoint → Option (List CodePoint × List CodePoint)
  | [] => none
  | lead :: rest =>
    if isDigit lead = false then none
    else if lead = 0x30 then some ([lead], rest)
    else some (lead :: rest.takeWhile isDigit, rest.dropWhile isDigit)

def unsigned (negative : Bool) (text : List CodePoint) : Option (JsonValue × List CodePoint) :=
  match integerPart text with
  | none => none
  | some (whole, rest) =>
    let (fractional, rest) := fraction rest
    let (scale, rest) := exponent rest
    if fractional = [] ∧ scale = [] then
      -- `int` of a text refuses more than 4300 digits
      if 4300 < whole.length then none
      else
        some (.int (if negative then -(digitsValue whole : Int) else digitsValue whole), rest)
    else
      some (.float ⟨(if negative then [minus] else []) ++ whole ++ fractional ++ scale⟩, rest)

def number : List CodePoint → Option (JsonValue × List CodePoint)
  | [] => none
  | point :: rest => if point = minus then unsigned true rest else unsigned false (point :: rest)

/-- `null`, `true` and `false`. -/
def literal : List CodePoint → Option (JsonValue × List CodePoint)
  | [] => none
  | lead :: rest =>
    if lead = 0x6e ∧ (codes "ull").isPrefixOf rest then some (.null, rest.drop 3)
    else if lead = 0x74 ∧ (codes "rue").isPrefixOf rest then some (.bool true, rest.drop 3)
    else if lead = 0x66 ∧ (codes "alse").isPrefixOf rest then some (.bool false, rest.drop 4)
    else none

/-- What `parse_constant` accepts: floats without a number. -/
def notFinite (text : List CodePoint) : Option (JsonValue × List CodePoint) :=
  (["NaN", "Infinity", "-Infinity"].find? fun known => (codes known).isPrefixOf text).map
    fun known => (.float (PyStr.ofString known), text.drop (codes known).length)

/-- `dict(pairs)`: a repeated key keeps its first place and its last value. -/
def makeObj (pairs : List (PyStr × JsonValue)) : JsonValue :=
  .obj ((Dict.empty : Dict PyStr JsonValue).update pairs).entries

mutual

/-- `scan_once` at the front of `text`. -/
def scanValue : Nat → List CodePoint → Option (JsonValue × List CodePoint)
  | 0, _ => none
  | _ + 1, [] => none
  | fuel + 1, point :: rest =>
    if point = quote then
      (scanString rest).map fun scanned => (.str ⟨scanned.1⟩, scanned.2)
    else if point = openObj then
      match skipSpace rest with
      | [] => none
      | mark :: rest =>
        if mark = closeObj then some (.obj [], rest)
        else (scanMembers fuel (mark :: rest)).map fun scanned => (makeObj scanned.1, scanned.2)
    else if point = openArr then
      match skipSpace rest with
      | [] => none
      | mark :: rest =>
        if mark = closeArr then some (.arr [], rest)
        else (scanItems fuel (mark :: rest)).map fun scanned => (.arr scanned.1, scanned.2)
    else
      match literal (point :: rest) with
      | some found => some found
      | none =>
        match number (point :: rest) with
        | some found => some found
        | none => notFinite (point :: rest)

def scanItems : Nat → List CodePoint → Option (List JsonValue × List CodePoint)
  | 0, _ => none
  | fuel + 1, text =>
    match scanValue fuel text with
    | none => none
    | some (item, rest) =>
      match skipSpace rest with
      | [] => none
      | mark :: rest =>
        if mark = closeArr then some ([item], rest)
        else if mark = comma then
          (scanItems fuel (skipSpace rest)).map fun scanned => (item :: scanned.1, scanned.2)
        else none

def scanMembers : Nat → List CodePoint → Option (List (PyStr × JsonValue) × List CodePoint)
  | 0, _ => none
  | _ + 1, [] => none
  | fuel + 1, point :: rest =>
    if point ≠ quote then none
    else
      match scanString rest with
      | none => none
      | some (key, rest) =>
        match skipSpace rest with
        | [] => none
        | mark :: rest =>
          if mark ≠ colon then none
          else
            match scanValue fuel (skipSpace rest) with
            | none => none
            | some (value, rest) =>
              match skipSpace rest with
              | [] => none
              | mark :: rest =>
                if mark = closeObj then some ([(⟨key⟩, value)], rest)
                else if mark = comma then
                  (scanMembers fuel (skipSpace rest)).map fun scanned =>
                    ((⟨key⟩, value) :: scanned.1, scanned.2)
                else none

end

/-- `json.loads(text)`; each call of the scanner consumes a code point within two calls. -/
def loads (text : PyStr) : Option JsonValue :=
  if text.points.head? = some 0xfeff then none
  else
    match scanValue (2 * text.points.length + 2) (skipSpace text.points) with
    | none => none
    | some (value, rest) => if skipSpace rest = [] then some value else none

/-! ## Reading back what was written -/

/-- A text of printable ASCII characters. -/
def printable (text : PyStr) : Bool :=
  text.points.all fun point => 0x20 ≤ point.val && point.val ≤ 0x7e

variable {point : CodePoint}

theorem escape_eq (low : 0x20 ≤ point.val) (high : point.val ≤ 0x7e) :
    escape point = if point = quote ∨ point = backslash then [backslash, point] else [point] := by
  have plain : ∀ control : CodePoint, control.val < 0x20 → point ≠ control := by
    intro control below same
    rw [same] at low
    omega
  unfold escape
  by_cases special : point = quote ∨ point = backslash
  · rw [if_pos special, if_pos special]
  · rw [if_neg special, if_neg special, if_neg (plain _ (by decide)),
      if_neg (plain _ (by decide)), if_neg (plain _ (by decide)), if_neg (plain _ (by decide)),
      if_neg (plain _ (by decide)), if_pos ⟨low, high⟩]

theorem scanPoints_escape (low : 0x20 ≤ point.val) (high : point.val ≤ 0x7e) (fuel : Nat)
    (rest : List CodePoint) :
    scanPoints (fuel + 1) (escape point ++ rest) =
      (scanPoints fuel rest).map fun scanned => (point :: scanned.1, scanned.2) := by
  rw [escape_eq low high]
  by_cases special : point = quote ∨ point = backslash
  · rw [if_pos special]
    rcases special with same | same <;> subst same <;> rfl
  · rw [if_neg special]
    obtain ⟨notQuote, notSlash⟩ := not_or.mp special
    rw [List.singleton_append, scanPoints, if_neg notQuote, stringPoint, if_neg (by omega),
      if_neg notSlash]

theorem scanPoints_text (points : List CodePoint) (clean : printable ⟨points⟩ = true)
    {fuel : Nat} (enough : points.length < fuel) (rest : List CodePoint) :
    scanPoints fuel (points.flatMap escape ++ quote :: rest) = some (points, rest) := by
  induction points generalizing fuel with
  | nil =>
    obtain ⟨fuel, rfl⟩ := Nat.exists_eq_add_of_lt enough
    rfl
  | cons point points ih =>
    rw [printable, List.all_cons, Bool.and_eq_true, Bool.and_eq_true, decide_eq_true_eq,
      decide_eq_true_eq] at clean
    obtain ⟨fuel, rfl⟩ : ∃ n, fuel = n + 1 := ⟨fuel - 1, by omega⟩
    rw [List.length_cons] at enough
    rw [List.flatMap_cons, List.append_assoc, scanPoints_escape clean.1.1 clean.1.2,
      ih clean.2 (by omega)]
    rfl

theorem length_escape (point : CodePoint) : 1 ≤ (escape point).length := by
  unfold escape unicodeEscape
  split_ifs <;> simp

theorem length_flatMap_escape (points : List CodePoint) :
    points.length ≤ (points.flatMap escape).length := by
  induction points with
  | nil => exact Nat.le_refl _
  | cons point points ih =>
    have one := length_escape point
    rw [List.flatMap_cons, List.length_append, List.length_cons]
    omega

variable {text : PyStr}

theorem scanString_text (clean : printable text = true) (rest : List CodePoint) :
    scanString (text.points.flatMap escape ++ quote :: rest) = some (text.points, rest) := by
  apply scanPoints_text _ clean
  have long := length_flatMap_escape text.points
  rw [List.length_append, List.length_cons]
  omega

variable {n : Nat}

theorem length_digits {bound : Nat} (positive : 0 < bound) (small : n < 10 ^ bound) :
    (digits n).length ≤ bound := by
  rw [digits, List.length_map, Nat.length_toDigits_le_iff (by decide) positive]
  exact small

theorem digits_ne_nil (n : Nat) : digits n ≠ [] := by
  unfold digits
  rw [Ne, List.map_eq_nil_iff]
  exact Nat.toDigits_ne_nil

theorem isDigit_of_mem_digits (member : point ∈ digits n) : isDigit point = true := by
  obtain ⟨c, found, rfl⟩ := List.mem_map.mp member
  have digit := Nat.isDigit_of_mem_toDigits (by decide) (by decide) found
  rw [Char.isDigit, Bool.and_eq_true, decide_eq_true_eq, decide_eq_true_eq] at digit
  rw [isDigit, Bool.and_eq_true, decide_eq_true_eq, decide_eq_true_eq]
  exact digit

theorem digitsValue_digits (n : Nat) : digitsValue (digits n) = n := by
  have read : digitsValue (digits n) = Nat.ofDigitChars 10 (Nat.toDigits 10 n) 0 := by
    unfold digitsValue digits
    rw [List.foldl_map, Nat.ofDigitChars_eq_foldl]
    rfl
  rw [read, Nat.ofDigitChars_ten_toDigits]

theorem digits_of_lt_ten (small : n < 10) : digits n = [⟨n.digitChar.toNat, toNat_lt_codePoint _⟩] := by
  unfold digits
  rw [Nat.toDigits_of_lt_base small]
  rfl

theorem digits_zero_or_lead (n : Nat) :
    digits n = [0x30] ∨ ∃ lead rest, digits n = lead :: rest ∧ lead ≠ 0x30 := by
  induction n using Nat.strong_induction_on with
  | _ n ih =>
    rcases Nat.lt_or_ge n 10 with small | large
    · rw [digits_of_lt_ten small]
      rcases Nat.eq_zero_or_pos n with zero | positive
      · left
        subst zero
        rfl
      · right
        refine ⟨_, [], rfl, ?_⟩
        exact (by decide : ∀ digit < 10, 0 < digit →
          (⟨(Nat.digitChar digit).toNat, toNat_lt_codePoint _⟩ : CodePoint) ≠ 0x30) n small positive
    · right
      have split : digits n = digits (n / 10) ++ digits (n % 10) := by
        rw [digits_of_lt_ten (Nat.mod_lt _ (by decide))]
        unfold digits
        rw [Nat.toDigits_of_base_le (by decide) large, List.map_append]
        rfl
      rcases ih (n / 10) (by omega) with zero | ⟨lead, rest, eq, nonzero⟩
      · exfalso
        have value := digitsValue_digits (n / 10)
        rw [zero] at value
        have : n / 10 = 0 := value.symm
        omega
      · exact ⟨lead, rest ++ digits (n % 10), by rw [split, eq, List.cons_append], nonzero⟩

/-- What may stand behind a dumped value: the marks of a document, or the end of a line. -/
def Ends (rest : List CodePoint) : Prop :=
  rest = [] ∨ ∃ mark more, rest = mark :: more ∧
    (mark = comma ∨ mark = closeArr ∨ mark = closeObj ∨ mark = newline)

theorem Ends.cons {mark : CodePoint} {more : List CodePoint}
    (closes : mark = comma ∨ mark = closeArr ∨ mark = closeObj ∨ mark = newline) :
    Ends (mark :: more) :=
  .inr ⟨mark, more, rfl, closes⟩

variable {rest : List CodePoint}

theorem Ends.no_digits (ends : Ends rest) : rest.takeWhile isDigit = [] ∧ rest.dropWhile isDigit = rest := by
  rcases ends with rfl | ⟨mark, more, rfl, rfl | rfl | rfl | rfl⟩ <;> exact ⟨rfl, rfl⟩

variable {points : List CodePoint}

theorem takeWhile_digits (all : ∀ point ∈ points, isDigit point = true) (ends : Ends rest) :
    (points ++ rest).takeWhile isDigit = points ∧ (points ++ rest).dropWhile isDigit = rest := by
  obtain ⟨none, whole⟩ := ends.no_digits
  rw [List.takeWhile_append_of_pos all, List.dropWhile_append_of_pos all, none, whole,
    List.append_nil]
  exact ⟨rfl, rfl⟩

theorem integerPart_digits (n : Nat) (ends : Ends rest) :
    integerPart (digits n ++ rest) = some (digits n, rest) := by
  have all : ∀ point ∈ digits n, isDigit point = true := fun _ => isDigit_of_mem_digits
  rcases digits_zero_or_lead n with zero | ⟨lead, more, eq, nonzero⟩
  · rw [zero]
    rfl
  · rw [eq] at all ⊢
    have digit := all lead List.mem_cons_self
    obtain ⟨taken, dropped⟩ :=
      takeWhile_digits (fun point member => all point (List.mem_cons_of_mem _ member)) ends
    rw [List.cons_append, integerPart, if_neg (by rw [digit]; decide), if_neg nonzero, taken,
      dropped]

theorem fraction_ends (ends : Ends rest) : fraction rest = ([], rest) := by
  rcases ends with rfl | ⟨mark, more, rfl, rfl | rfl | rfl | rfl⟩ <;> rfl

theorem exponent_ends (ends : Ends rest) : exponent rest = ([], rest) := by
  rcases ends with rfl | ⟨mark, more, rfl, rfl | rfl | rfl | rfl⟩ <;> rfl

theorem unsigned_digits (negative : Bool) (short : (digits n).length ≤ 4300) (ends : Ends rest) :
    unsigned negative (digits n ++ rest) =
      some (.int (if negative then -(n : Int) else n), rest) := by
  unfold unsigned
  rw [integerPart_digits n ends]
  simp only [fraction_ends ends, exponent_ends ends, and_self, if_true]
  rw [if_neg (by omega), digitsValue_digits]

theorem number_dumpInt {value : Int} (short : (digits value.natAbs).length ≤ 4300) (ends : Ends rest) :
    number (dumpInt value ++ rest) = some (.int value, rest) := by
  unfold dumpInt
  split
  · next negative =>
    rw [List.cons_append, number, if_pos rfl, unsigned_digits true short ends, if_pos rfl]
    congr 3
    omega
  · next positive =>
    have read := unsigned_digits false short ends
    cases whole : digits value.natAbs with
    | nil => exact absurd whole (digits_ne_nil _)
    | cons lead more =>
      have digit : isDigit lead = true :=
        isDigit_of_mem_digits (n := value.natAbs) (by rw [whole]; exact List.mem_cons_self)
      have notMinus : lead ≠ minus := by
        intro same
        rw [same] at digit
        cases digit
      rw [List.cons_append, number, if_neg notMinus, ← List.cons_append, ← whole, read,
        if_neg (by decide)]
      congr 3
      omega

mutual

/-- Values without floats whose texts are printable, whose integers `int` reads back and
whose objects repeat no key. -/
def Plain : JsonValue → Prop
  | .null => True
  | .bool _ => True
  | .int value => (digits value.natAbs).length ≤ 4300
  | .float _ => False
  | .str text => printable text = true
  | .arr items => PlainItems items
  | .obj entries => (entries.map Prod.fst).Nodup ∧ PlainMembers entries

def PlainItems : List JsonValue → Prop
  | [] => True
  | item :: items => Plain item ∧ PlainItems items

def PlainMembers : List (PyStr × JsonValue) → Prop
  | [] => True
  | (key, value) :: entries => printable key = true ∧ Plain value ∧ PlainMembers entries

end

/-- How a dumped value starts. -/
def Starts (text : List CodePoint) : Prop :=
  ∃ lead rest, text = lead :: rest ∧ isJsonSpace lead = false ∧ lead ≠ closeArr ∧ lead ≠ 0xfeff

variable {lead : CodePoint}

theorem starts_of_cons (starts : isJsonSpace lead = false ∧ lead ≠ closeArr ∧ lead ≠ 0xfeff) :
    Starts (lead :: rest) :=
  ⟨lead, rest, rfl, starts⟩

theorem digit_starts (digit : isDigit point = true) :
    isJsonSpace point = false ∧ point ≠ closeArr ∧ point ≠ 0xfeff := by
  rw [isDigit, Bool.and_eq_true, decide_eq_true_eq, decide_eq_true_eq] at digit
  have other : ∀ mark : CodePoint, ¬(0x30 ≤ mark.val ∧ mark.val ≤ 0x39) → point ≠ mark := by
    intro mark not same
    exact not (same ▸ digit)
  refine ⟨?_, other _ (by decide), other _ (by decide)⟩
  simp only [isJsonSpace, Bool.or_eq_false_iff, decide_eq_false_iff_not]
  exact ⟨⟨⟨other _ (by decide), other _ (by decide)⟩, other _ (by decide)⟩, other _ (by decide)⟩

theorem dumpInt_lead (value : Int) :
    ∃ lead rest, dumpInt value = lead :: rest ∧ (lead = minus ∨ isDigit lead = true) := by
  unfold dumpInt
  cases whole : digits value.natAbs with
  | nil => exact absurd whole (digits_ne_nil _)
  | cons next more =>
    have digit : isDigit next = true :=
      isDigit_of_mem_digits (n := value.natAbs) (by rw [whole]; exact List.mem_cons_self)
    split
    · exact ⟨_, _, rfl, .inl rfl⟩
    · exact ⟨_, _, rfl, .inr digit⟩

theorem lead_ne (minusOrDigit : lead = minus ∨ isDigit lead = true) {mark : CodePoint}
    (other : isDigit mark = false ∧ mark ≠ minus) : lead ≠ mark := by
  intro same
  subst same
  rcases minusOrDigit with isMinus | digit
  · exact other.2 isMinus
  · rw [other.1] at digit
    cases digit

variable {value : JsonValue}

theorem dump_starts (plain : Plain value) : Starts (dump value) := by
  cases value with
  | null => exact starts_of_cons (by decide)
  | bool value => cases value <;> exact starts_of_cons (by decide)
  | int value =>
    obtain ⟨lead, rest, eq, minusOrDigit⟩ := dumpInt_lead value
    rw [dump, eq]
    rcases minusOrDigit with rfl | digit
    · exact starts_of_cons (by decide)
    · exact starts_of_cons (digit_starts digit)
  | float literal => exact absurd plain (by rw [Plain]; exact not_false)
  | str text => exact starts_of_cons (by decide)
  | arr items => cases items <;> exact starts_of_cons (by decide)
  | obj entries => cases entries <;> exact starts_of_cons (by decide)

theorem skipSpace_of_starts {text : List CodePoint} (starts : Starts text)
    (rest : List CodePoint) : skipSpace (text ++ rest) = text ++ rest := by
  obtain ⟨lead, more, rfl, solid, -⟩ := starts
  rw [skipSpace, List.cons_append, List.dropWhile_cons_of_neg (by rw [solid]; decide)]

theorem scanValue_dumpInt {value : Int} (short : (digits value.natAbs).length ≤ 4300) (fuel : Nat)
    (ends : Ends rest) : scanValue (fuel + 1) (dumpInt value ++ rest) = some (.int value, rest) := by
  have read := number_dumpInt short ends
  obtain ⟨lead, more, eq, minusOrDigit⟩ := dumpInt_lead value
  have noLiteral : literal (lead :: (more ++ rest)) = none := by
    rw [literal, if_neg, if_neg, if_neg]
    · exact fun both => lead_ne minusOrDigit (by decide) both.1
    · exact fun both => lead_ne minusOrDigit (by decide) both.1
    · exact fun both => lead_ne minusOrDigit (by decide) both.1
  rw [eq, List.cons_append] at read ⊢
  rw [scanValue, if_neg (lead_ne minusOrDigit (by decide)),
    if_neg (lead_ne minusOrDigit (by decide)), if_neg (lead_ne minusOrDigit (by decide)),
    noLiteral, read]

theorem dumpItems_ends (items : List JsonValue) (rest : List CodePoint) :
    Ends (dumpItems items ++ closeArr :: rest) := by
  cases items with
  | nil => exact .cons (.inr (.inl rfl))
  | cons item items => exact .cons (.inl rfl)

theorem skipSpace_dumpItems (items : List JsonValue) (rest : List CodePoint) :
    skipSpace (dumpItems items ++ closeArr :: rest) = dumpItems items ++ closeArr :: rest := by
  cases items <;> rfl

theorem dumpMembers_ends (entries : List (PyStr × JsonValue)) (rest : List CodePoint) :
    Ends (dumpMembers entries ++ closeObj :: rest) := by
  cases entries with
  | nil => exact .cons (.inr (.inr (.inl rfl)))
  | cons entry entries => exact .cons (.inl rfl)

theorem skipSpace_dumpMembers (entries : List (PyStr × JsonValue)) (rest : List CodePoint) :
    skipSpace (dumpMembers entries ++ closeObj :: rest) =
      dumpMembers entries ++ closeObj :: rest := by
  cases entries <;> rfl

theorem makeObj_nodup {entries : List (PyStr × JsonValue)}
    (nodup : (entries.map Prod.fst).Nodup) : makeObj entries = .obj entries := by
  unfold makeObj
  rw [Dict.entries_update_of_disjoint nodup (by simp)]
  rfl

theorem dump_pos (plain : Plain value) : 0 < (dump value).length := by
  obtain ⟨lead, rest, eq, _⟩ := dump_starts plain
  rw [eq]
  exact Nat.succ_pos _

theorem dumpStr_starts (key : PyStr) : Starts (dumpStr key) := starts_of_cons (by decide)

mutual

theorem scanValue_dump : ∀ (value : JsonValue), Plain value → ∀ (fuel : Nat),
    2 * (dump value).length ≤ fuel + 1 → ∀ (rest : List CodePoint), Ends rest →
      scanValue (fuel + 1) (dump value ++ rest) = some (value, rest)
  | .null, _, fuel, _, rest, _ => rfl
  | .bool true, _, fuel, _, rest, _ => rfl
  | .bool false, _, fuel, _, rest, _ => rfl
  | .int value, plain, fuel, _, rest, ends => scanValue_dumpInt plain fuel ends
  | .float _, plain, _, _, _, _ => by
    rw [Plain] at plain
    exact plain.elim
  | .str text, plain, fuel, _, rest, _ => by
    rw [Plain] at plain
    rw [dump, dumpStr, List.cons_append, List.append_assoc, List.singleton_append, scanValue,
      if_pos rfl, scanString_text plain]
    rfl
  | .arr [], _, fuel, _, rest, _ => rfl
  | .arr (item :: items), plain, fuel, enough, rest, _ => by
    rw [Plain] at plain
    have starts := dump_starts plain.1
    rw [dump, List.length_cons, List.length_append, List.length_append,
      List.length_singleton] at enough
    obtain ⟨fuel, rfl⟩ : ∃ less, fuel = less + 1 := ⟨fuel - 1, by omega⟩
    have read := scanItems_dump item items plain fuel (by rw [List.length_append]; omega) rest
    obtain ⟨lead, more, eq, solid, isOpen, noMark⟩ := starts
    rw [dump, List.cons_append, List.append_assoc, List.append_assoc, List.singleton_append,
      scanValue, if_neg (by decide), if_neg (by decide), if_pos rfl,
      skipSpace_of_starts ⟨lead, more, eq, solid, isOpen, noMark⟩]
    rw [eq, List.cons_append] at read ⊢
    simp only [if_neg isOpen, read, Option.map_some]
  | .obj [], _, fuel, _, rest, _ => rfl
  | .obj ((key, value) :: entries), plain, fuel, enough, rest, _ => by
    rw [Plain] at plain
    simp only [dump, List.length_cons, List.length_append, List.length_nil] at enough
    obtain ⟨fuel, rfl⟩ : ∃ less, fuel = less + 1 := ⟨fuel - 1, by omega⟩
    have read := scanMembers_dump key value entries plain.2 fuel (by
      simp only [List.length_cons, List.length_append]
      omega) rest
    rw [dump, List.cons_append, List.append_assoc, List.cons_append, List.append_assoc,
      List.append_assoc, List.singleton_append, scanValue, if_neg (by decide), if_pos rfl,
      skipSpace_of_starts (dumpStr_starts key)]
    rw [dumpStr, List.cons_append] at read ⊢
    simp only [if_neg (show quote ≠ closeObj by decide), read, Option.map_some,
      makeObj_nodup plain.1]
termination_by _ _ fuel => fuel

theorem scanItems_dump : ∀ (item : JsonValue) (items : List JsonValue),
    PlainItems (item :: items) → ∀ (fuel : Nat),
      2 * (dump item ++ dumpItems items).length ≤ fuel → ∀ (rest : List CodePoint),
        scanItems (fuel + 1) (dump item ++ (dumpItems items ++ closeArr :: rest)) =
          some (item :: items, rest)
  | item, items, plain, fuel, enough, rest => by
    rw [PlainItems] at plain
    have long := dump_pos plain.1
    rw [List.length_append] at enough
    obtain ⟨fuel, rfl⟩ : ∃ less, fuel = less + 1 := ⟨fuel - 1, by omega⟩
    rw [scanItems, scanValue_dump item plain.1 fuel (by omega) _ (dumpItems_ends items rest)]
    simp only [skipSpace_dumpItems items rest]
    cases items with
    | nil => rfl
    | cons next items =>
      have starts := dump_starts plain.2.1
      rw [dumpItems, List.length_cons] at enough
      have read := scanItems_dump next items plain.2 fuel (by omega) rest
      rw [dumpItems, List.cons_append, List.append_assoc]
      simp only [if_neg (show comma ≠ closeArr by decide), if_true, skipSpace_of_starts starts,
        read, Option.map_some]
termination_by _ _ _ fuel => fuel

theorem scanMembers_dump : ∀ (key : PyStr) (value : JsonValue)
    (entries : List (PyStr × JsonValue)), PlainMembers ((key, value) :: entries) →
      ∀ (fuel : Nat), 2 * (dumpStr key ++ colon :: (dump value ++ dumpMembers entries)).length ≤ fuel →
        ∀ (rest : List CodePoint),
          scanMembers (fuel + 1) (dumpStr key ++ colon :: (dump value ++
            (dumpMembers entries ++ closeObj :: rest))) = some ((key, value) :: entries, rest)
  | key, value, entries, plain, fuel, enough, rest => by
    rw [PlainMembers] at plain
    obtain ⟨keyClean, valuePlain, entriesPlain⟩ := plain
    rw [List.length_append, List.length_cons, List.length_append] at enough
    obtain ⟨fuel, rfl⟩ : ∃ less, fuel = less + 1 := ⟨fuel - 1, by omega⟩
    rw [dumpStr, List.cons_append, List.append_assoc, List.singleton_append, scanMembers,
      if_neg (not_not.mpr rfl), scanString_text keyClean]
    have atColon : ∀ more, skipSpace (colon :: more) = colon :: more := fun more => rfl
    simp only [atColon, if_neg (not_not.mpr (rfl : colon = colon)),
      skipSpace_of_starts (dump_starts valuePlain),
      scanValue_dump value valuePlain fuel (by omega) _ (dumpMembers_ends entries rest),
      skipSpace_dumpMembers entries rest]
    cases entries with
    | nil => rfl
    | cons entry entries =>
      obtain ⟨nextKey, next⟩ := entry
      rw [dumpMembers, List.length_cons] at enough
      have read := scanMembers_dump nextKey next entries entriesPlain fuel (by omega) rest
      rw [dumpMembers, List.cons_append, List.append_assoc, List.cons_append, List.append_assoc]
      simp only [if_neg (show comma ≠ closeObj by decide), if_true,
        skipSpace_of_starts (dumpStr_starts nextKey), read, Option.map_some]
termination_by _ _ _ _ fuel => fuel

end

theorem escape_printable (low : 0x20 ≤ point.val) (high : point.val ≤ 0x7e) :
    ∀ other ∈ escape point, 0x20 ≤ other.val ∧ other.val ≤ 0x7e := by
  rw [escape_eq low high]
  intro other member
  split at member
  · rcases List.mem_pair.mp member with rfl | rfl
    · decide
    · exact ⟨low, high⟩
  · rw [List.mem_singleton.mp member]
    exact ⟨low, high⟩

/-- Printable ASCII characters only. -/
abbrev Ascii (text : List CodePoint) : Prop := ∀ point ∈ text, 0x20 ≤ point.val ∧ point.val ≤ 0x7e

theorem ascii_of_printable {text : List CodePoint} (clean : printable ⟨text⟩ = true) :
    Ascii text := by
  intro point member
  have bounds := List.all_eq_true.mp clean point member
  rwa [Bool.and_eq_true, decide_eq_true_eq, decide_eq_true_eq] at bounds

theorem printable_of_ascii {text : List CodePoint} (ascii : Ascii text) :
    printable ⟨text⟩ = true := by
  rw [printable, List.all_eq_true]
  intro point member
  rw [Bool.and_eq_true, decide_eq_true_eq, decide_eq_true_eq]
  exact ascii point member

theorem length_flatMap_escape_le (ascii : Ascii points) :
    (points.flatMap escape).length ≤ 2 * points.length := by
  induction points with
  | nil => exact Nat.le_refl _
  | cons point points ih =>
    obtain ⟨low, high⟩ := ascii point List.mem_cons_self
    have rest := ih fun other member => ascii other (List.mem_cons_of_mem _ member)
    have one : (escape point).length ≤ 2 := by
      rw [escape_eq low high]
      split <;> simp
    rw [List.flatMap_cons, List.length_append, List.length_cons]
    omega

theorem length_dumpStr_le (clean : printable text = true) :
    (dumpStr text).length ≤ 2 * text.points.length + 2 := by
  have body := length_flatMap_escape_le (ascii_of_printable clean)
  rw [dumpStr, List.length_cons, List.length_append, List.length_singleton]
  omega

theorem Ascii.append {front back : List CodePoint} (one : Ascii front) (other : Ascii back) :
    Ascii (front ++ back) := by
  intro point member
  rcases List.mem_append.mp member with here | there
  · exact one point here
  · exact other point there

theorem Ascii.cons {point : CodePoint} {text : List CodePoint}
    (one : 0x20 ≤ point.val ∧ point.val ≤ 0x7e) (rest : Ascii text) : Ascii (point :: text) :=
  List.forall_mem_cons.mpr ⟨one, rest⟩

theorem dumpStr_ascii (clean : printable text = true) : Ascii (dumpStr text) := by
  have body : Ascii (text.points.flatMap escape) := by
    intro other member
    obtain ⟨point, inside, escaped⟩ := List.mem_flatMap.mp member
    have bounds := ascii_of_printable clean point inside
    exact escape_printable bounds.1 bounds.2 other escaped
  exact .cons (by decide) (body.append (.cons (by decide) (List.forall_mem_nil _)))

theorem dumpInt_ascii (value : Int) : Ascii (dumpInt value) := by
  have all : Ascii (digits value.natAbs) := by
    intro point member
    have digit := isDigit_of_mem_digits member
    rw [isDigit, Bool.and_eq_true, decide_eq_true_eq, decide_eq_true_eq] at digit
    omega
  unfold dumpInt
  split
  · exact .cons (by decide) all
  · exact all

mutual

theorem dump_ascii : ∀ (value : JsonValue), Plain value → Ascii (dump value)
  | .null, _ => ascii_of_printable (by decide)
  | .bool true, _ => ascii_of_printable (by decide)
  | .bool false, _ => ascii_of_printable (by decide)
  | .int value, _ => dumpInt_ascii value
  | .float _, plain => by
    rw [Plain] at plain
    exact plain.elim
  | .str text, plain => by
    rw [Plain] at plain
    exact dumpStr_ascii plain
  | .arr [], _ => ascii_of_printable (by decide)
  | .arr (item :: items), plain => by
    rw [Plain, PlainItems] at plain
    exact .cons (by decide) ((dump_ascii item plain.1).append
      ((dumpItems_ascii items plain.2).append (.cons (by decide) (List.forall_mem_nil _))))
  | .obj [], _ => ascii_of_printable (by decide)
  | .obj ((key, value) :: entries), plain => by
    rw [Plain, PlainMembers] at plain
    obtain ⟨-, keyClean, valuePlain, rest⟩ := plain
    exact .cons (by decide) ((dumpStr_ascii keyClean).append (.cons (by decide)
      ((dump_ascii value valuePlain).append ((dumpMembers_ascii entries rest).append
        (.cons (by decide) (List.forall_mem_nil _))))))

theorem dumpItems_ascii : ∀ (items : List JsonValue), PlainItems items → Ascii (dumpItems items)
  | [], _ => List.forall_mem_nil _
  | item :: items, plain => by
    rw [PlainItems] at plain
    exact .cons (by decide) ((dump_ascii item plain.1).append (dumpItems_ascii items plain.2))

theorem dumpMembers_ascii : ∀ (entries : List (PyStr × JsonValue)), PlainMembers entries →
    Ascii (dumpMembers entries)
  | [], _ => List.forall_mem_nil _
  | (key, value) :: entries, plain => by
    rw [PlainMembers] at plain
    exact .cons (by decide) ((dumpStr_ascii plain.1).append (.cons (by decide)
      ((dump_ascii value plain.2.1).append (dumpMembers_ascii entries plain.2.2))))

end

/-- What was dumped is read back, also from a line of its own. -/
theorem loads_dumps (plain : Plain value) (blank : rest = [] ∨ rest = [newline]) :
    loads ⟨dump value ++ rest⟩ = some value := by
  have ends : Ends rest := by
    rcases blank with rfl | rfl
    · exact .inl rfl
    · exact .cons (.inr (.inr (.inr rfl)))
  have behind : skipSpace rest = [] := by
    rcases blank with rfl | rfl <;> rfl
  have starts := dump_starts plain
  have read := scanValue_dump value plain (2 * (dump value ++ rest).length + 1)
    (by rw [List.length_append]; omega) rest ends
  unfold loads
  rw [if_neg, skipSpace_of_starts starts, read]
  · exact if_pos behind
  · obtain ⟨lead, more, eq, -, -, noMark⟩ := starts
    rw [eq, List.cons_append, List.head?_cons, Option.some.injEq]
    exact noMark

end JsonText

end Loushang.Lib
