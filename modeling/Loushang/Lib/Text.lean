import Mathlib.Algebra.GroupWithZero.Nat
import Mathlib.Algebra.Ring.Int.Defs
import Mathlib.Data.List.Basic
import Mathlib.Data.List.Lex
import Mathlib.Order.Fin.Basic

/-!
# Texts as `str` has them

`str.strip()` without arguments removes exactly the characters `str.isspace`
accepts; a text is blank when nothing is left. A `str` is a list of code points,
surrogates included; only texts without surrogates have a UTF-8 encoding.
-/
namespace Loushang.Lib

/-- `str.isspace` of one code point: bidirectional class WS, B, S or category Zs. -/
def isSpaceCode (n : Nat) : Bool :=
  (9 ≤ n && n ≤ 13) || (28 ≤ n && n ≤ 32) || n == 0x85 || n == 0xa0 || n == 0x1680 ||
    (0x2000 ≤ n && n ≤ 0x200a) || n == 0x2028 || n == 0x2029 || n == 0x202f || n == 0x205f ||
    n == 0x3000

def isSpace (c : Char) : Bool := isSpaceCode c.toNat

/-- `not text.strip()`. -/
def isBlank (text : List Char) : Bool := text.all isSpace

/-- A code point of a `str`; unlike a `Char`, it may be a surrogate. -/
abbrev CodePoint := Fin 0x110000

instance pointsNeZero : NeZero 0x110000 := ⟨by decide⟩
instance : LawfulBEq CodePoint := inferInstance
instance : LawfulBEq (List CodePoint) := inferInstance

/-- A `str` that need not have a UTF-8 encoding. -/
structure PyStr where
  points : List CodePoint
  deriving DecidableEq

theorem toNat_lt_codePoint (c : Char) : c.toNat < 0x110000 := by
  have valid := c.valid
  change c.val.toNat < 0x110000
  omega

namespace PyStr

def ofString (text : String) : PyStr :=
  ⟨text.toList.map fun c => ⟨c.toNat, toNat_lt_codePoint c⟩⟩

instance : Coe String PyStr := ⟨ofString⟩

theorem points_injective : Function.Injective points := by
  rintro ⟨one⟩ ⟨other⟩ same
  exact congrArg PyStr.mk same

/-- Texts compare by their code points. -/
instance : LinearOrder PyStr := LinearOrder.lift' points points_injective

def isBlank (text : PyStr) : Bool := text.points.all fun point => isSpaceCode point

/-- `text.encode("utf-8")` succeeds. -/
def encodable (text : PyStr) : Bool :=
  text.points.all fun point => point.val < 0xd800 || 0xdfff < point.val

instance : Append PyStr := ⟨fun front back => ⟨front.points ++ back.points⟩⟩

/-- The text of an f-string, part by part. -/
def concat (parts : List PyStr) : PyStr := ⟨parts.flatMap points⟩

/-- `bool(text)`. -/
def truthy (text : PyStr) : Bool := !text.points.isEmpty

def rstripWhere (drops : CodePoint → Bool) (text : PyStr) : PyStr :=
  ⟨(text.points.reverse.dropWhile drops).reverse⟩

def stripWhere (drops : CodePoint → Bool) (text : PyStr) : PyStr :=
  rstripWhere drops ⟨text.points.dropWhile drops⟩

/-- `text.strip()`. -/
def strip (text : PyStr) : PyStr := text.stripWhere fun point => isSpaceCode point

/-- `text[:length]`. -/
def take (length : Nat) (text : PyStr) : PyStr := ⟨text.points.take length⟩

/-- `separator.join(texts)`. -/
def join (separator : PyStr) : List PyStr → PyStr
  | [] => ⟨[]⟩
  | [text] => text
  | text :: rest => text ++ separator ++ join separator rest

/-- The UTF-8 bytes of one code point that is not a surrogate. -/
def utf8Bytes (n : Nat) : List UInt8 :=
  if n < 0x80 then [.ofNat n]
  else if n < 0x800 then [.ofNat (0xc0 + n / 64), .ofNat (0x80 + n % 64)]
  else if n < 0x10000 then
    [.ofNat (0xe0 + n / 4096), .ofNat (0x80 + n / 64 % 64), .ofNat (0x80 + n % 64)]
  else
    [.ofNat (0xf0 + n / 262144), .ofNat (0x80 + n / 4096 % 64), .ofNat (0x80 + n / 64 % 64),
      .ofNat (0x80 + n % 64)]

/-- `text.encode("utf-8")`. -/
def encode? (text : PyStr) : Option (List UInt8) :=
  if text.encodable then some (text.points.flatMap fun point => utf8Bytes point.val) else none

def toString? (text : PyStr) : Option String :=
  if text.encodable then
    some (String.ofList (text.points.map fun point : CodePoint => Char.ofNat point.val))
  else none

@[simp] theorem toString?_isSome {text : PyStr} : text.toString?.isSome = text.encodable := by
  unfold toString?
  split <;> simp_all

theorem toString?_ofString (text : String) : (ofString text).toString? = some text := by
  have encodes : (ofString text).encodable = true := by
    simp only [encodable, ofString, List.all_map, List.all_eq_true, Function.comp]
    intro c _
    have valid := c.valid
    change (decide (c.val.toNat < 0xd800) || decide (0xdfff < c.val.toNat)) = true
    rw [Bool.or_eq_true, decide_eq_true_eq, decide_eq_true_eq]
    omega
  rw [toString?, if_pos encodes, ofString, List.map_map]
  have same : ((fun point : CodePoint => Char.ofNat point.val) ∘
      fun c => ⟨c.toNat, toNat_lt_codePoint c⟩) = (id : Char → Char) :=
    funext fun c => Char.ofNat_toNat c
  rw [same, List.map_id, String.ofList_toList]

end PyStr

end Loushang.Lib
