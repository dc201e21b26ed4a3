import Mathlib.Data.List.Basic

/-!
# UTF-8 with escaped bytes

A text that `errors="surrogateescape"` can encode is a list of scalar values and of bytes that were
not UTF-8, which decoding keeps as the lone surrogates U+DC80 to U+DCFF. Decoding takes the
character at the front, or escapes one byte; the incremental decoder stops where more bytes could
complete a character, and goes on from there when they come.
-/
namespace Loushang.Lib.Utf8

/-- A character of such a text. -/
inductive Character where
  | scalar (c : Char)
  | escaped (byte : UInt8) (high : 0x80 ≤ byte)
  deriving DecidableEq

abbrev Text := List Character

namespace Character

def bytes : Character → List UInt8
  | scalar c => String.utf8EncodeChar c
  | escaped byte _ => [byte]

def isEscaped : Character → Bool
  | scalar _ => false
  | escaped _ _ => true

def scalar? : Character → Option Char
  | scalar c => some c
  | escaped _ _ => none

theorem bytes_ne_nil (character : Character) : character.bytes ≠ [] := by
  cases character with
  | scalar c =>
    intro empty
    have size := String.length_utf8EncodeChar c
    have positive := c.utf8Size_pos
    simp only [bytes] at empty
    rw [empty, List.length_nil] at size
    omega
  | escaped byte high => simp [bytes]

theorem length_bytes_pos (character : Character) : 0 < character.bytes.length :=
  List.length_pos_iff.mpr character.bytes_ne_nil

end Character

/-- `text.encode("utf-8", errors="surrogateescape")`. -/
def encode (text : Text) : List UInt8 := text.flatMap Character.bytes

@[simp] theorem encode_nil : encode [] = [] := rfl

@[simp] theorem encode_cons (character : Character) (text : Text) :
    encode (character :: text) = character.bytes ++ encode text := rfl

@[simp] theorem encode_append (front back : Text) : encode (front ++ back) = encode front ++ encode back :=
  List.flatMap_append

theorem length_le_encode (text : Text) : text.length ≤ (encode text).length := by
  induction text with
  | nil => simp
  | cons character rest ih =>
    have positive := character.length_bytes_pos
    simp only [encode_cons, List.length_cons, List.length_append]
    omega

/-! ## The character at the front -/

/-- The scalar value whose encoding starts the bytes. -/
def front? (bytes : List UInt8) : Option Char := bytes.toByteArray.utf8DecodeChar? 0

theorem front?_encoded (c : Char) (rest : List UInt8) : front? (String.utf8EncodeChar c ++ rest) = some c := by
  unfold front?
  rw [List.toByteArray_append]
  exact ByteArray.utf8DecodeChar?_utf8EncodeChar_append

variable {bytes : List UInt8}

theorem exists_of_front? {c : Char} (found : front? bytes = some c) :
    ∃ rest, bytes = String.utf8EncodeChar c ++ rest := by
  obtain ⟨rest, split⟩ := ByteArray.exists_of_utf8DecodeChar?_eq_some found
  refine ⟨rest.data.toList, ?_⟩
  have lists := congrArg (fun bytes : ByteArray => bytes.data.toList) split
  simpa using lists

variable {byte : UInt8}

/-- A byte below 0x80 is a character of its own. -/
theorem front?_low (low : ¬ 0x80 ≤ byte) (rest : List UInt8) : (front? (byte :: rest)).isSome = true := by
  have small : byte.toNat < 128 := by
    rw [UInt8.le_iff_toNat_le] at low
    simpa using low
  have valid : Nat.isValidChar byte.toNat := by
    unfold Nat.isValidChar
    omega
  have encoded : String.utf8EncodeChar (Char.ofNat byte.toNat) = [byte] := by
    have value : (Char.ofNat byte.toNat).val.toNat = byte.toNat := by
      have same : (Char.ofNat byte.toNat).toNat = byte.toNat := by
        unfold Char.ofNat
        rw [dif_pos valid]
        rfl
      exact same
    unfold String.utf8EncodeChar
    simp only [value]
    rw [if_pos (by omega)]
    simp
  have split : byte :: rest = String.utf8EncodeChar (Char.ofNat byte.toNat) ++ rest := by
    rw [encoded]
    rfl
  rw [split, front?_encoded]
  rfl

/-- What stands at the front of bytes: nothing, a character, or a byte to escape. -/
theorem front_induction {motive : List UInt8 → Prop} (nil : motive [])
    (scalar : ∀ c rest, motive rest → motive (String.utf8EncodeChar c ++ rest))
    (escaped : ∀ byte rest, 0x80 ≤ byte → front? (byte :: rest) = none → motive rest → motive (byte :: rest)) :
    ∀ bytes, motive bytes := by
  intro bytes
  generalize size : bytes.length = n
  induction n using Nat.strongRecOn generalizing bytes with
  | _ n ih =>
    cases bytes with
    | nil => exact nil
    | cons byte rest =>
      cases found : front? (byte :: rest) with
      | some c =>
        obtain ⟨more, split⟩ := exists_of_front? found
        have shorter : more.length < n := by
          have positive := Character.length_bytes_pos (.scalar c)
          have lengths := congrArg List.length split
          rw [List.length_append] at lengths
          simp only [Character.bytes] at positive
          omega
        rw [split]
        exact scalar c more (ih more.length shorter more rfl)
      | none =>
        have high : 0x80 ≤ byte := by
          by_contra low
          have some_ := front?_low low rest
          rw [found] at some_
          cases some_
        exact escaped byte rest high found (ih rest.length (by simp at size; omega) rest rfl)

/-! ## Decoding -/

def decodeWithin : Nat → List UInt8 → Text
  | 0, _ => []
  | _, [] => []
  | rounds + 1, byte :: rest =>
    match front? (byte :: rest) with
    | some c => .scalar c :: decodeWithin rounds ((byte :: rest).drop (String.utf8EncodeChar c).length)
    | none =>
      if high : 0x80 ≤ byte then .escaped byte high :: decodeWithin rounds rest
      else decodeWithin rounds rest

/-- `bytes.decode("utf-8", errors="surrogateescape")`, at most one round for each byte. -/
def decode (bytes : List UInt8) : Text := decodeWithin bytes.length bytes

theorem decodeWithin_scalar (rounds : Nat) (c : Char) (rest : List UInt8) :
    decodeWithin (rounds + 1) (String.utf8EncodeChar c ++ rest) = .scalar c :: decodeWithin rounds rest := by
  have nonempty := Character.bytes_ne_nil (.scalar c)
  simp only [Character.bytes] at nonempty
  obtain ⟨byte, more, start⟩ := List.exists_cons_of_ne_nil nonempty
  have found := front?_encoded c rest
  rw [start, List.cons_append] at found
  rw [start, List.cons_append, decodeWithin, found]
  dsimp only
  rw [start, List.length_cons, ← List.cons_append]
  congr 2
  exact List.drop_left' (by simp)

variable {rest : List UInt8}

theorem decodeWithin_escaped (rounds : Nat) (high : 0x80 ≤ byte) (none_ : front? (byte :: rest) = none) :
    decodeWithin (rounds + 1) (byte :: rest) = .escaped byte high :: decodeWithin rounds rest := by
  rw [decodeWithin, none_]
  rw [dif_pos high]

theorem decodeWithin_enough (bytes : List UInt8) :
    ∀ rounds, bytes.length ≤ rounds → decodeWithin rounds bytes = decode bytes := by
  unfold decode
  induction bytes using front_induction with
  | nil =>
    intro rounds _
    cases rounds <;> rfl
  | scalar c rest ih =>
    have positive := Character.length_bytes_pos (.scalar c)
    simp only [Character.bytes] at positive
    intro rounds enough
    rw [List.length_append] at enough ⊢
    obtain ⟨m, rfl⟩ := Nat.exists_eq_add_of_le' (show 1 ≤ rounds by omega)
    obtain ⟨n, size⟩ := Nat.exists_eq_add_of_le' (show 1 ≤ (String.utf8EncodeChar c).length + rest.length by omega)
    rw [size, decodeWithin_scalar, decodeWithin_scalar, ih m (by omega), ih n (by omega)]
  | escaped byte rest high none_ ih =>
    intro rounds enough
    rw [List.length_cons] at enough ⊢
    obtain ⟨m, rfl⟩ := Nat.exists_eq_add_of_le' (show 1 ≤ rounds by omega)
    rw [decodeWithin_escaped m high none_, decodeWithin_escaped _ high none_, ih m (by omega)]

@[simp] theorem decode_nil : decode [] = [] := rfl

theorem decode_scalar (c : Char) (rest : List UInt8) :
    decode (String.utf8EncodeChar c ++ rest) = .scalar c :: decode rest := by
  have positive := Character.length_bytes_pos (.scalar c)
  simp only [Character.bytes] at positive
  unfold decode
  rw [List.length_append]
  obtain ⟨n, size⟩ := Nat.exists_eq_add_of_le' (show 1 ≤ (String.utf8EncodeChar c).length + rest.length by omega)
  rw [size, decodeWithin_scalar, decodeWithin_enough rest n (by omega)]
  rfl

theorem decode_escaped (high : 0x80 ≤ byte) (none_ : front? (byte :: rest) = none) :
    decode (byte :: rest) = .escaped byte high :: decode rest := by
  unfold decode
  exact decodeWithin_escaped _ high none_

/-- Decoding loses nothing. -/
theorem encode_decode (bytes : List UInt8) : encode (decode bytes) = bytes := by
  induction bytes using front_induction with
  | nil => rfl
  | scalar c rest ih => rw [decode_scalar, encode_cons, ih, Character.bytes]
  | escaped byte rest high none_ ih =>
    rw [decode_escaped high none_, encode_cons, ih]
    rfl

theorem decode_scalars (chars : List Char) : decode (encode (chars.map .scalar)) = chars.map .scalar := by
  induction chars with
  | nil => rfl
  | cons c rest ih =>
    rw [List.map_cons, encode_cons]
    exact (decode_scalar c _).trans (congrArg _ ih)

/-- `bytes.decode("utf-8")`, which raises at the first byte that has to be escaped. -/
def decodeStrict (bytes : List UInt8) : Option (List Char) := (decode bytes).mapM Character.scalar?

variable {text : Text} {chars : List Char}

theorem mapM_scalar?_eq_some : text.mapM Character.scalar? = some chars ↔ text = chars.map .scalar := by
  induction text generalizing chars with
  | nil => cases chars <;> simp
  | cons character rest ih =>
    cases character with
    | scalar c =>
      cases chars with
      | nil => cases later : rest.mapM Character.scalar? <;> simp [Character.scalar?, later]
      | cons d more =>
        cases later : rest.mapM Character.scalar? with
        | none =>
          have other : rest ≠ more.map .scalar := fun same => by rw [ih.mpr same] at later; cases later
          simp [Character.scalar?, later, other]
        | some found =>
          have same := ih.mp later
          subst same
          simp [Character.scalar?, later, List.map_inj_right]
    | escaped byte high => cases chars <;> simp [Character.scalar?]

/-- Strict decoding accepts exactly the encodings of scalar values. -/
theorem decodeStrict_eq_some : decodeStrict bytes = some chars ↔ bytes = encode (chars.map .scalar) := by
  unfold decodeStrict
  rw [mapM_scalar?_eq_some]
  constructor
  · intro decoded
    rw [← decoded, encode_decode]
  · intro encoded
    rw [encoded, decode_scalars]

/-! ## Cutting between characters -/

/-- Bytes that strict decoding accepts do not start inside a character. -/
theorem exists_cut {before : List UInt8} (split : encode text = before ++ encode (chars.map .scalar)) :
    ∃ front back, text = front ++ back ∧ encode back = encode (chars.map .scalar) := by
  induction text generalizing before with
  | nil =>
    have empty := (List.append_eq_nil_iff.mp split.symm).2
    exact ⟨[], [], rfl, empty.symm⟩
  | cons character rest ih =>
    cases before with
    | nil => exact ⟨[], character :: rest, rfl, split⟩
    | cons byte before =>
      rw [encode_cons] at split
      rcases List.append_eq_append_iff.mp split with ⟨more, _, tail⟩ | ⟨inner, head, tail⟩
      · obtain ⟨front, back, cut, same⟩ := ih tail
        exact ⟨character :: front, back, by rw [cut]; rfl, same⟩
      · cases chars with
        | nil =>
          refine ⟨character :: rest, [], by rw [List.append_nil], rfl⟩
        | cons d more =>
          by_cases closed : inner = []
          · subst closed
            exact ⟨[character], rest, rfl, tail.symm⟩
          · exfalso
            obtain ⟨first, others, rfl⟩ := List.exists_cons_of_ne_nil closed
            cases character with
            | escaped byte' high =>
              have lengths := congrArg List.length head
              simp [Character.bytes] at lengths
            | scalar c =>
              simp only [Character.bytes] at head
              rw [List.map_cons, encode_cons, Character.bytes] at tail
              have firstOf : first.IsUTF8FirstByte := by
                have same := congrArg List.head? tail
                obtain ⟨e, es, encoded⟩ := List.exists_cons_of_ne_nil (Character.bytes_ne_nil (.scalar d))
                simp only [Character.bytes] at encoded
                rw [encoded, List.cons_append, List.cons_append, List.head?_cons, List.head?_cons,
                  Option.some.injEq] at same
                have leads := @UInt8.isUTF8FirstByte_getElem_zero_utf8EncodeChar d
                simp only [encoded, List.getElem_cons_zero] at leads
                rwa [← same]
              have inside : (byte :: before).length < (String.utf8EncodeChar c).length := by
                rw [head]
                simp
              have there : (String.utf8EncodeChar c)[(byte :: before).length] = first := by
                simp only [head]
                rw [List.getElem_append_right (Nat.le_refl _)]
                simp
              have zero := (@UInt8.isUTF8FirstByte_getElem_utf8EncodeChar c _ inside).mp (there ▸ firstOf)
              cases zero

/-- A text without escaped bytes is a list of scalar values. -/
theorem exists_scalars (plain : text.any Character.isEscaped = false) :
    ∃ chars : List Char, text = chars.map .scalar := by
  induction text with
  | nil => exact ⟨[], rfl⟩
  | cons character rest ih =>
    rw [List.any_cons, Bool.or_eq_false_iff] at plain
    obtain ⟨chars, rfl⟩ := ih plain.2
    cases character with
    | scalar c => exact ⟨c :: chars, rfl⟩
    | escaped byte high => cases plain.1

theorem any_isEscaped_scalars (chars : List Char) :
    (chars.map Character.scalar).any Character.isEscaped = false := by
  induction chars with
  | nil => rfl
  | cons c rest ih => rw [List.map_cons, List.any_cons, ih]; rfl

/-- Texts of scalar values are told apart by their bytes. -/
theorem scalars_injective {one other : List Char}
    (same : encode (one.map .scalar) = encode (other.map .scalar)) :
    (one.map Character.scalar) = other.map .scalar := by
  rw [← decode_scalars one, same, decode_scalars]

/-! ## Incremental decoding -/

/-- May `second` follow `lead`? -/
def secondFits (lead second : Nat) : Bool :=
  0x80 ≤ second && second < 0xc0 &&
    (if lead = 0xe0 then 0xa0 ≤ second
      else if lead = 0xed then second < 0xa0
      else if lead = 0xf0 then 0x90 ≤ second
      else if lead = 0xf4 then second < 0x90
      else true)

/-- More bytes could complete a character: where the decoder stops unless the input is final. -/
def stalled : List UInt8 → Bool
  | [a] => 0xc2 ≤ a.toNat && a.toNat ≤ 0xf4
  | [a, b] => 0xe0 ≤ a.toNat && a.toNat ≤ 0xf4 && secondFits a.toNat b.toNat
  | [a, b, c] => 0xf0 ≤ a.toNat && a.toNat ≤ 0xf4 && secondFits a.toNat b.toNat &&
      0x80 ≤ c.toNat && c.toNat < 0xc0
  | _ => false

/-- A character that has only begun stalls the decoder. -/
theorem stalled_of_split {c : Char} (split : String.utf8EncodeChar c = bytes ++ rest) (begun : bytes ≠ [])
    (open_ : rest ≠ []) : stalled bytes = true := by
  have valid := c.valid
  simp only [UInt32.isValidChar, Nat.isValidChar] at valid
  have bytesPos := List.length_pos_iff.mpr begun
  have restPos := List.length_pos_iff.mpr open_
  unfold String.utf8EncodeChar at split
  generalize c.val.toNat = v at split valid
  by_cases one : v ≤ 0x7f
  · rw [if_pos one] at split
    have lengths := congrArg List.length split
    simp only [List.length_append, List.length_cons, List.length_nil] at lengths
    omega
  rw [if_neg one] at split
  by_cases two : v ≤ 0x7ff
  · rw [if_pos two] at split
    match bytes, split with
    | [a], split =>
      simp only [List.cons_append, List.nil_append, List.cons.injEq] at split
      simp only [stalled, ← split.1, UInt8.toNat_ofNat', Bool.and_eq_true, decide_eq_true_eq]
      omega
    | _ :: _ :: _, split =>
      have lengths := congrArg List.length split
      simp only [List.length_append, List.length_cons, List.length_nil] at lengths
      omega
  rw [if_neg two] at split
  by_cases three : v ≤ 0xffff
  · rw [if_pos three] at split
    match bytes, split with
    | [a], split =>
      simp only [List.cons_append, List.nil_append, List.cons.injEq] at split
      simp only [stalled, ← split.1, UInt8.toNat_ofNat', Bool.and_eq_true, decide_eq_true_eq]
      omega
    | [a, b], split =>
      simp only [List.cons_append, List.nil_append, List.cons.injEq] at split
      simp only [stalled, secondFits, ← split.1, ← split.2.1, UInt8.toNat_ofNat', Bool.and_eq_true, decide_eq_true_eq]
      refine ⟨by omega, by omega, ?_⟩
      split_ifs <;> simp only [decide_eq_true_eq] <;> omega
    | _ :: _ :: _ :: _, split =>
      have lengths := congrArg List.length split
      simp only [List.length_append, List.length_cons, List.length_nil] at lengths
      omega
  rw [if_neg three] at split
  match bytes, split with
  | [a], split =>
    simp only [List.cons_append, List.nil_append, List.cons.injEq] at split
    simp only [stalled, ← split.1, UInt8.toNat_ofNat', Bool.and_eq_true, decide_eq_true_eq]
    omega
  | [a, b], split =>
    simp only [List.cons_append, List.nil_append, List.cons.injEq] at split
    simp only [stalled, secondFits, ← split.1, ← split.2.1, UInt8.toNat_ofNat', Bool.and_eq_true, decide_eq_true_eq]
    refine ⟨by omega, by omega, ?_⟩
    split_ifs <;> simp only [decide_eq_true_eq] <;> omega
  | [a, b, d], split =>
    simp only [List.cons_append, List.nil_append, List.cons.injEq] at split
    simp only [stalled, secondFits, ← split.1, ← split.2.1, ← split.2.2.1, UInt8.toNat_ofNat', Bool.and_eq_true,
      decide_eq_true_eq]
    refine ⟨⟨⟨by omega, by omega, ?_⟩, by omega⟩, by omega⟩
    split_ifs <;> simp only [decide_eq_true_eq] <;> omega
  | _ :: _ :: _ :: _ :: _, split =>
    have lengths := congrArg List.length split
    simp only [List.length_append, List.length_cons, List.length_nil] at lengths
    omega

/-- More bytes do not revive a decoder that has given up on the front. -/
theorem stalled_append (nonempty : bytes ≠ []) (settled : stalled bytes = false) (more : List UInt8) :
    stalled (bytes ++ more) = false := by
  match bytes, more with
  | _, [] => rwa [List.append_nil]
  | [a], [b] =>
    simp only [stalled, Bool.and_eq_false_iff, decide_eq_false_iff_not] at settled
    simp only [List.cons_append, List.nil_append, stalled, Bool.and_eq_false_iff, decide_eq_false_iff_not]
    omega
  | [a], [b, c] =>
    simp only [stalled, Bool.and_eq_false_iff, decide_eq_false_iff_not] at settled
    simp only [List.cons_append, List.nil_append, stalled, Bool.and_eq_false_iff, decide_eq_false_iff_not]
    omega
  | [a, b], [c] =>
    cases follows : secondFits a.toNat b.toNat with
    | false => simp [stalled, follows]
    | true =>
      simp only [stalled, follows, Bool.and_true, Bool.and_eq_false_iff, decide_eq_false_iff_not] at settled
      simp only [List.cons_append, List.nil_append, stalled, follows, Bool.and_true, Bool.and_eq_false_iff,
        decide_eq_false_iff_not]
      omega
  | [_], _ :: _ :: _ :: _ => rfl
  | [_, _], _ :: _ :: _ => rfl
  | [_, _, _], _ :: _ => rfl
  | _ :: _ :: _ :: _ :: _, _ :: _ => rfl

theorem front?_append_eq_none (nonempty : bytes ≠ []) (none_ : front? bytes = none)
    (settled : stalled bytes = false) (more : List UInt8) : front? (bytes ++ more) = none := by
  cases found : front? (bytes ++ more) with
  | none => rfl
  | some c =>
    obtain ⟨rest, split⟩ := exists_of_front? found
    rcases List.append_eq_append_iff.mp split with ⟨open_, whole, _⟩ | ⟨tail, whole, _⟩
    · by_cases closed : open_ = []
      · subst closed
        rw [List.append_nil] at whole
        have complete := front?_encoded c []
        rw [List.append_nil, whole, none_] at complete
        cases complete
      · rw [stalled_of_split whole nonempty closed] at settled
        cases settled
    · rw [whole, front?_encoded] at none_
      cases none_

def decodePartWithin : Nat → List UInt8 → Text × List UInt8
  | 0, bytes => ([], bytes)
  | _, [] => ([], [])
  | rounds + 1, byte :: rest =>
    match front? (byte :: rest) with
    | some c =>
      let later := decodePartWithin rounds ((byte :: rest).drop (String.utf8EncodeChar c).length)
      (.scalar c :: later.1, later.2)
    | none =>
      if stalled (byte :: rest) then ([], byte :: rest)
      else if high : 0x80 ≤ byte then
        let later := decodePartWithin rounds rest
        (.escaped byte high :: later.1, later.2)
      else decodePartWithin rounds rest

/-- What the incremental decoder makes of its input, and the bytes it keeps for later. -/
def decodePart (bytes : List UInt8) : Text × List UInt8 := decodePartWithin bytes.length bytes

theorem decodePartWithin_scalar (rounds : Nat) (c : Char) (rest : List UInt8) :
    decodePartWithin (rounds + 1) (String.utf8EncodeChar c ++ rest) =
      (.scalar c :: (decodePartWithin rounds rest).1, (decodePartWithin rounds rest).2) := by
  have nonempty := Character.bytes_ne_nil (.scalar c)
  simp only [Character.bytes] at nonempty
  obtain ⟨byte, more, start⟩ := List.exists_cons_of_ne_nil nonempty
  have found := front?_encoded c rest
  rw [start, List.cons_append] at found
  have dropped : (byte :: (more ++ rest)).drop (String.utf8EncodeChar c).length = rest := by
    rw [start, ← List.cons_append]
    exact List.drop_left' rfl
  rw [start, List.cons_append, decodePartWithin, found]
  dsimp only
  rw [dropped]

theorem decodePartWithin_escaped (rounds : Nat) (high : 0x80 ≤ byte) (none_ : front? (byte :: rest) = none)
    (settled : stalled (byte :: rest) = false) :
    decodePartWithin (rounds + 1) (byte :: rest) =
      (.escaped byte high :: (decodePartWithin rounds rest).1, (decodePartWithin rounds rest).2) := by
  rw [decodePartWithin, none_]
  rw [settled, if_neg Bool.false_ne_true, dif_pos high]

theorem decodePartWithin_stalled (rounds : Nat) (none_ : front? (byte :: rest) = none)
    (waits : stalled (byte :: rest) = true) :
    decodePartWithin rounds (byte :: rest) = ([], byte :: rest) := by
  cases rounds with
  | zero => rfl
  | succ rounds =>
    rw [decodePartWithin, none_]
    rw [waits, if_pos rfl]

theorem decodePartWithin_enough (bytes : List UInt8) :
    ∀ rounds, bytes.length ≤ rounds → decodePartWithin rounds bytes = decodePart bytes := by
  unfold decodePart
  induction bytes using front_induction with
  | nil =>
    intro rounds _
    cases rounds <;> rfl
  | scalar c rest ih =>
    have positive := Character.length_bytes_pos (.scalar c)
    simp only [Character.bytes] at positive
    intro rounds enough
    rw [List.length_append] at enough ⊢
    obtain ⟨m, rfl⟩ := Nat.exists_eq_add_of_le' (show 1 ≤ rounds by omega)
    obtain ⟨n, size⟩ := Nat.exists_eq_add_of_le' (show 1 ≤ (String.utf8EncodeChar c).length + rest.length by omega)
    rw [size, decodePartWithin_scalar, decodePartWithin_scalar, ih m (by omega), ih n (by omega)]
  | escaped byte rest high none_ ih =>
    intro rounds enough
    cases waits : stalled (byte :: rest) with
    | true => rw [decodePartWithin_stalled _ none_ waits, decodePartWithin_stalled _ none_ waits]
    | false =>
      rw [List.length_cons] at enough ⊢
      obtain ⟨m, rfl⟩ := Nat.exists_eq_add_of_le' (show 1 ≤ rounds by omega)
      rw [decodePartWithin_escaped m high none_ waits, decodePartWithin_escaped _ high none_ waits, ih m (by omega)]

@[simp] theorem decodePart_nil : decodePart [] = ([], []) := rfl

theorem decodePart_scalar (c : Char) (rest : List UInt8) :
    decodePart (String.utf8EncodeChar c ++ rest) = (.scalar c :: (decodePart rest).1, (decodePart rest).2) := by
  rw [← decodePartWithin_enough _ _ (Nat.le_succ _), decodePartWithin_scalar,
    decodePartWithin_enough rest _ (by rw [List.length_append]; omega)]

theorem decodePart_escaped (high : 0x80 ≤ byte) (none_ : front? (byte :: rest) = none)
    (settled : stalled (byte :: rest) = false) :
    decodePart (byte :: rest) = (.escaped byte high :: (decodePart rest).1, (decodePart rest).2) :=
  decodePartWithin_escaped _ high none_ settled

theorem decodePart_stalled (none_ : front? (byte :: rest) = none) (waits : stalled (byte :: rest) = true) :
    decodePart (byte :: rest) = ([], byte :: rest) :=
  decodePartWithin_stalled _ none_ waits

/-- Decoding more input goes on from the kept bytes. -/
theorem decodePart_append (bytes more : List UInt8) :
    decodePart (bytes ++ more) = ((decodePart bytes).1 ++ (decodePart ((decodePart bytes).2 ++ more)).1,
      (decodePart ((decodePart bytes).2 ++ more)).2) := by
  induction bytes using front_induction with
  | nil => simp
  | scalar c rest ih =>
    rw [List.append_assoc, decodePart_scalar, decodePart_scalar, ih]
    rfl
  | escaped byte rest high none_ ih =>
    cases waits : stalled (byte :: rest) with
    | true =>
      rw [decodePart_stalled none_ waits]
      rfl
    | false =>
      have nonempty : byte :: rest ≠ [] := List.cons_ne_nil _ _
      have still := front?_append_eq_none nonempty none_ waits more
      have settled := stalled_append nonempty waits more
      rw [List.cons_append] at still settled ⊢
      rw [decodePart_escaped high still settled, decodePart_escaped high none_ waits, ih]
      rfl

/-- The final call decodes what was kept. -/
theorem decode_eq_part (bytes : List UInt8) : decode bytes = (decodePart bytes).1 ++ decode (decodePart bytes).2 := by
  induction bytes using front_induction with
  | nil => rfl
  | scalar c rest ih =>
    rw [decode_scalar, decodePart_scalar, ih]
    rfl
  | escaped byte rest high none_ ih =>
    cases waits : stalled (byte :: rest) with
    | true =>
      rw [decodePart_stalled none_ waits]
      rfl
    | false =>
      rw [decode_escaped high none_, decodePart_escaped high none_ waits, ih]
      rfl

end Loushang.Lib.Utf8
