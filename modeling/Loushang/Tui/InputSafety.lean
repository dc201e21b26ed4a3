import Loushang.Lib.Run
import Loushang.Tui.InputScan
import Mathlib.Data.List.TakeDrop

/-!
# Input that a reader survives

`int` refuses a text of more than 4300 digits and `chr` a number above the last code point; the
parsers call both on numbers that the terminal chooses. The conditions below say, sequence by
sequence, which of these numbers have to stay in range.
-/
namespace Loushang.Tui
open Loushang.Lib

/-- The computation does not raise. -/
def Returns {A : Type} (result : Except Raised A) : Prop := ∃ value, result = .ok value

section Returns
variable {A B : Type}

@[simp] theorem returns_ok (value : A) : Returns (.ok value : Except Raised A) := ⟨value, rfl⟩

@[simp] theorem returns_pure (value : A) : Returns (pure value : Except Raised A) := ⟨value, rfl⟩

@[simp] theorem not_returns_error (raised : Raised) : ¬ Returns (.error raised : Except Raised A) := by
  intro ⟨_, same⟩
  cases same

@[simp] theorem ok_bind (value : A) (f : A → Except Raised B) : (Except.ok value >>= f) = f value := rfl

@[simp] theorem error_bind (raised : Raised) (f : A → Except Raised B) :
    (Except.error raised >>= f) = .error raised := rfl

@[simp] theorem returns_map (f : A → B) (result : Except Raised A) :
    Returns (result.map f) ↔ Returns result := by
  cases result with
  | error raised => simp [Except.map]
  | ok value => simp [Except.map]

@[simp] theorem returns_map' (f : A → B) (result : Except Raised A) :
    Returns (f <$> result) ↔ Returns result := returns_map f result

end Returns

/-! ## Numbers -/

/-- `int` takes the group. -/
def Short (group : Text) : Prop := group.length ≤ maxDigits

/-- What `int` makes of a group. -/
def groupValue (chars : Characters) (group : Text) : Nat :=
  group.foldl (fun value point => value * 10 + (chars.digit point).getD 0) 0

theorem intOf_short {chars : Characters} {group : Text} (short : Short group) :
    intOf chars group = .ok (groupValue chars group) := by
  unfold Short at short
  rw [intOf, if_neg (by omega)]
  rfl

theorem intOf_long {chars : Characters} {group : Text} (long : ¬ Short group) :
    intOf chars group = .error .tooManyDigits := by
  unfold Short at long
  rw [intOf, if_pos (by omega)]

/-- `int` takes the group, where it takes part. -/
def ShortIfAny (group : Option Text) : Prop := ∀ text, group = some text → Short text

@[simp] theorem shortIfAny_some (text : Text) : ShortIfAny (some text) ↔ Short text := by
  simp [ShortIfAny]

@[simp] theorem shortIfAny_none : ShortIfAny none := by
  intro text same
  cases same

def modifierValue (chars : Characters) (group : Option Text) : Int :=
  group.elim 0 fun text => (groupValue chars text : Int) - 1

theorem modifierOf_short {chars : Characters} {group : Option Text} (short : ShortIfAny group) :
    modifierOf chars group = .ok (modifierValue chars group) := by
  cases group with
  | none => rfl
  | some text =>
    unfold modifierOf
    dsimp only
    rw [intOf_short (short text rfl)]
    rfl

theorem modifierOf_long {chars : Characters} {group : Option Text} (long : ¬ ShortIfAny group) :
    modifierOf chars group = .error .tooManyDigits := by
  cases group with
  | none => exact absurd (fun text same => by cases same) long
  | some text =>
    have tooLong : ¬ Short text := by
      intro short
      apply long
      intro other same
      cases same
      exact short
    unfold modifierOf
    dsimp only
    rw [intOf_long tooLong]
    rfl

/-! ## Code points -/

/-- `chr` takes the number. -/
def IsCodePoint (codepoint : Int) : Prop := 0 ≤ codepoint ∧ codepoint < 0x110000

theorem returns_chr (codepoint : Int) : Returns (chr codepoint) ↔ IsCodePoint codepoint := by
  unfold chr IsCodePoint
  split
  · next inside => simp [inside]
  · next outside => simp [outside]

theorem isCodePoint_shifted (codepoint modifier : Int) :
    IsCodePoint (normalizeShiftedLetter codepoint modifier) ↔ IsCodePoint codepoint := by
  unfold normalizeShiftedLetter IsCodePoint
  split
  · next letter =>
    simp only [Bool.and_eq_true, decide_eq_true_eq] at letter
    omega
  · exact Iff.rfl

/-- The key is named by its own code point, whatever the base layout key: a small letter, a digit
or a symbol. -/
def OwnName (codepoint : Int) : Prop :=
  (97 ≤ codepoint ∧ codepoint ≤ 122) ∨ (48 ≤ codepoint ∧ codepoint ≤ 57) ∨
    ∃ symbol ∈ symbolKeys, (symbol.val : Int) = codepoint

/-- The code point of a key can be named: it has a name of its own, or it and, where that decides
the name, its base layout key are code points. -/
def CodepointFits (codepoint modifier : Int) (baseLayoutKey : Option Nat) : Prop :=
  (namedBase (normalizedCodepoint codepoint)).isSome = true ∨
    IsCodePoint (normalizedCodepoint codepoint) ∧
      (OwnName (normalizeShiftedLetter (normalizedCodepoint codepoint) modifier) ∨
        ∀ key, baseLayoutKey = some key → IsCodePoint key)

theorem authoritative_spec {codepoint : Int} (inside : IsCodePoint codepoint) :
    ∃ answer, isAuthoritativeKeyboardCodepoint codepoint = .ok answer ∧
      (answer = true ↔ OwnName codepoint) := by
  unfold isAuthoritativeKeyboardCodepoint OwnName
  split
  · next named =>
    refine ⟨true, rfl, ?_⟩
    rw [← or_assoc]
    simp [named]
  · next unnamed =>
    unfold IsCodePoint at inside
    rw [chr, dif_pos inside]
    refine ⟨_, rfl, ?_⟩
    rw [← or_assoc, or_iff_right unnamed, List.contains_iff_mem]
    constructor
    · intro member
      refine ⟨_, member, ?_⟩
      simp only
      omega
    · intro ⟨symbol, member, same⟩
      have equal : symbol = ⟨codepoint.toNat, by omega⟩ := by
        apply Fin.ext
        simp only
        omega
      rw [← equal]
      exact member

theorem returns_characterBase (chars : Characters) (codepoint modifier : Int)
    (baseLayoutKey : Option Nat) :
    Returns (characterBase chars codepoint modifier baseLayoutKey) ↔
      IsCodePoint codepoint ∧
        (OwnName (normalizeShiftedLetter codepoint modifier) ∨
          ∀ key, baseLayoutKey = some key → IsCodePoint key) := by
  unfold characterBase
  by_cases inside : IsCodePoint codepoint
  · have shifted := (isCodePoint_shifted codepoint modifier).mpr inside
    obtain ⟨answer, answered, own⟩ := authoritative_spec shifted
    dsimp only
    rw [answered]
    have final : ∀ effective : Int,
        Returns (chars.lower <$> chr (normalizeShiftedLetter effective modifier)) ↔
          IsCodePoint effective := by
      intro effective
      rw [← isCodePoint_shifted effective modifier, ← returns_chr]
      exact returns_map chars.lower _
    cases answer with
    | true =>
      have named := own.mp rfl
      simp [final, shifted, inside, named]
    | false =>
      have unnamed : ¬ OwnName (normalizeShiftedLetter codepoint modifier) := by
        intro named
        cases own.mpr named
      cases baseLayoutKey with
      | none => simp [final, shifted, inside]
      | some key =>
        cases key with
        | zero =>
          have zero : IsCodePoint 0 := ⟨by omega, by omega⟩
          simp [final, shifted, inside, zero]
        | succ key => simp [final, inside, unnamed]
  · have outside := mt (isCodePoint_shifted codepoint modifier).mp inside
    have raises : ∃ raised, isAuthoritativeKeyboardCodepoint
        (normalizeShiftedLetter codepoint modifier) = .error raised := by
      unfold isAuthoritativeKeyboardCodepoint
      rw [if_neg (by unfold IsCodePoint at outside; omega)]
      unfold IsCodePoint at outside
      rw [chr, dif_neg outside]
      exact ⟨_, rfl⟩
    obtain ⟨raised, raises⟩ := raises
    dsimp only
    rw [raises]
    simp [inside]

theorem returns_formatKey (chars : Characters) (codepoint modifier : Int)
    (baseLayoutKey : Option Nat) :
    Returns (formatKeyFromCodepoint chars codepoint modifier baseLayoutKey) ↔
      CodepointFits codepoint modifier baseLayoutKey := by
  unfold formatKeyFromCodepoint CodepointFits
  dsimp only
  cases named : namedBase (normalizedCodepoint codepoint) with
  | some base => simp
  | none =>
    rw [← returns_characterBase chars]
    cases characterBase chars (normalizedCodepoint codepoint) modifier baseLayoutKey <;> simp

theorem named_fits {codepoint : Int}
    (named : (namedBase (normalizedCodepoint codepoint)).isSome = true) (modifier : Int)
    (baseLayoutKey : Option Nat) : CodepointFits codepoint modifier baseLayoutKey := .inl named

/-! ## Key sequences -/

/-- The numbers of a `CSI … u` key. -/
def CsiU.Fits (chars : Characters) (groups : CsiU) : Prop :=
  Short groups.codepoint ∧ ShortIfAny groups.baseLayoutKey ∧ ShortIfAny groups.modifier ∧
    CodepointFits (groupValue chars groups.codepoint) (modifierValue chars groups.modifier)
      (groups.baseLayoutKey.map (groupValue chars))

/-- The numbers of a modifyOtherKeys sequence. -/
def OtherKeyFits (chars : Characters) (sequence : Text) : Prop :=
  ∀ modifier codepoint, matchModifyOtherKeys chars sequence = some (modifier, codepoint) →
    Short codepoint ∧ Short modifier ∧
      CodepointFits (groupValue chars codepoint) ((groupValue chars modifier : Int) - 1) none

/-- The key that `CSI number ; modifier ~` stands for is known. -/
def KnownFunctional (number : Nat) (modifier : Int) : Prop :=
  (number = 13 ∧ modifier ≠ 0) ∨ (functionalCodepoints.lookup (number : Int)).isSome = true

/-- The numbers of a sequence that is read as a key, in the order of `_parse_key_sequence`. -/
def KeyFits (chars : Characters) (sequence : Text) : Prop :=
  match matchCsiU chars sequence with
  | some groups => groups.Fits chars
  | none =>
    match matchModifiedFinal chars "ABCD" sequence with
    | some (modifier, _, _) => Short modifier
    | none =>
      match matchFunctional chars sequence with
      | some (number, modifier, _) =>
        Short number ∧ ShortIfAny modifier ∧
          (KnownFunctional (groupValue chars number) (modifierValue chars modifier) ∨
            OtherKeyFits chars sequence)
      | none =>
        match matchSs3Function sequence with
        | some _ => True
        | none =>
          match matchModifiedFinal chars "HF" sequence with
          | some (modifier, _, _) => Short modifier
          | none => OtherKeyFits chars sequence

/-- What `_parse_key_sequence` makes of the answer of `_parse_kitty_sequence`. -/
def keyFrom (chars : Characters) (sequence : Text) :
    Option KittyKey → Except Raised (Option (Text × KeyEventType))
  | some kitty => do
    let key ← formatKeyFromCodepoint chars kitty.codepoint kitty.modifier kitty.baseLayoutKey
    return some (key, kitty.eventType)
  | none => do
    match ← parseModifyOtherKeys chars sequence with
    | some (codepoint, modifier) =>
      return some (← formatKeyFromCodepoint chars codepoint modifier none, .press)
    | none => return none

theorem returns_keyFrom_none (chars : Characters) (sequence : Text) :
    Returns (keyFrom chars sequence none) ↔ OtherKeyFits chars sequence := by
  unfold keyFrom parseModifyOtherKeys OtherKeyFits
  cases matched : matchModifyOtherKeys chars sequence with
  | none => simp
  | some groups =>
    obtain ⟨modifier, codepoint⟩ := groups
    dsimp only
    by_cases short : Short codepoint
    · rw [intOf_short short]
      by_cases shortModifier : Short modifier
      · rw [intOf_short shortModifier]
        simp [returns_formatKey, short, shortModifier]
      · rw [intOf_long shortModifier]
        simp [shortModifier]
    · rw [intOf_long short]
      simp [short]

theorem returns_keyFrom_some (chars : Characters) (sequence : Text) (kitty : KittyKey) :
    Returns (keyFrom chars sequence (some kitty)) ↔
      CodepointFits kitty.codepoint kitty.modifier kitty.baseLayoutKey := by
  simp [keyFrom, returns_formatKey]

section Kitty
variable {chars : Characters} {sequence : Text}

theorem parseKitty_csiU {groups : CsiU} (matched : matchCsiU chars sequence = some groups)
    (short : Short groups.codepoint ∧ ShortIfAny groups.baseLayoutKey ∧ ShortIfAny groups.modifier) :
    parseKittySequence chars sequence =
      .ok (some ⟨groupValue chars groups.codepoint, modifierValue chars groups.modifier,
        eventType groups.event, groups.baseLayoutKey.map (groupValue chars)⟩) := by
  unfold parseKittySequence
  rw [matched]
  dsimp only
  rw [intOf_short short.1, modifierOf_short short.2.2]
  cases base : groups.baseLayoutKey with
  | none => rfl
  | some group =>
    dsimp only
    rw [intOf_short (short.2.1 group base)]
    rfl

theorem parseKitty_csiU_long {groups : CsiU} (matched : matchCsiU chars sequence = some groups)
    (long : ¬ (Short groups.codepoint ∧ ShortIfAny groups.baseLayoutKey ∧ ShortIfAny groups.modifier)) :
    parseKittySequence chars sequence = .error .tooManyDigits := by
  unfold parseKittySequence
  rw [matched]
  dsimp only
  by_cases short : Short groups.codepoint
  · rw [intOf_short short]
    by_cases shortBase : ShortIfAny groups.baseLayoutKey
    · have longModifier : ¬ ShortIfAny groups.modifier := fun shortModifier =>
        long ⟨short, shortBase, shortModifier⟩
      rw [modifierOf_long longModifier]
      cases base : groups.baseLayoutKey with
      | none => rfl
      | some group =>
        dsimp only
        rw [intOf_short (shortBase group base)]
        rfl
    · cases base : groups.baseLayoutKey with
      | none =>
        rw [base] at shortBase
        exact absurd (fun text same => by cases same) shortBase
      | some group =>
        have tooLong : ¬ Short group := by
          intro short
          apply shortBase
          intro other same
          rw [base] at same
          cases same
          exact short
        dsimp only
        rw [intOf_long tooLong]
        rfl
  · rw [intOf_long short]
    rfl

theorem arrow_fits (final : CodePoint) (modifier : Int) :
    CodepointFits ((arrowCodepoints.find? fun entry => textOf entry.1 = [final]).elim 0 Prod.snd)
      modifier none := by
  have named : ∀ entry ∈ arrowCodepoints, (namedBase (normalizedCodepoint entry.2)).isSome = true := by
    decide
  cases found : arrowCodepoints.find? fun entry => textOf entry.1 = [final] with
  | none => exact .inr ⟨⟨by decide, by decide⟩, .inr (fun key same => by cases same)⟩
  | some entry => exact named_fits (named entry (List.mem_of_find?_eq_some found)) modifier none

theorem functional_fits {number : Int} {name : String}
    (known : functionalCodepoints.lookup number = some name) (modifier : Int) :
    CodepointFits (namedCodepoint name) modifier none := by
  have named : ∀ entry ∈ functionalCodepoints,
      (namedBase (normalizedCodepoint (namedCodepoint entry.2))).isSome = true := by decide
  obtain ⟨front, back, split, _⟩ := List.lookup_eq_some_iff.mp known
  exact named_fits (named (number, name) (by rw [split]; simp)) modifier none

theorem ss3_fits (final : CodePoint) :
    CodepointFits (namedCodepoint (if textOf "P" = [final] then "f1" else if textOf "Q" = [final] then "f2"
      else if textOf "R" = [final] then "f3" else if textOf "S" = [final] then "f4" else "clear"))
      0 none := by
  apply named_fits
  split
  · decide
  split
  · decide
  split
  · decide
  split <;> decide

/-- A key whose only number is its modifier. -/
theorem returns_modifierKey {codepoint : Int} {group : Text} {type : KeyEventType}
    (known : ∀ modifier, CodepointFits codepoint modifier none) :
    Returns ((do
      let modifier ← modifierOf chars (some group)
      return some (KittyKey.mk codepoint modifier type none)) >>= keyFrom chars sequence) ↔
      Short group := by
  by_cases short : ShortIfAny (some group)
  · rw [modifierOf_short short]
    rw [shortIfAny_some] at short
    simp only [ok_bind, pure_bind, returns_keyFrom_some, known, short]
  · rw [modifierOf_long short]
    rw [shortIfAny_some] at short
    simp [short]

theorem returns_kittyKey :
    Returns (parseKittySequence chars sequence >>= keyFrom chars sequence) ↔ KeyFits chars sequence := by
  unfold KeyFits
  cases csiU : matchCsiU chars sequence with
  | some groups =>
    by_cases short : Short groups.codepoint ∧ ShortIfAny groups.baseLayoutKey ∧
        ShortIfAny groups.modifier
    · rw [parseKitty_csiU csiU short, ok_bind, returns_keyFrom_some]
      simp [CsiU.Fits, short]
    · rw [parseKitty_csiU_long csiU short]
      simp only [error_bind, not_returns_error, false_iff]
      intro ⟨shortCodepoint, shortBase, shortModifier, _⟩
      exact short ⟨shortCodepoint, shortBase, shortModifier⟩
  | none =>
    unfold parseKittySequence
    rw [csiU]
    cases arrow : matchModifiedFinal chars "ABCD" sequence with
    | some groups =>
      obtain ⟨modifier, event, final⟩ := groups
      exact returns_modifierKey fun modifier => arrow_fits final modifier
    | none =>
      cases functional : matchFunctional chars sequence with
      | some groups =>
        obtain ⟨number, modifier, event⟩ := groups
        dsimp only
        by_cases short : Short number
        · rw [intOf_short short]
          by_cases shortModifier : ShortIfAny modifier
          · rw [modifierOf_short shortModifier]
            simp only [ok_bind, short, shortModifier, true_and]
            by_cases enter : groupValue chars number = 13 ∧ modifierValue chars modifier ≠ 0
            · rw [if_pos enter, pure_bind, returns_keyFrom_some]
              have known : CodepointFits 13 (modifierValue chars modifier) none :=
                named_fits (by decide) _ _
              simp [known, KnownFunctional, enter]
            · rw [if_neg enter]
              cases named : functionalCodepoints.lookup (groupValue chars number : Int) with
              | none =>
                have unknown : ¬ KnownFunctional (groupValue chars number)
                    (modifierValue chars modifier) := by
                  simp [KnownFunctional, enter, named]
                rw [or_iff_right unknown, pure_bind]
                exact returns_keyFrom_none chars sequence
              | some name =>
                have known := functional_fits named (modifierValue chars modifier)
                rw [pure_bind, returns_keyFrom_some]
                simp [known, KnownFunctional, named]
          · rw [modifierOf_long shortModifier]
            simp [shortModifier]
        · rw [intOf_long short]
          simp [short]
      | none =>
        cases function : matchSs3Function sequence with
        | some final =>
          rw [pure_bind, returns_keyFrom_some]
          simp only [ss3_fits]
        | none =>
          cases ending : matchModifiedFinal chars "HF" sequence with
          | some groups =>
            obtain ⟨modifier, event, final⟩ := groups
            refine returns_modifierKey fun modifier => ?_
            apply named_fits
            split <;> decide
          | none => exact returns_keyFrom_none chars sequence

end Kitty

/-! ## Sequences with a fixed key -/

section Lengths
variable {chars : Characters} {text rest group : Text}

theorem literal_suffix {expected : String} (matched : literal expected text = some rest) :
    rest <:+ text := by
  unfold literal at matched
  split at matched
  · cases matched
    exact List.drop_suffix _ _
  · cases matched

theorem literal_begins {expected : String} (matched : literal expected text = some rest) :
    textOf expected <+: text := by
  unfold literal at matched
  split at matched
  · next front => exact List.isPrefixOf_iff_prefix.mp front
  · cases matched

theorem digits_spec (matched : digits chars text = some (group, rest)) :
    rest <:+ text ∧ group.length ≤ text.length := by
  unfold digits at matched
  split at matched
  · cases matched
  · next front back _ split =>
    cases matched
    rw [List.span_eq_takeWhile_dropWhile] at split
    cases split
    exact ⟨List.dropWhile_suffix _, (List.takeWhile_prefix _).length_le⟩

theorem optionalDigits_spec (chars : Characters) (separator : String) (text : Text) :
    (optionalDigits chars separator text).2 <:+ text ∧
      ∀ group, (optionalDigits chars separator text).1 = some group → group.length ≤ text.length := by
  unfold optionalDigits
  split
  · next group rest matched =>
    obtain ⟨behind, separated, matched⟩ := Option.bind_eq_some_iff.mp matched
    have first := literal_suffix separated
    obtain ⟨second, short⟩ := digits_spec matched
    refine ⟨second.trans first, ?_⟩
    intro other same
    cases same
    exact short.trans first.length_le
  · refine ⟨List.suffix_rfl, ?_⟩
    intro other same
    cases same

theorem optionalAnyDigits_suffix (chars : Characters) (separator : String) (text : Text) :
    (optionalAnyDigits chars separator text).2 <:+ text := by
  unfold optionalAnyDigits
  split
  · next rest separated => exact (List.dropWhile_suffix _).trans (literal_suffix separated)
  · exact List.suffix_rfl

theorem matchModifiedFinal_length {finals : String} {sequence modifier : Text}
    {event : Option Text} {final : CodePoint}
    (matched : matchModifiedFinal chars finals sequence = some (modifier, event, final)) :
    modifier.length ≤ sequence.length := by
  unfold matchModifiedFinal at matched
  obtain ⟨first, opened, matched⟩ := Option.bind_eq_some_iff.mp matched
  obtain ⟨⟨group, second⟩, number, matched⟩ := Option.bind_eq_some_iff.mp matched
  obtain ⟨⟨point, third⟩, _, matched⟩ := Option.bind_eq_some_iff.mp matched
  obtain ⟨_, _, matched⟩ := Option.bind_eq_some_iff.mp matched
  cases matched
  exact (digits_spec number).2.trans (literal_suffix opened).length_le

theorem matchFunctional_length {sequence number : Text} {modifier event : Option Text}
    (matched : matchFunctional chars sequence = some (number, modifier, event)) :
    number.length ≤ sequence.length ∧ ∀ group, modifier = some group → group.length ≤ sequence.length := by
  unfold matchFunctional at matched
  obtain ⟨first, opened, matched⟩ := Option.bind_eq_some_iff.mp matched
  obtain ⟨⟨group, second⟩, numbered, matched⟩ := Option.bind_eq_some_iff.mp matched
  obtain ⟨third, _, matched⟩ := Option.bind_eq_some_iff.mp matched
  obtain ⟨_, _, matched⟩ := Option.bind_eq_some_iff.mp matched
  cases matched
  obtain ⟨behind, short⟩ := digits_spec numbered
  have length := (literal_suffix opened).length_le
  refine ⟨short.trans length, ?_⟩
  intro other same
  exact ((optionalDigits_spec chars ";" second).2 other same).trans (behind.length_le.trans length)

theorem matchCsiU_final {sequence : Text} {groups : CsiU}
    (matched : matchCsiU chars sequence = some groups) : (0x75 : CodePoint) ∈ sequence := by
  unfold matchCsiU at matched
  obtain ⟨first, opened, matched⟩ := Option.bind_eq_some_iff.mp matched
  obtain ⟨⟨group, second⟩, numbered, matched⟩ := Option.bind_eq_some_iff.mp matched
  obtain ⟨third, closed, _⟩ := Option.bind_eq_some_iff.mp matched
  have ends := (optionalDigits_spec chars ":" _).1.trans ((optionalDigits_spec chars ";" _).1.trans
    ((optionalDigits_spec chars ":" _).1.trans ((optionalAnyDigits_suffix chars ":" second).trans
      ((digits_spec numbered).1.trans (literal_suffix opened)))))
  have final : (0x75 : CodePoint) ∈ textOf "u" := by decide
  exact ends.subset ((literal_begins closed).subset final)

end Lengths

theorem legacy_fits {sequence key : Text} (chars : Characters)
    (legacy : legacyKeySequences.lookup sequence = some key) : KeyFits chars sequence := by
  have plain : ∀ entry ∈ legacyKeySequences,
      (0x75 : CodePoint) ∉ entry.1 ∧ entry.1.length ≤ maxDigits ∧ literal "\x1b[27;" entry.1 = none := by
    decide
  obtain ⟨front, back, split, _⟩ := List.lookup_eq_some_iff.mp legacy
  obtain ⟨noU, length, noOther⟩ := plain (sequence, key) (by rw [split]; simp)
  have other : OtherKeyFits chars sequence := by
    intro modifier codepoint matched
    unfold matchModifyOtherKeys at matched
    rw [noOther] at matched
    cases matched
  unfold KeyFits
  cases csiU : matchCsiU chars sequence with
  | some groups => exact absurd (matchCsiU_final csiU) noU
  | none =>
    cases arrow : matchModifiedFinal chars "ABCD" sequence with
    | some groups => exact (matchModifiedFinal_length arrow).trans length
    | none =>
      cases functional : matchFunctional chars sequence with
      | some groups =>
        obtain ⟨short, shortModifier⟩ := matchFunctional_length functional
        exact ⟨short.trans length, fun group same => (shortModifier group same).trans length, .inr other⟩
      | none =>
        cases matchSs3Function sequence with
        | some final => trivial
        | none =>
          cases ending : matchModifiedFinal chars "HF" sequence with
          | some groups => exact (matchModifiedFinal_length ending).trans length
          | none => exact other

theorem returns_parseKey (chars : Characters) (sequence : Text) :
    Returns (parseKeySequence chars sequence) ↔ KeyFits chars sequence := by
  unfold parseKeySequence
  cases legacy : legacyKeySequences.lookup sequence with
  | some key => simp [legacy_fits chars legacy]
  | none => exact returns_kittyKey

/-! ## Events -/

/-- A named key is a key of the table of function keys or has one of a few code points. -/
theorem namedBase_codepoint {codepoint : Int} (named : (namedBase codepoint).isSome = true) :
    (negativeFunctionalCodepoints.lookup codepoint).isSome = true ∨ codepoint = 9 ∨ codepoint = 13 ∨
      codepoint = 57414 ∨ codepoint = 27 ∨ codepoint = 32 ∨ codepoint = 127 := by
  unfold namedBase at named
  split at named
  · next listed =>
    left
    rw [listed]
    rfl
  · right
    split at named
    · omega
    split at named
    · omega
    split at named
    · omega
    split at named
    · omega
    split at named
    · omega
    · cases named

/-- A key that can be named can be shown as text, where it is text. -/
theorem returns_printable {chars : Characters} {sequence : Text} (fits : KeyFits chars sequence) :
    Returns (kittyPrintableText chars sequence) := by
  have key := returns_kittyKey.mpr fits
  unfold kittyPrintableText
  cases parsed : parseKittySequence chars sequence with
  | error raised =>
    rw [parsed] at key
    exact absurd key (not_returns_error raised)
  | ok result =>
    cases result with
    | none => simp
    | some kitty =>
      rw [parsed, ok_bind, returns_keyFrom_some] at key
      rw [ok_bind]
      dsimp only
      split
      · simp
      split
      · simp
      next unlisted =>
      split
      · simp
      next uncontrolled =>
      split
      · simp
      have shown : IsCodePoint (normalizedCodepoint kitty.codepoint) := by
        rcases key with named | ⟨inside, _⟩
        · unfold IsCodePoint
          rcases namedBase_codepoint named with listed | _
          · exact absurd listed unlisted
          · omega
        · exact inside
      obtain ⟨point, same⟩ := (returns_chr _).mpr shown
      rw [same]
      simp

/-- The groups of a mouse report. -/
def MouseFits (groups : Text × Text × Text × CodePoint) : Prop :=
  Short groups.1 ∧ Short groups.2.1 ∧ Short groups.2.2.1

/-- The numbers that `_event_from_sequence` reads are in range. -/
def SequenceFits (chars : Characters) (sequence : Text) : Prop :=
  sequence.length ≤ 1 ∨ (parseFocusSequence sequence).isSome = true ∨
    (altWrappedLegacyKeySequences.lookup sequence).isSome = true ∨
    match (literal "\x1b[" sequence).bind (matchSgrMouse chars) with
    | some groups => MouseFits groups
    | none =>
      (parseX10MouseSequence sequence).isSome = true ∨
        (parseKittyProtocolResponse chars sequence).isSome = true ∨
        (parseCellSizeResponse chars sequence).isSome = true ∨
        (parseTerminalControlResponse sequence).isSome = true ∨ KeyFits chars sequence

theorem parseMouse_none {chars : Characters} {sequence : Text}
    (unmatched : (literal "\x1b[" sequence).bind (matchSgrMouse chars) = none) :
    parseMouseSequence chars sequence = .ok (parseX10MouseSequence sequence) := by
  unfold parseMouseSequence parseSgrMouseSequence
  rw [unmatched]
  rfl

/-- An SGR report is a report, or one of its numbers is too long. -/
theorem parseMouse_some {chars : Characters} {sequence : Text} {groups : Text × Text × Text × CodePoint}
    (matched : (literal "\x1b[" sequence).bind (matchSgrMouse chars) = some groups) :
    (MouseFits groups ∧ ∃ report, parseMouseSequence chars sequence = .ok (some report)) ∨
      (¬ MouseFits groups ∧ ∃ raised, parseMouseSequence chars sequence = .error raised) := by
  obtain ⟨code, column, row, final⟩ := groups
  unfold parseMouseSequence parseSgrMouseSequence MouseFits
  rw [matched]
  dsimp only
  by_cases shortCode : Short code
  · rw [intOf_short shortCode]
    by_cases shortColumn : Short column
    · rw [intOf_short shortColumn]
      by_cases shortRow : Short row
      · rw [intOf_short shortRow]
        exact .inl ⟨⟨shortCode, shortColumn, shortRow⟩, _, rfl⟩
      · rw [intOf_long shortRow]
        exact .inr ⟨fun fits => shortRow fits.2.2, _, rfl⟩
    · rw [intOf_long shortColumn]
      exact .inr ⟨fun fits => shortColumn fits.2.1, _, rfl⟩
  · rw [intOf_long shortCode]
    exact .inr ⟨fun fits => shortCode fits.1, _, rfl⟩

/-- The last part of `_event_from_sequence`: keys, and what is no key. -/
theorem returns_keyEvent (env : Surroundings) (pending : Option Nat) (sequence : Text) :
    Returns (do
      match ← parseKeySequence env.chars sequence with
      | some (key, type) =>
        match ← kittyPrintableText env.chars sequence with
        | some printable =>
          return (some { kind := .text, text := [printable], raw := sequence }, some printable.val)
        | none => return (some { kind := .key, key := key, raw := sequence, eventType := type }, none)
      | none =>
        if let some key := parseAltControlSequence sequence then
          return (some { kind := .key, key := key, raw := sequence }, none)
        else
          match sequence with
          | [0x1b, point] =>
            return (some { kind := .key, key := textOf "alt+" ++ [point], raw := sequence }, pending)
          | _ => return (some { kind := .text, text := sequence }, pending) :
        Except Raised (Option InputEvent × Option Nat)) ↔ KeyFits env.chars sequence := by
  rw [← returns_parseKey]
  cases parsed : parseKeySequence env.chars sequence with
  | error raised => simp
  | ok result =>
    rw [ok_bind]
    cases result with
    | some key =>
      have fits := (returns_parseKey env.chars sequence).mp ⟨_, parsed⟩
      obtain ⟨printable, shown⟩ := returns_printable fits
      dsimp only
      rw [shown, ok_bind]
      cases printable <;> simp
    | none =>
      dsimp only
      split
      · simp
      split <;> simp

theorem returns_event (env : Surroundings) (pending : Option Nat) (sequence : Text) :
    Returns (eventFromSequence env pending sequence) ↔ SequenceFits env.chars sequence := by
  unfold SequenceFits
  unfold eventFromSequence
  split
  · simp
  · next point =>
    split
    · simp
    split
    · simp
    split <;> simp
  next nonempty several =>
  have long : ¬ sequence.length ≤ 1 := by
    intro short
    match sequence, short with
    | [], _ => exact nonempty rfl
    | [point], _ => exact several point rfl
  rw [or_iff_right long]
  cases focus : parseFocusSequence sequence with
  | some focused => simp
  | none =>
    cases wrapped : altWrappedLegacyKeySequences.lookup sequence with
    | some key => simp
    | none =>
      cases matched : (literal "\x1b[" sequence).bind (matchSgrMouse env.chars) with
      | some groups =>
        rcases parseMouse_some matched with ⟨fits, report, parsed⟩ | ⟨unfit, raised, parsed⟩
        · rw [parsed]
          simp [fits]
        · rw [parsed]
          simp [unfit]
      | none =>
        rw [parseMouse_none matched, ok_bind]
        cases parseX10MouseSequence sequence with
        | some report => simp
        | none =>
          cases parseKittyProtocolResponse env.chars sequence with
          | some response => simp
          | none =>
            cases parseCellSizeResponse env.chars sequence with
            | some response => simp
            | none =>
              cases parseTerminalControlResponse sequence with
              | some response => simp
              | none =>
                simp only [Option.isSome_none, Bool.false_eq_true, false_or]
                exact returns_keyEvent env pending sequence

end Loushang.Tui
