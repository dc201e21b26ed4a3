import Loushang.Lib.JsonText

/-!
# Values of the managed deployment

From `apphost/managed/contracts.py` and the error codes of `_files.py`. A value that is
checked on construction is a structure with the check as a field. Namespaces are their keys.
-/
namespace Loushang.AppHost
open Lib

/-- The codes of `ManagedStorageError`. -/
inductive StorageError where
  | unsupported
  | unavailable
  | notFound
  | conflict
  | busy
  | closed
  | invalidRecord
  | capacity
  deriving DecidableEq

/-- What a managed call raises: a value it refuses, or a storage error. -/
inductive ManagedError where
  | contract
  | storage (code : StorageError)

theorem ok_bind {ε α β : Type} (value : α) (next : α → Except ε β) :
    ((Except.ok value : Except ε α) >>= next) = next value := rfl

def isHexPoint (point : CodePoint) : Bool :=
  (0x30 ≤ point.val && point.val ≤ 0x39) || (0x61 ≤ point.val && point.val ≤ 0x66)

/-- `re.compile(r"[0-9a-f]{length}\Z").fullmatch(text)`. -/
def isHex (length : Nat) (text : PyStr) : Bool :=
  text.points.length == length && text.points.all isHexPoint

/-- A text that is written into JSON as it stands. -/
def Unescaped (text : PyStr) : Prop :=
  ∀ point ∈ text.points, 0x20 ≤ point.val ∧ point.val ≤ 0x7e ∧
    point ≠ JsonText.quote ∧ point ≠ JsonText.backslash

instance (text : PyStr) : Decidable (Unescaped text) :=
  decidable_of_iff (text.points.all fun point => 0x20 ≤ point.val ∧ point.val ≤ 0x7e ∧
    point ≠ JsonText.quote ∧ point ≠ JsonText.backslash) (by simp [Unescaped])

theorem Unescaped.printable {text : PyStr} (plain : Unescaped text) :
    JsonText.printable text = true := by
  rw [JsonText.printable, List.all_eq_true]
  intro point member
  obtain ⟨low, high, _⟩ := plain point member
  rw [Bool.and_eq_true, decide_eq_true_eq, decide_eq_true_eq]
  exact ⟨low, high⟩

theorem Unescaped.flatMap_escape {text : PyStr} (plain : Unescaped text) :
    text.points.flatMap JsonText.escape = text.points := by
  obtain ⟨points⟩ := text
  induction points with
  | nil => rfl
  | cons point points ih =>
    obtain ⟨low, high, notQuote, notSlash⟩ := plain point List.mem_cons_self
    have rest := ih fun other member => plain other (List.mem_cons_of_mem _ member)
    rw [List.flatMap_cons, JsonText.escape_eq low high, if_neg (by tauto), rest]
    rfl

theorem Unescaped.dumpStr {text : PyStr} (plain : Unescaped text) :
    JsonText.dumpStr text = JsonText.quote :: (text.points ++ [JsonText.quote]) := by
  rw [JsonText.dumpStr, plain.flatMap_escape]

theorem isHex_length {length : Nat} {text : PyStr} (hex : isHex length text = true) :
    text.points.length = length := by
  rw [isHex, Bool.and_eq_true, beq_iff_eq] at hex
  exact hex.1

theorem isHexPoint_unescaped {point : CodePoint} (digit : isHexPoint point = true) :
    0x20 ≤ point.val ∧ point.val ≤ 0x7e ∧ point ≠ JsonText.quote ∧ point ≠ JsonText.backslash := by
  simp only [isHexPoint, Bool.or_eq_true, Bool.and_eq_true, decide_eq_true_eq] at digit
  refine ⟨by omega, by omega, ?_, ?_⟩
  · rintro rfl
    exact absurd digit (by decide)
  · rintro rfl
    exact absurd digit (by decide)

theorem isHex_unescaped {length : Nat} {text : PyStr} (hex : isHex length text = true) :
    Unescaped text := by
  rw [isHex, Bool.and_eq_true, List.all_eq_true] at hex
  intro point member
  exact isHexPoint_unescaped (hex.2 point member)

/-- The value of a key in a parsed object. -/
def field (entries : List (PyStr × JsonValue)) (name : String) : Option JsonValue :=
  (entries.find? fun entry => entry.1 = PyStr.ofString name).map Prod.snd

/-- `row.keys() == names`. -/
def hasKeys (entries : List (PyStr × JsonValue)) (names : List String) : Bool :=
  (entries.all fun entry => entry.1 ∈ names.map PyStr.ofString) &&
    names.all fun name => PyStr.ofString name ∈ entries.map Prod.fst

/-! ## Instances, handoffs and stop evidence -/

/-- `ManagedInstanceRefV1`. -/
structure ManagedInstanceRefV1 where
  namespaceKey : PyStr
  serviceId : PyStr
  instanceId : PyStr
  namespaceKey_hex : isHex 64 namespaceKey = true
  serviceId_hex : isHex 64 serviceId = true
  instanceId_hex : isHex 32 instanceId = true
  deriving DecidableEq

/-- `ManagedHandoffPhaseV1`. -/
inductive ManagedHandoffPhaseV1 where
  | provisional
  | committed
  | aborting
  deriving DecidableEq

namespace ManagedHandoffPhaseV1

def text : ManagedHandoffPhaseV1 → String
  | provisional => "provisional"
  | committed => "committed"
  | aborting => "aborting"

def all : List ManagedHandoffPhaseV1 := [provisional, committed, aborting]

end ManagedHandoffPhaseV1

/-- `ManagedHandoffV1`. -/
structure ManagedHandoffV1 where
  instanceRef : ManagedInstanceRefV1
  attemptId : PyStr
  phase : ManagedHandoffPhaseV1
  stopRequested : Bool
  attemptId_hex : isHex 32 attemptId = true
  deriving DecidableEq

namespace ManagedHandoffV1

def requestStop (handoff : ManagedHandoffV1) : ManagedHandoffV1 :=
  { handoff with stopRequested := true }

def commit (handoff : ManagedHandoffV1) : Except ManagedError ManagedHandoffV1 :=
  if handoff.stopRequested ∨ handoff.phase = .aborting then .error .contract
  else .ok { handoff with phase := .committed }

def abort (handoff : ManagedHandoffV1) : Except ManagedError ManagedHandoffV1 :=
  if handoff.phase = .committed then .error .contract
  else .ok { handoff with phase := .aborting }

end ManagedHandoffV1

/-- `ManagedStopEvidenceV1`. -/
structure ManagedStopEvidenceV1 where
  instanceRef : ManagedInstanceRefV1
  processExited : Bool
  applicationCleanupCompleted : Bool
  processScopeSettled : Bool
  deriving DecidableEq

namespace ManagedStopEvidenceV1

def cleanlyStopped (evidence : ManagedStopEvidenceV1) : Bool :=
  evidence.processExited && evidence.applicationCleanupCompleted && evidence.processScopeSettled

/-- Some fact about the end of the instance was seen. -/
def any (evidence : ManagedStopEvidenceV1) : Bool :=
  evidence.processExited || evidence.applicationCleanupCompleted || evidence.processScopeSettled

end ManagedStopEvidenceV1

end Loushang.AppHost
