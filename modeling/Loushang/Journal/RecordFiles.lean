import Loushang.Journal.SafeAppend

/-!
# Headerless journals of whole records

A file that only ever grew by whole `append_jsonl_record` writes loads as the records that
were appended, under every policy without a header, and a load leaves it as it is.
-/
namespace Loushang.Journal
open Loushang.Lib

section

variable {V R : Type} (json : JsonText V) (codec : JournalRecordCodec V R)

/-- The file ends on a record boundary and its lines are these records. -/
structure HoldsRecords (content : List Char) (records : List R) : Prop where
  closed : Closed content
  decoded : ∀ policy : JournalLoadPolicy,
    decodeRecords json codec policy none (numberedLines 1 (lines content)) = .ok (records, [])

theorem holdsRecords_nil : HoldsRecords json codec [] [] :=
  ⟨.inl rfl, fun _ => rfl⟩

variable {json codec} {content : List Char} {records : List R}

theorem HoldsRecords.load (holds : HoldsRecords json codec content records) {policy : JournalLoadPolicy}
    (headerless : policy.header = .absent) (mode : ReadMode) :
    loadJsonl json (none : Option (JournalHeaderCodec V Unit)) codec policy mode (fun _ => none) content =
      .ok (⟨none, records, []⟩, content) := by
  unfold loadJsonl
  rw [decodeJsonl_readText, decodeJsonl_of_closed _ _ _ _ holds.closed]
  simp [decodeLines, decodeHeaderPart, headerless, holds.decoded policy, Except.map, blankTail]

theorem numberedLines_dumped (record : R) (first : Nat) :
    (numberedLines first [dumpRecord json codec record]).map Prod.snd = [dumpRecord json codec record] := by
  rw [map_snd_numberedLines]
  have written : isBlank (dumpRecord json codec record) = false := json.dumps_not_blank _
  simp [written]

theorem HoldsRecords.append (holds : HoldsRecords json codec content records) (newline : Newline)
    (record : R) :
    HoldsRecords json codec (appendJsonlRecord json codec newline content record) (records ++ [record]) := by
  have oneLines : ∀ text ∈ [dumpRecord json codec record], OneLine text := by
    intro text member
    rw [List.mem_singleton.mp member]
    exact oneLine_dumpRecord json codec record
  rw [appendJsonlRecord_eq, appendJsonlRecords_eq]
  refine ⟨closed_append_terminated newline holds.closed _, fun policy => ?_⟩
  rw [List.map_singleton, lines_append_terminated newline holds.closed oneLines, numberedLines_append,
    decodeRecords_append, holds.decoded policy]
  rw [@decodeRecords_dumped _ _ json codec policy _ [record] (numberedLines_dumped record _)]
  rfl

end

end Loushang.Journal
