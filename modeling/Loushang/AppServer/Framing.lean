import Loushang.Lib.Chunks
import Mathlib.Algebra.GroupWithZero.Nat

/-!
# Sized frames

`_SizedFramedStream` of `appserver/framing.py`. A transport that raises, timeouts and
cancellation are not modelled; `read` may return anything.
-/
namespace Loushang.AppServer
open Loushang.Lib

/-- `MAX_MESSAGE_BYTES`. -/
def maxMessageBytes : Nat := 1048576

/-- `AppConnectionEOFError`, `AppConnectionClosedError` and `InvalidAppMessageError`. -/
inductive StreamError where
  | eof
  | closed
  | invalid

/-- `len(payload).to_bytes(4, "big")`. -/
def toBytes (length : Nat) : List UInt8 :=
  [UInt8.ofNat (length / 2 ^ 24), UInt8.ofNat (length / 2 ^ 16), UInt8.ofNat (length / 2 ^ 8),
    UInt8.ofNat length]

/-- `int.from_bytes(header, "big")`. -/
def fromBytes (header : List UInt8) : Nat :=
  header.foldl (fun value byte => value * 256 + byte.toNat) 0

theorem fromBytes_toBytes {length : Nat} (fits : length < 2 ^ 32) : fromBytes (toBytes length) = length := by
  simp only [fromBytes, toBytes, List.foldl_cons, List.foldl_nil, UInt8.toNat_ofNat']
  omega

theorem toBytes_fromBytes {header : List UInt8} (four : header.length = 4) :
    toBytes (fromBytes header) = header := by
  obtain ⟨a, b, c, d, rfl⟩ := List.length_eq_four.mp four
  simp only [toBytes, fromBytes, List.foldl_cons, List.foldl_nil, List.cons.injEq, and_true,
    ← UInt8.toNat_inj, UInt8.toNat_ofNat']
  have := a.toNat_lt
  have := b.toNat_lt
  have := c.toNat_lt
  have := d.toNat_lt
  omega

section Transport
variable {T : Type} (read : Nat → T → List UInt8 × T)

/-- The loop of `_read_exactly` with `size - len(output)` bytes to go; every turn reads one. -/
def readLoop (size : Nat) (allowEof : Bool) :
    Nat → List UInt8 → T → Except StreamError (List UInt8) × T
  | 0, output, transport => (.ok output, transport)
  | turns + 1, output, transport =>
    if output.length < size then
      let (data, transport) := read (size - output.length) transport
      if size - output.length < data.length then (.error .invalid, transport)
      else if data = [] then
        (.error (if allowEof ∧ output = [] then .eof else .invalid), transport)
      else readLoop size allowEof turns (output ++ data) transport
    else (.ok output, transport)

def readExactly (size : Nat) (allowEof : Bool) (transport : T) :
    Except StreamError (List UInt8) × T :=
  readLoop read size allowEof size [] transport

/-- A constructed stream: its payload limit has been checked. -/
structure FramedStream (T : Type) where
  maxPayload : Nat
  limited : 1 ≤ maxPayload ∧ maxPayload ≤ maxMessageBytes + 40
  transport : T
  closed : Bool
  written : List UInt8

def FramedStream.receive (stream : FramedStream T) :
    Except StreamError (List UInt8) × FramedStream T :=
  if stream.closed then (.error .closed, stream)
  else
    match readExactly read 1 true stream.transport with
    | (.error failure, transport) => (.error failure, { stream with transport })
    | (.ok first, transport) =>
      match readExactly read 3 false transport with
      | (.error failure, transport) => (.error failure, { stream with transport })
      | (.ok rest, transport) =>
        let length := fromBytes (first ++ rest)
        if 1 ≤ length ∧ length ≤ stream.maxPayload then
          let (result, transport) := readExactly read length false transport
          (result, { stream with transport })
        else (.error .invalid, { stream with transport })

/-- The results of `count` calls of `receive`, one after the other. -/
def FramedStream.receives : Nat → FramedStream T → List (Except StreamError (List UInt8))
  | 0, _ => []
  | count + 1, stream =>
    let (result, stream) := stream.receive read
    result :: FramedStream.receives count stream

end Transport

def frame (payload : List UInt8) : List UInt8 := toBytes payload.length ++ payload

def FramedStream.send {T : Type} (stream : FramedStream T) (payload : List UInt8) :
    Except StreamError (FramedStream T) :=
  if ¬(1 ≤ payload.length ∧ payload.length ≤ stream.maxPayload) then .error .invalid
  else if stream.closed then .error .closed
  else .ok { stream with written := stream.written ++ frame payload }

/-- Sending the payloads one after the other. -/
def FramedStream.sendAll {T : Type} (stream : FramedStream T) (payloads : List (List UInt8)) :
    Except StreamError (FramedStream T) :=
  payloads.foldlM FramedStream.send stream

/-- The loop over a chunked stream: it takes `size` bytes in all, or ends with the stream. -/
theorem readLoop_chunks {size : Nat} {allowEof : Bool} {turns : Nat} {output : List UInt8}
    {chunks : Chunks} (fits : output.length ≤ size) (enough : size ≤ output.length + turns) :
    (size ≤ (output ++ chunks.bytes).length →
      ∃ rest : Chunks, readLoop Chunks.read size allowEof turns output chunks =
          (.ok ((output ++ chunks.bytes).take size), rest) ∧
        rest.bytes = (output ++ chunks.bytes).drop size) ∧
    ((output ++ chunks.bytes).length < size →
      ∃ rest : Chunks, readLoop Chunks.read size allowEof turns output chunks =
          (.error (if allowEof ∧ output ++ chunks.bytes = [] then .eof else .invalid), rest) ∧
        rest.bytes = []) := by
  induction turns generalizing output chunks with
  | zero =>
    have full : output.length = size := by omega
    constructor
    · intro _
      refine ⟨chunks, ?_, ?_⟩
      · rw [readLoop, ← full, List.take_left]
      · rw [← full, List.drop_left]
    · intro short
      rw [List.length_append] at short
      omega
  | succ turns ih =>
    rw [readLoop]
    split
    · next more =>
      have positive : 0 < size - output.length := by omega
      have bounded := chunks.length_read_le (size - output.length)
      have front := chunks.read_append (size - output.length)
      simp only
      rw [if_neg (Nat.not_lt.mpr bounded)]
      by_cases ended : (chunks.read (size - output.length)).1 = []
      · have empty := (Chunks.read_eq_nil positive).mp ended
        rw [if_pos ended, empty, List.append_nil]
        constructor
        · intro whole
          omega
        · rw [empty, List.append_eq_nil_iff] at front
          exact fun _ => ⟨_, rfl, front.2⟩
      · have taken := List.length_pos_iff.mpr ended
        have step := @ih (output ++ (chunks.read (size - output.length)).1)
          (chunks.read (size - output.length)).2 (by rw [List.length_append]; omega)
          (by rw [List.length_append]; omega)
        rw [List.append_assoc, front] at step
        rw [if_neg ended]
        exact step
    · have full : output.length = size := by omega
      constructor
      · intro _
        refine ⟨chunks, ?_, ?_⟩
        · rw [← full, List.take_left]
        · rw [← full, List.drop_left]
      · intro short
        rw [List.length_append] at short
        omega

theorem readExactly_whole {size : Nat} {allowEof : Bool} {chunks : Chunks}
    (whole : size ≤ chunks.bytes.length) :
    ∃ rest : Chunks, readExactly Chunks.read size allowEof chunks = (.ok (chunks.bytes.take size), rest) ∧
      rest.bytes = chunks.bytes.drop size :=
  (@readLoop_chunks size allowEof size [] chunks (Nat.zero_le _) (by simp)).1 whole

theorem readExactly_short {size : Nat} {allowEof : Bool} {chunks : Chunks}
    (short : chunks.bytes.length < size) :
    ∃ rest : Chunks, readExactly Chunks.read size allowEof chunks =
        (.error (if allowEof ∧ chunks.bytes = [] then .eof else .invalid), rest) ∧ rest.bytes = [] :=
  (@readLoop_chunks size allowEof size [] chunks (Nat.zero_le _) (by simp)).2 short

section Receive
variable {stream : FramedStream Chunks}

theorem receive_end (opened : stream.closed = false) (empty : stream.transport.bytes = []) :
    ∃ rest : Chunks, stream.receive Chunks.read = (.error .eof, { stream with transport := rest }) ∧
      rest.bytes = [] := by
  obtain ⟨rest, ended, nothing⟩ := @readExactly_short 1 true stream.transport (by
    rw [empty]; exact Nat.one_pos)
  rw [if_pos ⟨rfl, empty⟩] at ended
  refine ⟨rest, ?_, nothing⟩
  rw [FramedStream.receive, opened, ended]
  rfl

variable {payload : List UInt8}

/-- A whole frame at the front is received, whatever follows it. -/
theorem receive_frame (opened : stream.closed = false) {more : List UInt8}
    (sized : 1 ≤ payload.length ∧ payload.length ≤ stream.maxPayload)
    (front : stream.transport.bytes = frame payload ++ more) :
    ∃ rest : Chunks, stream.receive Chunks.read = (.ok payload, { stream with transport := rest }) ∧
      rest.bytes = more := by
  have header : (toBytes payload.length).length = 4 := rfl
  have size : stream.transport.bytes.length = 4 + payload.length + more.length := by
    rw [front, frame, List.length_append, List.length_append, header]
  have fits : payload.length < 2 ^ 32 := by
    have limit := stream.limited.2
    unfold maxMessageBytes at limit
    omega
  obtain ⟨second, first, afterFirst⟩ := @readExactly_whole 1 true stream.transport (by omega)
  obtain ⟨third, rest, afterRest⟩ := @readExactly_whole 3 false second (by
    rw [afterFirst, List.length_drop]; omega)
  have length : fromBytes (stream.transport.bytes.take 1 ++ second.bytes.take 3) = payload.length := by
    rw [afterFirst, front]
    exact fromBytes_toBytes fits
  have body : third.bytes = payload ++ more := by
    rw [afterRest, afterFirst, front]
    rfl
  obtain ⟨final, payload_, afterAll⟩ := @readExactly_whole payload.length false third (by
    rw [body, List.length_append]; omega)
  refine ⟨final, ?_, ?_⟩
  · unfold FramedStream.receive
    rw [opened, first]
    simp only [Bool.false_eq_true, if_false, rest, length]
    rw [if_pos sized, payload_, body, List.take_left]
  · rw [afterAll, body, List.drop_left]

/-- Bytes that do not begin with a whole sized frame are refused. -/
theorem receive_refused (opened : stream.closed = false)
    (begun : stream.transport.bytes ≠ [])
    (unframed : ∀ payload more, 1 ≤ payload.length ∧ payload.length ≤ stream.maxPayload →
      stream.transport.bytes ≠ frame payload ++ more) :
    ∃ rest, stream.receive Chunks.read = (.error .invalid, { stream with transport := rest }) := by
  have positive := List.length_pos_iff.mpr begun
  obtain ⟨second, first, afterFirst⟩ := @readExactly_whole 1 true stream.transport (by omega)
  unfold FramedStream.receive
  rw [opened, first]
  simp only [Bool.false_eq_true, if_false]
  by_cases short : stream.transport.bytes.length < 4
  · obtain ⟨rest, failed, _⟩ := @readExactly_short 3 false second (by
      rw [afterFirst, List.length_drop]; omega)
    rw [failed]
    exact ⟨rest, rfl⟩
  · obtain ⟨third, rest, afterRest⟩ := @readExactly_whole 3 false second (by
      rw [afterFirst, List.length_drop]; omega)
    have header : stream.transport.bytes.take 1 ++ second.bytes.take 3 =
        stream.transport.bytes.take 4 := by
      rw [afterFirst, ← List.take_add]
    have body : third.bytes = stream.transport.bytes.drop 4 := by
      rw [afterRest, afterFirst, List.drop_drop]
    rw [rest]
    simp only [header]
    split
    · next sized =>
      have missing : third.bytes.length < fromBytes (stream.transport.bytes.take 4) := by
        refine Nat.lt_of_not_le fun whole => ?_
        have length := List.length_take_of_le whole
        refine unframed (third.bytes.take _) (third.bytes.drop (fromBytes (stream.transport.bytes.take 4)))
          (length.symm ▸ sized) ?_
        rw [frame, length, toBytes_fromBytes (List.length_take_of_le (by omega)), List.append_assoc,
          List.take_append_drop, body, List.take_append_drop]
      obtain ⟨last, failed, _⟩ := @readExactly_short _ false third missing
      rw [failed]
      exact ⟨last, rfl⟩
    · exact ⟨third, rfl⟩

/-- A call takes a whole sized frame off the front or fails. -/
theorem receive_cases (opened : stream.closed = false) :
    (∃ payload more, ∃ rest : Chunks, (1 ≤ payload.length ∧ payload.length ≤ stream.maxPayload) ∧
      stream.transport.bytes = frame payload ++ more ∧ rest.bytes = more ∧
      stream.receive Chunks.read = (.ok payload, { stream with transport := rest })) ∨
    ((∀ payload more, 1 ≤ payload.length ∧ payload.length ≤ stream.maxPayload →
        stream.transport.bytes ≠ frame payload ++ more) ∧
      (stream.receive Chunks.read).1 =
        .error (if stream.transport.bytes = [] then .eof else .invalid)) := by
  by_cases framed : ∃ payload more, (1 ≤ payload.length ∧ payload.length ≤ stream.maxPayload) ∧
      stream.transport.bytes = frame payload ++ more
  · obtain ⟨payload, more, sized, front⟩ := framed
    obtain ⟨rest, received, behind⟩ := receive_frame opened sized front
    exact Or.inl ⟨payload, more, rest, sized, front, behind, received⟩
  · have unframed : ∀ payload more, 1 ≤ payload.length ∧ payload.length ≤ stream.maxPayload →
        stream.transport.bytes ≠ frame payload ++ more :=
      fun payload more sized front => framed ⟨payload, more, sized, front⟩
    refine Or.inr ⟨unframed, ?_⟩
    by_cases empty : stream.transport.bytes = []
    · obtain ⟨rest, received, _⟩ := receive_end opened empty
      rw [received, if_pos empty]
    · obtain ⟨rest, refused⟩ := receive_refused opened empty unframed
      rw [refused, if_neg empty]

/-- A frame that ends early is refused once it has begun. -/
theorem receive_truncated (opened : stream.closed = false)
    (sized : 1 ≤ payload.length ∧ payload.length ≤ stream.maxPayload) (begun : stream.transport.bytes ≠ [])
    (part : stream.transport.bytes <+: frame payload) (early : stream.transport.bytes ≠ frame payload) :
    ∃ rest, stream.receive Chunks.read = (.error .invalid, { stream with transport := rest }) := by
  refine receive_refused opened begun fun other more otherSized front => early ?_
  have limit := stream.limited.2
  unfold maxMessageBytes at limit
  have within : frame other <+: frame payload := (front ▸ List.prefix_append _ _).trans part
  have header : toBytes other.length = toBytes payload.length := by
    obtain ⟨tail, whole⟩ := within
    exact congrArg (List.take 4) whole
  have length := congrArg fromBytes header
  rw [fromBytes_toBytes (by omega), fromBytes_toBytes (by omega)] at length
  have same := within.eq_of_length (by rw [frame, frame, header, List.length_append, List.length_append, length])
  rw [front, same] at part ⊢
  exact part.eq_of_length_le (by simp)

end Receive

def frames (payloads : List (List UInt8)) : List UInt8 := payloads.flatMap frame

variable {payloads : List (List UInt8)}

/-- Sized payloads are all sent, one frame after the other. -/
theorem sendAll_frames {T : Type} {stream : FramedStream T} (opened : stream.closed = false)
    (sized : ∀ payload ∈ payloads, 1 ≤ payload.length ∧ payload.length ≤ stream.maxPayload) :
    stream.sendAll payloads = .ok { stream with written := stream.written ++ frames payloads } := by
  induction payloads generalizing stream with
  | nil =>
    rw [frames, List.flatMap_nil, List.append_nil]
    rfl
  | cons payload rest ih =>
    have sent : stream.send payload = .ok { stream with written := stream.written ++ frame payload } := by
      rw [FramedStream.send, if_neg (not_not.mpr (sized payload List.mem_cons_self)), opened]
      rfl
    rw [FramedStream.sendAll, List.foldlM_cons, sent]
    have others := @ih { stream with written := stream.written ++ frame payload } opened
      (fun other member => sized other (List.mem_cons_of_mem _ member))
    rw [FramedStream.sendAll] at others
    refine others.trans ?_
    rw [frames, frames, List.flatMap_cons, List.append_assoc]

variable {stream : FramedStream Chunks}

/-- From a whole stream of frames, the payloads are received and then the end. -/
theorem receives_whole (opened : stream.closed = false)
    (sized : ∀ payload ∈ payloads, 1 ≤ payload.length ∧ payload.length ≤ stream.maxPayload)
    (front : stream.transport.bytes = frames payloads) (more : Nat) :
    stream.receives Chunks.read (payloads.length + more) =
      payloads.map .ok ++ List.replicate more (.error .eof) := by
  induction payloads generalizing stream with
  | nil =>
    rw [List.length_nil, Nat.zero_add, List.map_nil, List.nil_append]
    induction more generalizing stream with
    | zero => rfl
    | succ more ih =>
      obtain ⟨rest, received, empty⟩ := receive_end opened front
      rw [FramedStream.receives, received, List.replicate_succ]
      simp only
      rw [ih _ _ empty]
      · exact opened
      · exact fun _ member => absurd member List.not_mem_nil
  | cons payload others ih =>
    rw [frames, List.flatMap_cons] at front
    obtain ⟨rest, received, behind⟩ := receive_frame opened (sized payload List.mem_cons_self) front
    rw [List.length_cons, Nat.add_right_comm, FramedStream.receives, received]
    simp only
    rw [ih _ _ behind]
    · rfl
    · exact opened
    · exact fun other member => sized other (List.mem_cons_of_mem _ member)

/-- From a proper prefix, the payloads of its whole frames are received, and then the end
or a refusal: the end exactly on the border of a frame. -/
theorem receives_cut (opened : stream.closed = false)
    (sized : ∀ payload ∈ payloads, 1 ≤ payload.length ∧ payload.length ≤ stream.maxPayload)
    (part : stream.transport.bytes <+: frames payloads) (proper : stream.transport.bytes ≠ frames payloads) :
    ∃ whole < payloads.length, ∃ last,
      (∀ count ≤ payloads.length,
        frames (payloads.take count) <+: stream.transport.bytes ↔ count ≤ whole) ∧
      stream.receives Chunks.read (whole + 1) = (payloads.take whole).map .ok ++ [.error last] ∧
      ((last = .eof ∧ stream.transport.bytes = frames (payloads.take whole)) ∨
        (last = .invalid ∧ stream.transport.bytes ≠ frames (payloads.take whole))) := by
  induction payloads generalizing stream with
  | nil =>
    exact absurd (List.prefix_nil.mp part) proper
  | cons payload others ih =>
    have here := sized payload List.mem_cons_self
    have split : frames (payload :: others) = frame payload ++ frames others := List.flatMap_cons
    rw [split] at part proper
    by_cases long : (frame payload).length ≤ stream.transport.bytes.length
    · obtain ⟨more, front⟩ := List.prefix_of_prefix_length_le (List.prefix_append _ _) part long
      obtain ⟨rest, received, behind⟩ := receive_frame opened here front.symm
      rw [← front] at part proper
      rw [List.prefix_append_right_inj] at part
      have tail : more ≠ frames others := fun same => proper (same ▸ rfl)
      rw [← behind] at part tail
      obtain ⟨whole, inside, last, contained, results, border⟩ := @ih
        { stream with transport := rest } opened
        (fun other member => sized other (List.mem_cons_of_mem _ member)) part tail
      simp only [behind] at contained border
      have onward : ∀ count, frames ((payload :: others).take (count + 1)) =
          frame payload ++ frames (others.take count) := fun _ => List.flatMap_cons
      refine ⟨whole + 1, Nat.succ_lt_succ inside, last, fun count bounded => ?_, ?_, ?_⟩
      · cases count with
        | zero => simp [frames]
        | succ count =>
          rw [onward, ← front, List.prefix_append_right_inj,
            contained count (Nat.le_of_succ_le_succ bounded), Nat.succ_le_succ_iff]
      · rw [FramedStream.receives, received]
        simp only [results, List.take_succ_cons, List.map_cons, List.cons_append]
      · rw [onward, ← front]
        simpa using border
    · have early : stream.transport.bytes ≠ frame payload := fun same => long (same ▸ Nat.le_refl _)
      have inFrame := List.prefix_of_prefix_length_le part (List.prefix_append (frame payload) (frames others))
        (Nat.le_of_not_le long)
      have none_ : ∀ count ≤ (payload :: others).length,
          frames ((payload :: others).take count) <+: stream.transport.bytes ↔ count ≤ 0 := by
        intro count _
        cases count with
        | zero => simp [frames]
        | succ count =>
          refine iff_of_false (fun inside => long ?_) (by omega)
          have first : frame payload <+: frames ((payload :: others).take (count + 1)) :=
            List.prefix_append _ _
          exact (first.trans inside).length_le
      by_cases begun : stream.transport.bytes = []
      · obtain ⟨rest, received, _⟩ := receive_end opened begun
        refine ⟨0, Nat.succ_pos _, .eof, none_, ?_, Or.inl ⟨rfl, begun⟩⟩
        rw [FramedStream.receives, received]
        rfl
      · obtain ⟨rest, received⟩ := receive_truncated opened here begun inFrame early
        refine ⟨0, Nat.succ_pos _, .invalid, none_, ?_, Or.inr ⟨rfl, begun⟩⟩
        rw [FramedStream.receives, received]
        rfl

/-- What is sent is received, however it is chunked and wherever it is cut off. -/
theorem frames_survive_chunking {T : Type} {sender : FramedStream T} {receiver : FramedStream Chunks}
    {payloads : List (List UInt8)} (limits : sender.maxPayload = receiver.maxPayload)
    (connected : sender.closed = false ∧ receiver.closed = false) (fresh : sender.written = [])
    (sized : ∀ payload ∈ payloads, 1 ≤ payload.length ∧ payload.length ≤ sender.maxPayload) :
    ∃ sent, sender.sendAll payloads = .ok sent ∧
      (receiver.transport.bytes = sent.written → ∀ more,
        receiver.receives Chunks.read (payloads.length + more) =
          payloads.map .ok ++ List.replicate more (.error .eof)) ∧
      (receiver.transport.bytes <+: sent.written → receiver.transport.bytes ≠ sent.written →
        ∃ whole < payloads.length, ∃ last,
          (∀ count ≤ payloads.length,
            (payloads.take count).flatMap frame <+: receiver.transport.bytes ↔ count ≤ whole) ∧
          receiver.receives Chunks.read (whole + 1) = (payloads.take whole).map .ok ++ [.error last] ∧
          ((last = .eof ∧ receiver.transport.bytes = (payloads.take whole).flatMap frame) ∨
            (last = .invalid ∧ receiver.transport.bytes ≠ (payloads.take whole).flatMap frame))) := by
  refine ⟨_, sendAll_frames connected.1 sized, ?_, ?_⟩
  · rw [fresh, List.nil_append]
    exact fun all => receives_whole connected.2 (limits ▸ sized) all
  · rw [fresh, List.nil_append]
    exact fun part proper => receives_cut connected.2 (limits ▸ sized) part proper

/-- Two payloads in three-byte pieces. -/
theorem frames_survive_chunking_pieces :
    let limits : 1 ≤ maxMessageBytes ∧ maxMessageBytes ≤ maxMessageBytes + 40 := by decide
    let pieces : Chunks := ⟨[[0, 0, 0], [2, 7, 8], [0, 0, 0], [1, 9]], by decide⟩
    ∃ sent, (⟨maxMessageBytes, limits, (), false, []⟩ : FramedStream Unit).sendAll [[7, 8], [9]] = .ok sent ∧
      pieces.bytes = sent.written ∧
      (⟨maxMessageBytes, limits, pieces, false, []⟩ : FramedStream Chunks).receives Chunks.read 3 =
        [.ok [7, 8], .ok [9], .error .eof] := by
  intro limits pieces
  obtain ⟨sent, success, whole, _⟩ := @frames_survive_chunking Unit
    ⟨maxMessageBytes, limits, (), false, []⟩ ⟨maxMessageBytes, limits, pieces, false, []⟩ [[7, 8], [9]]
    rfl ⟨rfl, rfl⟩ rfl (by decide)
  have written : pieces.bytes = sent.written := by
    cases success
    decide
  exact ⟨sent, success, written, whole written 1⟩

/-- Whatever arrives and however it is chunked: what is received are the payloads of the whole
sized frames it begins with, and then the end exactly if nothing else is left. -/
theorem receives_iff {stream : FramedStream Chunks} (opened : stream.closed = false)
    (payloads : List (List UInt8)) (last : StreamError) :
    stream.receives Chunks.read (payloads.length + 1) = payloads.map .ok ++ [.error last] ↔
      ∃ tail, stream.transport.bytes = payloads.flatMap frame ++ tail ∧
        (∀ payload ∈ payloads, 1 ≤ payload.length ∧ payload.length ≤ stream.maxPayload) ∧
        (∀ payload more, 1 ≤ payload.length ∧ payload.length ≤ stream.maxPayload →
          tail ≠ frame payload ++ more) ∧
        last = if tail = [] then .eof else .invalid := by
  induction payloads generalizing stream with
  | nil =>
    rw [List.length_nil, FramedStream.receives]
    simp only [FramedStream.receives, List.map_nil, List.nil_append, List.flatMap_nil,
      List.cons.injEq, and_true, List.not_mem_nil, false_implies, implies_true, true_and,
      exists_eq_left']
    rcases receive_cases opened with ⟨payload, more, rest, sized, front, -, received⟩ |
      ⟨unframed, failed⟩
    · rw [received]
      refine iff_of_false (by simp) fun wrong => wrong.1 payload more sized front
    · rw [failed, Except.error.injEq]
      exact ⟨fun same => ⟨unframed, same.symm⟩, fun right => right.2.symm⟩
  | cons payload others ih =>
    rw [List.length_cons, FramedStream.receives, List.map_cons, List.cons_append, List.cons.injEq]
    constructor
    · rintro ⟨accepted, behind⟩
      rcases receive_cases opened with ⟨first, more, rest, sized, front, left, received⟩ |
        ⟨unframed, failed⟩
      · rw [received] at accepted behind
        obtain ⟨tail, same, all, ended⟩ := (@ih { stream with transport := rest } opened).mp behind
        cases accepted
        refine ⟨tail, ?_, List.forall_mem_cons.mpr ⟨sized, all⟩, ended⟩
        rw [front, ← left, same, List.flatMap_cons, List.append_assoc]
      · rw [failed] at accepted
        cases accepted
    · rintro ⟨tail, front, all, ended⟩
      rw [List.flatMap_cons, List.append_assoc] at front
      obtain ⟨sized, others_⟩ := List.forall_mem_cons.mp all
      obtain ⟨rest, received, behind⟩ := receive_frame opened sized front
      rw [received]
      exact ⟨rfl, (@ih { stream with transport := rest } opened).mpr ⟨tail, behind, others_, ended⟩⟩

/-- A frame, and two bytes of a header behind it. -/
theorem receives_iff_torn :
    let limits : 1 ≤ maxMessageBytes ∧ maxMessageBytes ≤ maxMessageBytes + 40 := by decide
    let pieces : Chunks := ⟨[[0, 0, 0], [2, 7, 8, 0], [0]], by decide⟩
    (⟨maxMessageBytes, limits, pieces, false, []⟩ : FramedStream Chunks).receives Chunks.read 2 =
      [.ok [7, 8], .error .invalid] := by
  intro limits pieces
  refine (receives_iff rfl [[7, 8]] .invalid).mpr ⟨[0, 0], rfl, by decide, ?_, rfl⟩
  intro payload more sized same
  have length := congrArg List.length same
  simp only [frame, toBytes, List.length_append, List.length_cons, List.length_nil] at length
  omega

end Loushang.AppServer
