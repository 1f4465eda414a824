import ManualQpack.Encoder
import ManualQpack.Receiver

namespace ManualQpack

/-!
# The tracker against the reference receiver

The tracker is meant to hold the table a conformant receiver computes from the
bytes the encoder emits.  `Mirrors` relates an encoder to a receiver holding
its table; every call such a receiver can follow keeps the relation
(`Mirrors.call`), so every run of such calls does (`Mirrors.run`).

Two kinds of call fall outside.  Reassigning `max_table_capacity` above the
maximum the receiver announced lets `set_capacity` exceed it.  A literal name
of 31 bytes or more is written with the wrong prefix width: at 31 bytes the
receiver asks for a 128-byte name, and the stream ends before it.
-/

namespace EncoderCall

/--
The calls a receiver that announced `maxCapacity` follows: literal names under
31 bytes, and `max_table_capacity` reassigned to at most `maxCapacity`.
-/
def Followable (maxCapacity : Nat) : EncoderCall → Prop
  | .insertLiteral name _ => name.length < 31
  | .setMaxTableCapacity value => value ≤ maxCapacity
  | _ => True

/-- Whether the receiver follows a call is decided from the call's own arguments. -/
instance (maxCapacity : Nat) : DecidablePred (Followable maxCapacity)
  | .setCapacity _ => inferInstanceAs (Decidable True)
  | .insertNameRef .. => inferInstanceAs (Decidable True)
  | .insertLiteral name _ => inferInstanceAs (Decidable (name.length < 31))
  | .duplicate _ => inferInstanceAs (Decidable True)
  | .setMaxTableCapacity value => inferInstanceAs (Decidable (value ≤ maxCapacity))

end EncoderCall

/-- The receiver holds the encoder's table, and the encoder's maximum is within the receiver's. -/
structure Mirrors (encoder : ManualQpackEncoder) (receiver : Receiver) : Prop where
  entries : receiver.entries = encoder.table.entries
  capacity : (receiver.capacity : Int) = encoder.table.capacity
  insertCount : receiver.insertCount = encoder.table.insertCount
  maxCapacity : encoder.maxTableCapacity ≤ receiver.maxCapacity

namespace Mirrors

/-- A fresh receiver mirrors a fresh encoder with the same maximum. -/
theorem init (maxCapacity : Nat) :
    Mirrors (ManualQpackEncoder.init maxCapacity) (Receiver.init maxCapacity) :=
  ⟨rfl, rfl, rfl, le_refl _⟩

/-- An allowed capacity is set on both tables alike. -/
theorem setCapacity {self : ManualQpackEncoder} {receiver : Receiver}
    (mirrors : Mirrors self receiver) {capacity : Nat}
    (allowed : (capacity : Int) ≤ self.maxTableCapacity) :
    ∃ next, receiver.apply (.setDynamicTableCapacity capacity) = .ok next ∧
      Mirrors { self with table := self.table.setCapacity capacity } next := by
  obtain ⟨kept, resized, longest⟩ := self.table.setCapacity_spec (Int.natCast_nonneg capacity)
  have belowMaximum : ¬ capacity > receiver.maxCapacity := by
    have := mirrors.maxCapacity
    omega
  refine ⟨{ receiver with capacity, entries := fittingPrefix capacity receiver.entries },
    by rw [Receiver.apply, if_neg belowMaximum], ?_, by simp, by simpa using mirrors.insertCount,
    mirrors.maxCapacity⟩
  show fittingPrefix capacity receiver.entries = (self.table.setCapacity capacity).entries
  rw [resized, mirrors.entries]
  exact (fittingPrefix_longest capacity self.table.entries).unique longest

/-- An entry that fits is inserted in both tables alike. -/
theorem insert {self : ManualQpackEncoder} {receiver : Receiver}
    (mirrors : Mirrors self receiver) {entry : DynamicTableEntry} {kept : List DynamicTableEntry}
    (fits : (entry.size : Int) ≤ self.table.capacity)
    (longest : LongestPrefixWithin (self.table.capacity - entry.size) self.table.entries kept) :
    ∃ next, receiver.insert entry = .ok next ∧
      Mirrors
        { self with
          table :=
            { entries := entry :: kept, capacity := self.table.capacity,
              insertCount := self.table.insertCount + 1 } } next := by
  rw [entry.size_eq_entrySize] at fits longest
  have roomy : Receiver.entrySize entry ≤ receiver.capacity := by
    have := mirrors.capacity
    omega
  refine ⟨{ receiver with
      entries := entry :: fittingPrefix (receiver.capacity - Receiver.entrySize entry)
        receiver.entries
      insertCount := receiver.insertCount + 1 },
    by rw [Receiver.insert, if_neg (by omega)], ?_, mirrors.capacity,
    by simp [mirrors.insertCount], mirrors.maxCapacity⟩
  rw [← mirrors.capacity, ← Nat.cast_sub roomy, ← mirrors.entries] at longest
  show entry :: fittingPrefix (receiver.capacity - Receiver.entrySize entry) receiver.entries =
    entry :: kept
  rw [(fittingPrefix_longest _ _).unique longest]

end Mirrors

section Receiving

variable (huffmanDecode : Bytes → Option Bytes)

/--
The bytes an inserting call emits read as one instruction, which the receiver
applies as the insertion of the entry the call resolved.
-/
theorem readInstruction_of_resolvedEntry {self : ManualQpackEncoder} {receiver : Receiver}
    (mirrors : Mirrors self receiver) {request : EncoderCall} {maxCapacity : Nat}
    (followable : request.Followable maxCapacity)
    {entry : DynamicTableEntry} (resolved : self.resolvedEntry request = some entry)
    {instruction : Bytes} (built : request.instruction = .ok instruction) :
    ∃ wire, (∀ rest, readInstruction huffmanDecode (instruction ++ rest) = some (wire, rest)) ∧
      receiver.apply wire = receiver.insert entry := by
  cases request with
  | setCapacity => cases resolved
  | setMaxTableCapacity => cases resolved
  | insertLiteral name value =>
      cases resolved
      exact ⟨_, readInstruction_insertWithLiteralName huffmanDecode followable built, rfl⟩
  | insertNameRef index value isStatic =>
      simp only [ManualQpackEncoder.resolvedEntry, Option.map_eq_some'] at resolved
      obtain ⟨name, referenced, rfl⟩ := resolved
      simp only [ManualQpackEncoder.referencedName] at referenced
      split at referenced
      · cases referenced
      · next nonnegative =>
          obtain ⟨index, rfl⟩ := Int.eq_ofNat_of_zero_le (Int.not_lt.mp nonnegative)
          refine ⟨_, readInstruction_insertWithNameRef huffmanDecode built, ?_⟩
          cases isStatic with
          | true =>
              simp only [ite_true, Int.toNat_ofNat] at referenced
              simp only [Receiver.apply, referenced]
          | false =>
              simp only [Bool.false_eq_true, ite_false, Int.toNat_ofNat,
                Option.map_eq_some'] at referenced
              obtain ⟨present, atIndex, rfl⟩ := referenced
              simp only [Receiver.apply, mirrors.entries, atIndex]
  | duplicate relativeIndex =>
      simp only [ManualQpackEncoder.resolvedEntry] at resolved
      split at resolved
      · cases resolved
      · next nonnegative =>
          obtain ⟨index, rfl⟩ := Int.eq_ofNat_of_zero_le (Int.not_lt.mp nonnegative)
          rw [Int.toNat_ofNat, ← mirrors.entries] at resolved
          exact ⟨_, readInstruction_duplicate huffmanDecode built,
            by simp only [Receiver.apply, resolved]⟩

/--
Every call the receiver follows keeps it in step: reading the bytes the call
emits takes the receiver, its maximum unchanged, to a state that mirrors the
encoder after the call, whatever bytes follow.
-/
theorem Mirrors.call {self : ManualQpackEncoder} {receiver : Receiver}
    (mirrors : Mirrors self receiver) {request : EncoderCall}
    (followable : request.Followable receiver.maxCapacity) :
    ∃ next, next.maxCapacity = receiver.maxCapacity ∧ Mirrors (self.call request).state next ∧
      ∀ rest, receiver.receive huffmanDecode (ManualQpackEncoder.output [request] self ++ rest) =
        next.receive huffmanDecode rest := by
  rcases self.call_cases request with ⟨_, raises⟩ |
      ⟨capacity, instruction, rfl, nonnegative, allowed, built, returns⟩ |
      ⟨entry, instruction, kept, resolved, fits, built, returns, longest⟩ | ⟨value, rfl, returns⟩
  · refine ⟨receiver, rfl, by rw [raises]; exact mirrors, fun rest => ?_⟩
    simp [ManualQpackEncoder.output, raises]
  · obtain ⟨capacity, rfl⟩ := Int.eq_ofNat_of_zero_le nonnegative
    obtain ⟨next, applied, mirrorsNext⟩ := mirrors.setCapacity allowed
    refine ⟨next, Receiver.apply_maxCapacity applied, by rw [returns]; exact mirrorsNext,
      fun rest => ?_⟩
    simp only [ManualQpackEncoder.output, returns, List.append_nil]
    rw [Receiver.receive_of_read huffmanDecode
      (readInstruction_setDynamicTableCapacity huffmanDecode built rest), applied]
    rfl
  · obtain ⟨wire, reading, applied⟩ :=
      readInstruction_of_resolvedEntry huffmanDecode mirrors followable resolved built
    obtain ⟨next, inserted, mirrorsNext⟩ := mirrors.insert fits longest
    refine ⟨next, Receiver.apply_maxCapacity (applied.trans inserted),
      by rw [returns]; exact mirrorsNext, fun rest => ?_⟩
    simp only [ManualQpackEncoder.output, returns, List.append_nil]
    rw [Receiver.receive_of_read huffmanDecode (reading rest), applied, inserted]
    rfl
  · refine ⟨receiver, rfl, ?_, fun rest => by simp [ManualQpackEncoder.output, returns]⟩
    rw [returns]
    exact ⟨mirrors.entries, mirrors.capacity, mirrors.insertCount, followable⟩

/-- Every run of calls the receiver follows keeps it in step. -/
theorem Mirrors.run {self : ManualQpackEncoder} {receiver : Receiver}
    (mirrors : Mirrors self receiver) {requests : List EncoderCall}
    (followable : ∀ request ∈ requests, request.Followable receiver.maxCapacity) :
    ∃ next, Mirrors (ManualQpackEncoder.run requests self) next ∧
      receiver.receive huffmanDecode (ManualQpackEncoder.output requests self) = .ok next := by
  induction requests generalizing self receiver with
  | nil => exact ⟨receiver, mirrors, Receiver.receive_nil huffmanDecode receiver⟩
  | cons request requests inductionHypothesis =>
      obtain ⟨next, sameMaximum, mirrorsNext, reads⟩ :=
        mirrors.call huffmanDecode (followable request (List.mem_cons_self _ _))
      obtain ⟨final, mirrorsFinal, readsRest⟩ := inductionHypothesis mirrorsNext
        fun request member => sameMaximum ▸ followable request (List.mem_cons_of_mem _ member)
      exact ⟨final, mirrorsFinal, by rw [ManualQpackEncoder.output_cons, reads, readsRest]⟩

end Receiving

/--
For every maximum `M` and every run of `ManualQpackEncoder(M)` made of
`set_capacity`, `insert_name_ref`, `duplicate`, `insert_literal` with names
shorter than 31 bytes, and reassignments of `max_table_capacity` to at most
`M`, a receiver that announced `M` reads the whole output without error and
ends with the tracker's entries, capacity and insert count.
-/
theorem receiver_tracks_encoder (huffmanDecode : Bytes → Option Bytes) (maxCapacity : Nat)
    (requests : List EncoderCall)
    (followable : ∀ request ∈ requests, request.Followable maxCapacity) :
    let table := (ManualQpackEncoder.run requests (.init maxCapacity)).table
    ∃ receiver,
      (Receiver.init maxCapacity).receive huffmanDecode
          (ManualQpackEncoder.output requests (.init maxCapacity)) = .ok receiver ∧
        receiver.entries = table.entries ∧ (receiver.capacity : Int) = table.capacity ∧
        receiver.insertCount = table.insertCount := by
  obtain ⟨receiver, mirrors, reads⟩ := (Mirrors.init maxCapacity).run huffmanDecode followable
  exact ⟨receiver, reads, mirrors.entries, mirrors.capacity, mirrors.insertCount⟩

/--
Five followable calls at maximum 100: a capacity, a literal, a lower maximum,
a reference to the literal's name and a duplicate.
-/
theorem receiver_tracks_encoder_on_five_calls :
    let requests := [EncoderCall.setCapacity 100, .insertLiteral [0x61] [0x62],
      .setMaxTableCapacity 50, .insertNameRef 0 [0x63] false, .duplicate 1]
    (∀ request ∈ requests, request.Followable 100) ∧
      let table := (ManualQpackEncoder.run requests (.init 100)).table
      ∃ receiver,
        (Receiver.init 100).receive (fun _ => none)
            (ManualQpackEncoder.output requests (.init 100)) = .ok receiver ∧
          receiver.entries = table.entries ∧ (receiver.capacity : Int) = table.capacity ∧
          receiver.insertCount = table.insertCount :=
  ⟨by decide, receiver_tracks_encoder (fun _ => none) 100 _ (by decide)⟩

/--
At maximum 63, `set_capacity(63)` and then `insert_literal(b"a" * 31, b"")`
leave the tracker holding the 63-byte entry.  The bytes sent are `3F 20`, then
`5F`, the name and `00`: the receiver reads `5F` as a 5-bit name length at its
maximum, takes the name's first byte as a continuation, asks for 128 name
bytes and finds the stream too short, whatever its Huffman decoder.
-/
theorem receiver_misreads_31_byte_name (huffmanDecode : Bytes → Option Bytes) :
    let requests := [EncoderCall.setCapacity 63, .insertLiteral (List.replicate 31 0x61) []]
    (ManualQpackEncoder.run requests (.init 63)).table =
        { entries := [⟨List.replicate 31 0x61, []⟩], capacity := 63, insertCount := 1 } ∧
      ManualQpackEncoder.output requests (.init 63) =
        [0x3F, 0x20, 0x5F] ++ List.replicate 31 0x61 ++ [0] ∧
      (Receiver.init 63).receive huffmanDecode (ManualQpackEncoder.output requests (.init 63)) =
        .error .unreadableInstruction := by
  intro requests
  have capacityBytes : setDynamicTableCapacity 63 = .ok [0x3F, 0x20] := by
    have encoded : encodeInteger ((63 : Nat) : Int) ((5 : Nat) : Int) = .ok [0x1F, 0x20] := by
      rw [encodeInteger_of_valid (by decide) (by decide), if_neg (by decide),
        encodeContinuation_of_lt (by decide)]
      rfl
    exact setDynamicTableCapacity_of_encoded encoded
  have setting : (ManualQpackEncoder.init 63).call (.setCapacity 63) =
      .returned [0x3F, 0x20] ⟨⟨[], 63, 0⟩, 63⟩ := by
    obtain ⟨instruction, built, returns⟩ :=
      (ManualQpackEncoder.init 63).call_setCapacity_of_allowed (show (0 : Int) ≤ 63 by decide)
        (by decide)
    obtain ⟨kept, resized, longest⟩ :=
      (ManualQpackEncoder.init 63).table.setCapacity_spec (show (0 : Int) ≤ 63 by decide)
    rw [capacityBytes, Except.ok.injEq] at built
    rw [returns, resized, ← built, List.prefix_nil.mp longest.leading]
    rfl
  have inserting : (⟨⟨[], 63, 0⟩, 63⟩ : ManualQpackEncoder).call
      (.insertLiteral (List.replicate 31 0x61) []) =
        .returned (0x5F :: List.replicate 31 0x61 ++ [0])
          ⟨⟨[⟨List.replicate 31 0x61, []⟩], 63, 1⟩, 63⟩ := by
    obtain ⟨instruction, kept, built, returns, longest⟩ :=
      (ManualQpackEncoder.call_of_resolvedEntry _ (show (⟨⟨[], 63, 0⟩, 63⟩ :
        ManualQpackEncoder).resolvedEntry (.insertLiteral (List.replicate 31 0x61) []) =
          some ⟨List.replicate 31 0x61, []⟩ from rfl)).1 (by decide)
    rw [show (EncoderCall.insertLiteral (List.replicate 31 0x61) []).instruction =
      .ok (0x5F :: List.replicate 31 0x61 ++ [0]) from rfl, Except.ok.injEq] at built
    rw [returns, ← built, List.prefix_nil.mp longest.leading]
  have sent : ManualQpackEncoder.output requests (.init 63) =
      [0x3F, 0x20, 0x5F] ++ List.replicate 31 0x61 ++ [0] := by
    simp only [requests, ManualQpackEncoder.output, setting, inserting, Outcome.state_returned,
      List.append_nil]
    rfl
  refine ⟨by simp only [requests, ManualQpackEncoder.run, setting, inserting,
    Outcome.state_returned], sent, ?_⟩
  rw [sent, show ([0x3F, 0x20, 0x5F] ++ List.replicate 31 0x61 ++ [0] : Bytes) =
      [0x3F, 0x20] ++ (0x5F :: List.replicate 31 0x61 ++ [0]) from rfl,
    Receiver.receive_of_read huffmanDecode
      (@readInstruction_setDynamicTableCapacity huffmanDecode 63 _ capacityBytes _)]
  exact Receiver.receive_of_unreadable huffmanDecode (List.cons_ne_nil _ _)
    (show readInstruction huffmanDecode (0x5F :: List.replicate 31 0x61 ++ [0]) = none from rfl) _

end ManualQpack
