import ManualQpack.Instruction
import ManualQpack.StaticTable
import ManualQpack.Tracker

namespace ManualQpack

/-!
# A reference receiver of the encoder stream

What the tracker is meant to mirror: a receiver built from the spec's wire
table (RFC 9204 §4.3) that keeps its own dynamic table by RFC 9204 §3.2, with
entries sized by §3.2.1 (`Receiver.entrySize`).  It
is not code of the repository but the statement of what the encoder is for;
`Refinement` compares the two.

The receiver tells instructions apart by the high bits of their first byte,
reads integers with the RFC 7541 §5.1 reader of `Integer`, and reads a string
as a Huffman bit just above a prefixed length, then the octets; a string whose
Huffman bit is set goes through the `huffmanDecode` it is given.  Its eviction
keeps the longest prefix of the entries, newest first, that fits
(`fittingPrefix_longest`).

The builders' instructions read back as what they encode
(`readInstruction_setDynamicTableCapacity` and its three siblings), the
literal-name one only for names shorter than 31 bytes.
-/

/-- An encoder-stream instruction as the receiver reads it. -/
inductive EncoderInstruction where
  | insertWithNameRef (isStatic : Bool) (index : Nat) (value : Bytes)
  | insertWithLiteralName (name value : Bytes)
  | setDynamicTableCapacity (capacity : Nat)
  | duplicate (index : Nat)
  deriving Repr, DecidableEq

/-- The encoder-stream errors the receiver stops at. -/
inductive ReceiverError where
  | unreadableInstruction
  | capacityAboveMaximum
  | entryTooLarge
  | unknownIndex
  deriving Repr, DecidableEq

/-! ## Reading the stream -/

section Reading

variable (huffmanDecode : Bytes → Option Bytes)

/-- A string: the Huffman bit just above a `prefixBits`-bit length, then that many octets. -/
def readString (prefixBits : Nat) : Bytes → Option (Bytes × Bytes)
  | [] => none
  | first :: rest =>
      match readPrefixedInteger prefixBits (first :: rest) with
      | none => none
      | some (length, remaining) =>
          if remaining.length < length then none
          else
            let octets := remaining.take length
            let string := if first.toNat.testBit prefixBits then huffmanDecode octets
              else some octets
            string.map fun string => (string, remaining.drop length)

/--
One instruction from the front of the stream, told apart by the high bits of
its first byte: `1Sxxxxxx`, `01Hxxxxx`, `001xxxxx` or `000xxxxx`.
-/
def readInstruction : Bytes → Option (EncoderInstruction × Bytes)
  | [] => none
  | first :: rest =>
      if first.toNat.testBit 7 then
        match readPrefixedInteger 6 (first :: rest) with
        | none => none
        | some (index, remaining) =>
            (readString huffmanDecode 7 remaining).map fun (value, remaining) =>
              (.insertWithNameRef (first.toNat.testBit 6) index value, remaining)
      else if first.toNat.testBit 6 then
        match readString huffmanDecode 5 (first :: rest) with
        | none => none
        | some (name, remaining) =>
            (readString huffmanDecode 7 remaining).map fun (value, remaining) =>
              (.insertWithLiteralName name value, remaining)
      else if first.toNat.testBit 5 then
        (readPrefixedInteger 5 (first :: rest)).map fun (capacity, remaining) =>
          (.setDynamicTableCapacity capacity, remaining)
      else
        (readPrefixedInteger 5 (first :: rest)).map fun (index, remaining) =>
          (.duplicate index, remaining)

/-- A prefixed integer is at least one byte long. -/
theorem readPrefixedInteger_shorter {prefixBits value : Nat} {input remaining : Bytes}
    (read : readPrefixedInteger prefixBits input = some (value, remaining)) :
    remaining.length < input.length := by
  obtain ⟨window, nonempty, rfl, -⟩ := readPrefixedInteger_window read
  have := List.length_pos.mpr nonempty
  simp only [List.length_append]
  omega

/-- Reading a string consumes input. -/
theorem readString_shorter {prefixBits : Nat} {input remaining string : Bytes}
    (read : readString huffmanDecode prefixBits input = some (string, remaining)) :
    remaining.length < input.length := by
  cases input with
  | nil => cases read
  | cons first rest =>
      simp only [readString] at read
      split at read
      · cases read
      · next length after reading =>
          split at read
          · cases read
          · obtain ⟨_, -, same⟩ := Option.map_eq_some'.mp read
            cases same
            have := readPrefixedInteger_shorter reading
            simp only [List.length_drop]
            omega

/-- Reading an instruction consumes input. -/
theorem readInstruction_shorter {input remaining : Bytes} {instruction : EncoderInstruction}
    (read : readInstruction huffmanDecode input = some (instruction, remaining)) :
    remaining.length < input.length := by
  cases input with
  | nil => cases read
  | cons first rest =>
      simp only [readInstruction] at read
      split at read
      · split at read
        · cases read
        · next reading =>
            obtain ⟨_, value, same⟩ := Option.map_eq_some'.mp read
            cases same
            exact (readString_shorter huffmanDecode value).trans
              (readPrefixedInteger_shorter reading)
      split at read
      · split at read
        · cases read
        · next reading =>
            obtain ⟨_, value, same⟩ := Option.map_eq_some'.mp read
            cases same
            exact (readString_shorter huffmanDecode value).trans
              (readString_shorter huffmanDecode reading)
      split at read <;>
      · obtain ⟨_, reading, same⟩ := Option.map_eq_some'.mp read
        cases same
        exact readPrefixedInteger_shorter reading

end Reading

/-! ## The receiver's table -/

/-- The receiver's dynamic table, newest entry first, under the maximum capacity it announced. -/
structure Receiver where
  maxCapacity : Nat
  entries : List DynamicTableEntry
  capacity : Nat
  insertCount : Nat
  deriving Repr, DecidableEq

/-- An entry's size as RFC 9204 §3.2.1 defines it: its name and value lengths, plus 32. -/
def Receiver.entrySize (entry : DynamicTableEntry) : Nat :=
  entry.name.length + entry.value.length + 32

/-- The tracker's `DynamicTableEntry.size`, with its `ENTRY_OVERHEAD`, is the RFC's entry size. -/
theorem DynamicTableEntry.size_eq_entrySize (entry : DynamicTableEntry) :
    entry.size = Receiver.entrySize entry := rfl

/--
The entries that survive eviction down to `budget`: the newest entries whose
sizes add up to at most `budget`, the oldest evicted first (RFC 9204 §3.2.2).
-/
def fittingPrefix (budget : Nat) : List DynamicTableEntry → List DynamicTableEntry
  | [] => []
  | entry :: entries =>
      if Receiver.entrySize entry ≤ budget then
        entry :: fittingPrefix (budget - Receiver.entrySize entry) entries
      else []

namespace Receiver

/-- A receiver that announced `maxCapacity`: an empty table of capacity 0. -/
def init (maxCapacity : Nat) : Receiver where
  maxCapacity := maxCapacity
  entries := []
  capacity := 0
  insertCount := 0

/-- An insertion: refused above the capacity, else evict until the entry fits, then prepend it. -/
def insert (self : Receiver) (entry : DynamicTableEntry) : Except ReceiverError Receiver :=
  if entrySize entry > self.capacity then .error .entryTooLarge
  else
    .ok { self with
      entries := entry :: fittingPrefix (self.capacity - entrySize entry) self.entries
      insertCount := self.insertCount + 1 }

/--
What one instruction does to the table (RFC 9204 §4.3): names and duplicated
entries are resolved by relative index, 0 the newest, before any eviction.
-/
def apply (self : Receiver) : EncoderInstruction → Except ReceiverError Receiver
  | .setDynamicTableCapacity capacity =>
      if capacity > self.maxCapacity then .error .capacityAboveMaximum
      else .ok { self with capacity, entries := fittingPrefix capacity self.entries }
  | .insertWithNameRef true index value =>
      match staticTable[index]? with
      | none => .error .unknownIndex
      | some name => self.insert ⟨name, value⟩
  | .insertWithNameRef false index value =>
      match self.entries[index]? with
      | none => .error .unknownIndex
      | some entry => self.insert ⟨entry.name, value⟩
  | .insertWithLiteralName name value => self.insert ⟨name, value⟩
  | .duplicate index =>
      match self.entries[index]? with
      | none => .error .unknownIndex
      | some entry => self.insert entry

/-- No instruction changes the maximum the receiver announced. -/
theorem apply_maxCapacity {self next : Receiver} {instruction : EncoderInstruction}
    (applied : self.apply instruction = .ok next) : next.maxCapacity = self.maxCapacity := by
  have inserting : ∀ {entry : DynamicTableEntry}, self.insert entry = .ok next →
      next.maxCapacity = self.maxCapacity := fun inserted => by
    unfold insert at inserted
    split at inserted
    · cases inserted
    · cases inserted
      rfl
  cases instruction with
  | setDynamicTableCapacity capacity =>
      simp only [apply] at applied
      split at applied
      · cases applied
      · cases applied
        rfl
  | insertWithNameRef isStatic index value =>
      cases isStatic <;> simp only [apply] at applied <;> split at applied
      all_goals first | cases applied | exact inserting applied
  | insertWithLiteralName => exact inserting applied
  | duplicate index =>
      simp only [apply] at applied
      split at applied
      · cases applied
      · exact inserting applied

section Receiving

variable (huffmanDecode : Bytes → Option Bytes)

/-- The receiver reading a stream to its end, applying each instruction as it is read. -/
def receive (self : Receiver) (bytes : Bytes) : Except ReceiverError Receiver :=
  if bytes = [] then .ok self
  else
    match _reading : readInstruction huffmanDecode bytes with
    | none => .error .unreadableInstruction
    | some (instruction, rest) =>
        match self.apply instruction with
        | .error error => .error error
        | .ok next => next.receive rest
termination_by bytes.length
decreasing_by exact readInstruction_shorter huffmanDecode _reading

/-- At the end of the stream the receiver stops as it is. -/
@[simp] theorem receive_nil (self : Receiver) : self.receive huffmanDecode [] = .ok self := by
  rw [receive, if_pos rfl]

/-- An instruction read from the front is applied, and the receiver reads on. -/
theorem receive_of_read {bytes rest : Bytes} {instruction : EncoderInstruction}
    (reading : readInstruction huffmanDecode bytes = some (instruction, rest)) (self : Receiver) :
    self.receive huffmanDecode bytes =
      (self.apply instruction).bind fun next => next.receive huffmanDecode rest := by
  rw [receive, if_neg (by rintro rfl; cases reading)]
  split
  · next unread => rw [reading] at unread; cases unread
  · next read =>
      rw [reading, Option.some.injEq, Prod.mk.injEq] at read
      obtain ⟨rfl, rfl⟩ := read
      cases self.apply instruction <;> rfl

/-- A stream whose front reads as no instruction is refused. -/
theorem receive_of_unreadable {bytes : Bytes} (nonempty : bytes ≠ [])
    (unreadable : readInstruction huffmanDecode bytes = none) (self : Receiver) :
    self.receive huffmanDecode bytes = .error .unreadableInstruction := by
  rw [receive, if_neg nonempty]
  split
  · rfl
  · next read => rw [unreadable] at read; cases read

end Receiving

end Receiver

/-! ## What the builders write reads back -/

/-- The bits of a byte at or above a value's width are those of what is ORed into it. -/
theorem testBit_or_of_lt {value : UInt8} {width bit : Nat} (fits : value.toNat < 2 ^ width)
    (above : width ≤ bit) (flags : UInt8) :
    (value ||| flags).toNat.testBit bit = flags.toNat.testBit bit := by
  rw [toNat_or, Nat.testBit_or, Nat.testBit_eq_false_of_lt
    (lt_of_lt_of_le fits (Nat.pow_le_pow_right (by decide) above)), Bool.false_or]

section ReadingBack

variable (huffmanDecode : Bytes → Option Bytes)

/--
A string written as its length's encoding, with flag bits ORed in above the
Huffman bit, and then its octets, reads back, whatever follows it.
-/
theorem readString_of_encoded {prefixBits : Nat} (low : 1 ≤ prefixBits) (high : prefixBits < 8)
    {string : Bytes} {first : UInt8} {tail : Bytes}
    (encoded : encodeInteger string.length prefixBits = .ok (first :: tail))
    {flags : UInt8} (clear : flags.toNat &&& (2 ^ (prefixBits + 1) - 1) = 0) (rest : Bytes) :
    readString huffmanDecode prefixBits ((first ||| flags) :: tail ++ string ++ rest) =
      some (string, rest) := by
  have prefixClear : flags.toNat &&& (2 ^ prefixBits - 1) = 0 := by
    rw [Nat.and_pow_two_sub_one_eq_mod] at clear ⊢
    exact Nat.mod_eq_zero_of_dvd ((Nat.pow_dvd_pow 2 (Nat.le_succ _)).trans
      (Nat.dvd_of_mod_eq_zero clear))
  have huffmanClear : flags.toNat.testBit prefixBits = false := by
    simpa [Nat.testBit_and, Nat.testBit_two_pow_sub_one] using
      congrArg (Nat.testBit · prefixBits) clear
  obtain ⟨fits, read⟩ :=
    readPrefixedInteger_encodeInteger low high.le encoded prefixClear (string ++ rest)
  simp only [List.cons_append, List.append_assoc] at read ⊢
  simp [readString, read, testBit_or_of_lt fits le_rfl, huffmanClear]

/-- The capacity instruction reads back as itself, whatever follows it. -/
theorem readInstruction_setDynamicTableCapacity {capacity : Nat} {out : Bytes}
    (built : setDynamicTableCapacity capacity = .ok out) (rest : Bytes) :
    readInstruction huffmanDecode (out ++ rest) = some (.setDynamicTableCapacity capacity, rest) := by
  obtain ⟨first, tail, encoded⟩ := @encodeInteger_ok capacity 5 (by decide) (by decide)
  simp only [Nat.cast_ofNat] at encoded
  rw [setDynamicTableCapacity_of_encoded encoded, Except.ok.injEq] at built
  subst built
  obtain ⟨fits, read⟩ := readPrefixedInteger_encodeInteger (by decide) (by decide) encoded
    (show (0x20 : UInt8).toNat &&& (2 ^ 5 - 1) = 0 by decide) rest
  simp only [List.cons_append] at read ⊢
  simp +decide [readInstruction, testBit_or_of_lt fits, read]

/-- The duplicate instruction reads back as itself, whatever follows it. -/
theorem readInstruction_duplicate {index : Nat} {out : Bytes}
    (built : duplicate index = .ok out) (rest : Bytes) :
    readInstruction huffmanDecode (out ++ rest) = some (.duplicate index, rest) := by
  obtain ⟨first, tail, encoded⟩ := @encodeInteger_ok index 5 (by decide) (by decide)
  simp only [Nat.cast_ofNat] at encoded
  rw [duplicate_of_nonnegative, encoded, Except.ok.injEq] at built
  subst built
  obtain ⟨fits, read⟩ := readPrefixedInteger_encodeInteger (by decide) (by decide) encoded
    (show (0 : UInt8).toNat &&& (2 ^ 5 - 1) = 0 by decide) rest
  rw [or_zero_byte] at read
  have opcodeClear : ∀ bit, 5 ≤ bit → first.toNat.testBit bit = false := fun _ above =>
    Nat.testBit_eq_false_of_lt (lt_of_lt_of_le fits (Nat.pow_le_pow_right (by decide) above))
  simp only [List.cons_append] at read ⊢
  simp [readInstruction, opcodeClear, read]

/-- The name-reference instruction reads back as itself, whatever follows it. -/
theorem readInstruction_insertWithNameRef {index : Nat} {value : Bytes} {isStatic : Bool}
    {out : Bytes} (built : insertWithNameRef index value isStatic = .ok out) (rest : Bytes) :
    readInstruction huffmanDecode (out ++ rest) =
      some (.insertWithNameRef isStatic index value, rest) := by
  obtain ⟨first, tail, encoded⟩ := @encodeInteger_ok index 6 (by decide) (by decide)
  simp only [Nat.cast_ofNat] at encoded
  obtain ⟨valueFirst, valueTail, valueEncoded, -, builds⟩ :=
    @insertWithNameRef_of_encoded index value isStatic first tail encoded
  rw [builds, Except.ok.injEq] at built
  subst built
  have valueRead := readString_of_encoded huffmanDecode (by decide) (by decide) valueEncoded
    (show (0 : UInt8).toNat &&& (2 ^ (7 + 1) - 1) = 0 by decide) rest
  rw [or_zero_byte] at valueRead
  obtain ⟨fits, read⟩ := readPrefixedInteger_encodeInteger (by decide) (by decide) encoded
    (show (if isStatic then (0xC0 : UInt8) else 0x80).toNat &&& (2 ^ 6 - 1) = 0 by
      cases isStatic <;> decide) (valueFirst :: valueTail ++ value ++ rest)
  simp only [List.cons_append, List.append_assoc] at read valueRead ⊢
  cases isStatic <;> simp only [Bool.false_eq_true, ite_true, ite_false] at read ⊢ <;>
    simp +decide [readInstruction, testBit_or_of_lt fits, read, valueRead]

/--
A literal-name instruction whose name is shorter than 31 bytes reads back as
itself, whatever follows it.
-/
theorem readInstruction_insertWithLiteralName {name value out : Bytes} (short : name.length < 31)
    (built : insertWithLiteralName name value = .ok out) (rest : Bytes) :
    readInstruction huffmanDecode (out ++ rest) =
      some (.insertWithLiteralName name value, rest) := by
  obtain ⟨nameFirst, nameTail, valueFirst, valueTail, nameEncoded, valueEncoded, -, builds⟩ :=
    insertWithLiteralName_eq name value
  rw [builds, Except.ok.injEq] at built
  subst built
  have sevenBits := @encodeInteger_of_valid name.length 7 (by decide) (by decide)
  have fiveBits := @encodeInteger_of_valid name.length 5 (by decide) (by decide)
  simp only [Nat.cast_ofNat, Nat.reducePow, Nat.reduceSub,
    show name.length < 127 by omega, short, ite_true] at sevenBits fiveBits
  have nameFiveBits : encodeInteger name.length 5 = .ok (nameFirst :: nameTail) :=
    fiveBits.trans (sevenBits.symm.trans nameEncoded)
  have nameFits := (readPrefixedInteger_encodeInteger (by decide) (by decide) nameFiveBits
    (show (0x40 : UInt8).toNat &&& (2 ^ 5 - 1) = 0 by decide) []).1
  have nameRead := readString_of_encoded huffmanDecode (by decide) (by decide) nameFiveBits
    (show (0x40 : UInt8).toNat &&& (2 ^ (5 + 1) - 1) = 0 by decide)
    (valueFirst :: valueTail ++ value ++ rest)
  have valueRead := readString_of_encoded huffmanDecode (by decide) (by decide) valueEncoded
    (show (0 : UInt8).toNat &&& (2 ^ (7 + 1) - 1) = 0 by decide) rest
  rw [or_zero_byte] at valueRead
  simp only [List.cons_append, List.append_assoc] at nameRead valueRead ⊢
  simp +decide [readInstruction, testBit_or_of_lt nameFits, nameRead, valueRead]

/--
Every instruction the builders emit is read back by the wire-table reader as
the instruction it encodes, whatever follows it: capacities, duplicates and
name references always, literal names when shorter than 31 bytes.
-/
theorem builders_read_back (capacity index : Nat) (value name : Bytes) (isStatic : Bool)
    (rest : Bytes) :
    (∃ out, setDynamicTableCapacity capacity = .ok out ∧
      readInstruction huffmanDecode (out ++ rest) =
        some (.setDynamicTableCapacity capacity, rest)) ∧
    (∃ out, duplicate index = .ok out ∧
      readInstruction huffmanDecode (out ++ rest) = some (.duplicate index, rest)) ∧
    (∃ out, insertWithNameRef index value isStatic = .ok out ∧
      readInstruction huffmanDecode (out ++ rest) =
        some (.insertWithNameRef isStatic index value, rest)) ∧
    (name.length < 31 → ∃ out, insertWithLiteralName name value = .ok out ∧
      readInstruction huffmanDecode (out ++ rest) =
        some (.insertWithLiteralName name value, rest)) := by
  obtain ⟨capacityOut, capacityBuilt, -⟩ := setDynamicTableCapacity_reads_back capacity []
  obtain ⟨duplicateOut, duplicateBuilt, -⟩ := duplicate_reads_back index []
  obtain ⟨nameRefOut, nameRefBuilt, -⟩ := insertWithNameRef_reads_back index value isStatic []
  obtain ⟨_, _, _, _, -, -, -, literalBuilt⟩ := insertWithLiteralName_eq name value
  exact ⟨⟨_, capacityBuilt, readInstruction_setDynamicTableCapacity huffmanDecode capacityBuilt rest⟩,
    ⟨_, duplicateBuilt, readInstruction_duplicate huffmanDecode duplicateBuilt rest⟩,
    ⟨_, nameRefBuilt, readInstruction_insertWithNameRef huffmanDecode nameRefBuilt rest⟩,
    fun short => ⟨_, literalBuilt,
      readInstruction_insertWithLiteralName huffmanDecode short literalBuilt rest⟩⟩

/--
The name `a` is shorter than 31 bytes, so `insert_with_literal_name(b"a", b"b")`
reads back as itself, here under a receiver that decodes no Huffman string.
-/
theorem builders_read_back_on_name_a :
    ([0x61] : Bytes).length < 31 ∧
      ∃ out, insertWithLiteralName [0x61] [0x62] = .ok out ∧
        readInstruction (fun _ => none) (out ++ []) =
          some (.insertWithLiteralName [0x61] [0x62], []) :=
  ⟨by decide, (builders_read_back (fun _ => none) 0 0 [0x62] [0x61] true []).2.2.2 (by decide)⟩

end ReadingBack

/-! ## Eviction keeps the longest fitting prefix -/

/-- `fittingPrefix` is the longest prefix of the entries that fits the budget. -/
theorem fittingPrefix_longest (budget : Nat) (entries : List DynamicTableEntry) :
    LongestPrefixWithin budget entries (fittingPrefix budget entries) := by
  induction entries generalizing budget with
  | nil =>
      exact ⟨List.prefix_refl _, Int.natCast_nonneg budget,
        fun other leading _ => by simp [List.prefix_nil.mp leading]⟩
  | cons entry entries inductionHypothesis =>
      have sized := entry.size_eq_entrySize
      by_cases fits : Receiver.entrySize entry ≤ budget
      · have rest := inductionHypothesis (budget - Receiver.entrySize entry)
        have restFits := rest.fits
        rw [fittingPrefix, if_pos fits]
        refine ⟨List.cons_prefix_cons.mpr ⟨rfl, rest.leading⟩,
          by simp only [totalSize_cons]; omega, fun other leading otherFits => ?_⟩
        rcases List.prefix_cons_iff.mp leading with rfl | ⟨tail, rfl, tailLeading⟩
        · simp
        · simp only [totalSize_cons] at otherFits
          have := rest.maximal tail tailLeading (by omega)
          simp only [List.length_cons]
          omega
      · rw [fittingPrefix, if_neg fits]
        refine ⟨List.nil_prefix, Int.natCast_nonneg budget, fun other leading otherFits => ?_⟩
        rcases List.prefix_cons_iff.mp leading with rfl | ⟨tail, rfl, -⟩
        · simp
        · simp only [totalSize_cons] at otherFits
          omega

end ManualQpack
