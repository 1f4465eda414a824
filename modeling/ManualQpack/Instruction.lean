import ManualQpack.Integer

namespace ManualQpack

/-!
# Encoder-stream instructions (RFC 9204 §4.3)

`encode_string` and the four instruction builders.  Each builder writes its
integer with `encode_integer` and ORs its opcode bits into the first byte.

Name-reference, capacity and duplicate instructions read back as the spec's
wire table says.  The literal-name builder writes the name length with
`encode_string`'s 7-bit prefix and then ORs in `0x40`, where the table asks
for a 5-bit prefix below the name's Huffman flag.  The two agree only for
names shorter than 31 bytes: at 31 the first byte is the 5-bit marker of a
longer integer, and from 32 on the Huffman bit is set.
-/

/-- `encode_string(value, use_huffman)`: a 7-bit-prefixed length, then the octets. -/
def encodeString (value : Bytes) (useHuffman : Bool := false) : Except PyError Bytes :=
  if useHuffman then
    .error (.notImplementedError "Huffman encoding not yet supported")
  else do
    let lengthBytes ← encodeInteger value.length 7
    return lengthBytes ++ value

/-- `buf[0] |= mask` on a `bytearray`. -/
def orFirstByte (mask : UInt8) : Bytes → Except PyError Bytes
  | [] => .error (.indexError "bytearray index out of range")
  | first :: rest => .ok ((first ||| mask) :: rest)

/-- `set_dynamic_table_capacity(capacity)`: `001` and a 5-bit-prefixed capacity. -/
def setDynamicTableCapacity (capacity : Int) : Except PyError Bytes :=
  if capacity < 0 then
    .error (.valueError s!"capacity must be non-negative, got {capacity}")
  else do
    let intBytes ← encodeInteger capacity 5
    orFirstByte 0x20 intBytes

/--
`insert_with_name_ref(index, value, is_static)`: `1`, the table bit, a
6-bit-prefixed index, then the value string.
-/
def insertWithNameRef (index : Int) (value : Bytes) (isStatic : Bool) :
    Except PyError Bytes :=
  if index < 0 then
    .error (.valueError s!"index must be non-negative, got {index}")
  else do
    let intBytes ← encodeInteger index 6
    let buf ← orFirstByte 0x80 intBytes
    let buf ← if isStatic then orFirstByte 0x40 buf else pure buf
    let valueBytes ← encodeString value
    return buf ++ valueBytes

/--
`insert_with_literal_name(name, value)`: the name string with `0x40` ORed into
its first byte, then the value string.
-/
def insertWithLiteralName (name value : Bytes) : Except PyError Bytes := do
  let nameStr ← encodeString name
  let buf ← orFirstByte 0x40 nameStr
  let valueBytes ← encodeString value
  return buf ++ valueBytes

/-- `duplicate(index)`: `000` and a 5-bit-prefixed relative index. -/
def duplicate (index : Int) : Except PyError Bytes :=
  if index < 0 then
    .error (.valueError s!"index must be non-negative, got {index}")
  else
    encodeInteger index 5

/-! ## What each builder emits -/

/-- The string of `value`: its length's encoding with the Huffman bit clear, then the octets. -/
theorem encodeString_ok (value : Bytes) :
    ∃ first tail, encodeInteger value.length 7 = .ok (first :: tail) ∧
      first.toNat < 128 ∧ encodeString value = .ok (first :: tail ++ value) := by
  obtain ⟨first, tail, encoded⟩ := @encodeInteger_ok value.length 7 (by decide) (by decide)
  simp only [Nat.cast_ofNat] at encoded
  have fits := (readPrefixedInteger_encodeInteger (by decide) (by decide) encoded
    (show (0 : UInt8).toNat &&& (2 ^ 7 - 1) = 0 by decide) []).1
  refine ⟨first, tail, encoded, fits, ?_⟩
  simp only [encodeString, Bool.false_eq_true, ite_false, encoded]
  rfl

/-- The capacity instruction is the capacity's encoding with `0x20` ORed into its first byte. -/
theorem setDynamicTableCapacity_of_encoded {capacity : Nat} {first : UInt8} {tail : Bytes}
    (encoded : encodeInteger capacity 5 = .ok (first :: tail)) :
    setDynamicTableCapacity capacity = .ok ((first ||| 0x20) :: tail) := by
  have nonnegative : ¬ (capacity : Int) < 0 := by omega
  simp only [setDynamicTableCapacity, nonnegative, ite_false, encoded]
  rfl

/-- The duplicate instruction is the index's encoding as it is. -/
theorem duplicate_of_nonnegative {index : Nat} :
    duplicate index = encodeInteger index 5 := by
  have nonnegative : ¬ (index : Int) < 0 := by omega
  simp only [duplicate, nonnegative, ite_false]

/--
The name-reference instruction is the index's encoding with `0x80`, and `0x40`
for the static table, ORed into its first byte, then the value string.
-/
theorem insertWithNameRef_of_encoded {index : Nat} {value : Bytes} {isStatic : Bool}
    {first : UInt8} {tail : Bytes}
    (encoded : encodeInteger index 6 = .ok (first :: tail)) :
    ∃ valueFirst valueTail,
      encodeInteger value.length 7 = .ok (valueFirst :: valueTail) ∧
      valueFirst.toNat < 128 ∧
      insertWithNameRef index value isStatic =
        .ok ((first ||| (if isStatic then 0xC0 else 0x80)) :: tail ++
          valueFirst :: valueTail ++ value) := by
  obtain ⟨valueFirst, valueTail, valueEncoded, valueFits, stringBytes⟩ := encodeString_ok value
  refine ⟨valueFirst, valueTail, valueEncoded, valueFits, ?_⟩
  have nonnegative : ¬ (index : Int) < 0 := by omega
  have bothBits : first ||| 0x80 ||| 0x40 = first ||| 0xC0 :=
    UInt8.toNat.inj (by simp only [toNat_or, Nat.or_assoc]; rfl)
  cases isStatic <;>
    simp [insertWithNameRef, nonnegative, encoded, stringBytes, orFirstByte, bothBits,
      bind, Except.bind, pure, Except.pure]

/--
The literal-name instruction is the name string with `0x40` ORed into its
first byte, then the value string.
-/
theorem insertWithLiteralName_eq (name value : Bytes) :
    ∃ nameFirst nameTail valueFirst valueTail,
      encodeInteger name.length 7 = .ok (nameFirst :: nameTail) ∧
      encodeInteger value.length 7 = .ok (valueFirst :: valueTail) ∧
      valueFirst.toNat < 128 ∧
      insertWithLiteralName name value =
        .ok ((nameFirst ||| 0x40) :: nameTail ++ name ++ valueFirst :: valueTail ++ value) := by
  obtain ⟨nameFirst, nameTail, nameEncoded, -, nameBytes⟩ := encodeString_ok name
  obtain ⟨valueFirst, valueTail, valueEncoded, valueFits, valueBytes⟩ := encodeString_ok value
  refine ⟨nameFirst, nameTail, valueFirst, valueTail, nameEncoded, valueEncoded, valueFits, ?_⟩
  simp [insertWithLiteralName, nameBytes, valueBytes, orFirstByte, bind, Except.bind, pure,
    Except.pure]

/-! ## Reading the instructions back -/

/--
The capacity instruction starts `001`, and its 5-bit-prefixed integer reads
back the capacity and ends the instruction, whatever follows.
-/
theorem setDynamicTableCapacity_reads_back (capacity : Nat) (rest : Bytes) :
    ∃ out, setDynamicTableCapacity capacity = .ok out ∧
      (∃ first, getItem (out ++ rest) 0 = .ok first ∧ first >>> 5 = 1) ∧
      decodeInteger (out ++ rest) 0 5 = .ok (capacity, out.length) := by
  obtain ⟨first, tail, encoded⟩ := @encodeInteger_ok capacity 5 (by decide) (by decide)
  simp only [Nat.cast_ofNat] at encoded
  have clear : (0x20 : UInt8).toNat &&& (2 ^ 5 - 1) = 0 := by decide
  have fits := (readPrefixedInteger_encodeInteger (by decide) (by decide) encoded clear []).1
  refine ⟨_, setDynamicTableCapacity_of_encoded encoded,
    ⟨_, getItem_append_cons [] _ _, ?_⟩, ?_⟩
  · rw [toNat_or, show (0x20 : UInt8).toNat = 2 ^ 5 from rfl, or_two_pow_of_lt fits,
      Nat.shiftRight_eq_div_pow]
    simp only [Nat.reducePow] at fits ⊢
    omega
  · simpa using decodeInteger_of_encodeInteger (by decide) (by decide) encoded clear [] rest

/--
The duplicate instruction starts `000`, and its 5-bit-prefixed integer reads
back the index and ends the instruction, whatever follows.
-/
theorem duplicate_reads_back (index : Nat) (rest : Bytes) :
    ∃ out, duplicate index = .ok out ∧
      (∃ first, getItem (out ++ rest) 0 = .ok first ∧ first >>> 5 = 0) ∧
      decodeInteger (out ++ rest) 0 5 = .ok (index, out.length) := by
  obtain ⟨first, tail, encoded⟩ := @encodeInteger_ok index 5 (by decide) (by decide)
  simp only [Nat.cast_ofNat] at encoded
  have clear : (0 : UInt8).toNat &&& (2 ^ 5 - 1) = 0 := by decide
  have fits := (readPrefixedInteger_encodeInteger (by decide) (by decide) encoded clear []).1
  refine ⟨_, duplicate_of_nonnegative.trans encoded, ⟨_, getItem_append_cons [] _ _, ?_⟩, ?_⟩
  · rw [Nat.shiftRight_eq_div_pow]
    simp only [Nat.reducePow] at fits ⊢
    omega
  · simpa using decodeInteger_of_encodeInteger (by decide) (by decide) encoded clear [] rest

/--
The name-reference instruction has `0x80` set and `0x40` set for the static
table; its 6-bit-prefixed index reads back, then a value string whose Huffman
bit is clear, whose length reads back, and whose octets end the instruction.
-/
theorem insertWithNameRef_reads_back (index : Nat) (value : Bytes) (isStatic : Bool)
    (rest : Bytes) :
    ∃ out, insertWithNameRef index value isStatic = .ok out ∧
      ∃ first indexLength lengthLength, getItem (out ++ rest) 0 = .ok first ∧
        first &&& 0x80 ≠ 0 ∧ (first &&& 0x40 ≠ 0 ↔ isStatic = true) ∧
        decodeInteger (out ++ rest) 0 6 = .ok (index, indexLength) ∧
        (∃ flagByte, getItem (out ++ rest) indexLength = .ok flagByte ∧
          flagByte &&& 0x80 = 0) ∧
        decodeInteger (out ++ rest) indexLength 7 = .ok (value.length, lengthLength) ∧
        ((out ++ rest).drop (indexLength + lengthLength)).take value.length = value ∧
        indexLength + lengthLength + value.length = out.length := by
  obtain ⟨first, tail, encoded⟩ := @encodeInteger_ok index 6 (by decide) (by decide)
  simp only [Nat.cast_ofNat] at encoded
  obtain ⟨valueFirst, valueTail, valueEncoded, valueFits, built⟩ :=
    @insertWithNameRef_of_encoded index value isStatic first tail encoded
  obtain ⟨opcode, opcodeIs⟩ : ∃ opcode : UInt8,
      opcode = if isStatic then 0xC0 else 0x80 := ⟨_, rfl⟩
  rw [← opcodeIs] at built
  have opcodeValue : opcode.toNat = 64 * (if isStatic then 3 else 2) := by
    cases isStatic <;> simp [opcodeIs]
  have clear : opcode.toNat &&& (2 ^ 6 - 1) = 0 := by
    cases isStatic <;> simp [opcodeIs] <;> decide
  have fits := (readPrefixedInteger_encodeInteger (by decide) (by decide) encoded clear []).1
  have firstValue : (first ||| opcode).toNat = 64 * (if isStatic then 3 else 2) + first.toNat := by
    rw [toNat_or, opcodeValue, Nat.or_comm, ← Nat.mul_add_lt_is_or fits]
  simp only [Nat.reducePow] at fits
  have skipped : tail.length + 1 + (valueTail.length + 1) =
      ((first ||| opcode) :: tail ++ valueFirst :: valueTail).length := by
    simp only [List.length_append, List.length_cons]
  refine ⟨_, built, _, tail.length + 1, valueTail.length + 1,
    getItem_append_cons [] _ _, ?_, ?_, ?_, ?_, ?_, ?_, by simp; omega⟩
  · rw [firstValue, show (0x80 : Nat) = 2 ^ 7 from rfl, Ne, and_two_pow_eq_zero_iff]
    cases isStatic <;> simp <;> omega
  · rw [firstValue, show (0x40 : Nat) = 2 ^ 6 from rfl, Ne, and_two_pow_eq_zero_iff]
    cases isStatic <;> simp <;> omega
  · simpa using decodeInteger_of_encodeInteger (by decide) (by decide) encoded clear []
      (valueFirst :: valueTail ++ value ++ rest)
  · refine ⟨valueFirst.toNat, ?_, (and_0x80_eq_zero_iff (by omega)).mpr valueFits⟩
    simpa using getItem_append_cons ((first ||| opcode) :: tail)
      (valueTail ++ value ++ rest) valueFirst
  · simpa using decodeInteger_of_encodeInteger (by decide) (by decide) valueEncoded
      (show (0 : UInt8).toNat &&& (2 ^ 7 - 1) = 0 by decide)
      ((first ||| opcode) :: tail) (value ++ rest)
  · have splitAt : (first ||| opcode) :: tail ++ valueFirst :: valueTail ++ value ++ rest =
        ((first ||| opcode) :: tail ++ valueFirst :: valueTail) ++ (value ++ rest) := by
      simp
    rw [skipped, splitAt, List.drop_left, List.take_left]

/--
Capacity, duplicate and name-reference instructions read back as the spec's
wire table says, at every non-negative capacity and index and whatever bytes
follow them.
-/
theorem instructions_read_back (capacity index : Nat) (value : Bytes) (isStatic : Bool)
    (rest : Bytes) :
    (∃ out, setDynamicTableCapacity capacity = .ok out ∧
      (∃ first, getItem (out ++ rest) 0 = .ok first ∧ first >>> 5 = 1) ∧
      decodeInteger (out ++ rest) 0 5 = .ok (capacity, out.length)) ∧
    (∃ out, duplicate index = .ok out ∧
      (∃ first, getItem (out ++ rest) 0 = .ok first ∧ first >>> 5 = 0) ∧
      decodeInteger (out ++ rest) 0 5 = .ok (index, out.length)) ∧
    (∃ out, insertWithNameRef index value isStatic = .ok out ∧
      ∃ first indexLength lengthLength, getItem (out ++ rest) 0 = .ok first ∧
        first &&& 0x80 ≠ 0 ∧ (first &&& 0x40 ≠ 0 ↔ isStatic = true) ∧
        decodeInteger (out ++ rest) 0 6 = .ok (index, indexLength) ∧
        (∃ flagByte, getItem (out ++ rest) indexLength = .ok flagByte ∧
          flagByte &&& 0x80 = 0) ∧
        decodeInteger (out ++ rest) indexLength 7 = .ok (value.length, lengthLength) ∧
        ((out ++ rest).drop (indexLength + lengthLength)).take value.length = value ∧
        indexLength + lengthLength + value.length = out.length) :=
  ⟨setDynamicTableCapacity_reads_back capacity rest, duplicate_reads_back index rest,
    insertWithNameRef_reads_back index value isStatic rest⟩

/--
A name shorter than 31 bytes: its length fits the 5-bit prefix, so the
literal-name instruction starts `01` with the Huffman bit clear, its name
length reads back from one byte, and the name and value strings follow.
-/
theorem insertWithLiteralName_reads_back_of_short (name value rest : Bytes)
    (short : name.length < 31) :
    ∃ out, insertWithLiteralName name value = .ok out ∧
      ∃ first lengthLength, getItem (out ++ rest) 0 = .ok first ∧
        first >>> 6 = 1 ∧ first &&& 0x20 = 0 ∧
        decodeInteger (out ++ rest) 0 5 = .ok (name.length, 1) ∧
        ((out ++ rest).drop 1).take name.length = name ∧
        (∃ flagByte, getItem (out ++ rest) (name.length + 1) = .ok flagByte ∧
          flagByte &&& 0x80 = 0) ∧
        decodeInteger (out ++ rest) (name.length + 1) 7 = .ok (value.length, lengthLength) ∧
        ((out ++ rest).drop (name.length + 1 + lengthLength)).take value.length = value ∧
        name.length + 1 + lengthLength + value.length = out.length := by
  obtain ⟨nameFirst, nameTail, valueFirst, valueTail, nameEncoded, valueEncoded, valueFits,
    built⟩ := insertWithLiteralName_eq name value
  have sevenBits := @encodeInteger_of_valid name.length 7 (by decide) (by decide)
  have fiveBits := @encodeInteger_of_valid name.length 5 (by decide) (by decide)
  simp only [Nat.cast_ofNat, Nat.reducePow, Nat.reduceSub,
    show name.length < 127 by omega, show name.length < 31 from short, ite_true] at sevenBits fiveBits
  rw [sevenBits, Except.ok.injEq, List.cons.injEq, eq_comm, eq_comm (a := [])] at nameEncoded
  obtain ⟨rfl, rfl⟩ := nameEncoded
  have stored := toNat_ofNat_byte (show name.length < 256 by omega)
  have opcodeClear : (0x40 : UInt8).toNat &&& (2 ^ 5 - 1) = 0 := by decide
  have firstValue : (UInt8.ofNat name.length ||| 0x40).toNat = name.length + 64 := by
    rw [toNat_or, stored, show (0x40 : UInt8).toNat = 2 ^ 6 from rfl, or_two_pow_of_lt (by omega)]
    rfl
  refine ⟨_, built, _, valueTail.length + 1, getItem_append_cons [] _ _, ?_, ?_, ?_, ?_, ?_, ?_,
    ?_, by simp; omega⟩
  · rw [firstValue, Nat.shiftRight_eq_div_pow]
    omega
  · rw [firstValue, show (0x20 : Nat) = 2 ^ 5 from rfl, and_two_pow_eq_zero_iff]
    omega
  · simpa using decodeInteger_of_encodeInteger (by decide) (by decide) fiveBits opcodeClear []
      (name ++ valueFirst :: valueTail ++ value ++ rest)
  · simp [List.take_left']
  · refine ⟨valueFirst.toNat, ?_, (and_0x80_eq_zero_iff (by omega)).mpr valueFits⟩
    simpa using getItem_append_cons ((UInt8.ofNat name.length ||| 0x40) :: name)
      (valueTail ++ value ++ rest) valueFirst
  · simpa using decodeInteger_of_encodeInteger (by decide) (by decide) valueEncoded
      (show (0 : UInt8).toNat &&& (2 ^ 7 - 1) = 0 by decide)
      ((UInt8.ofNat name.length ||| 0x40) :: name) (value ++ rest)
  · have skipped : name.length + 1 + (valueTail.length + 1) =
        ((UInt8.ofNat name.length ||| 0x40) :: name ++ valueFirst :: valueTail).length := by
      simp only [List.length_append, List.length_cons]
    rw [skipped]
    simp

/-- The one-byte name `a` with the value `b`: the literal-name instruction reads back. -/
theorem insertWithLiteralName_reads_back_of_name_a :
    let name : Bytes := [0x61]
    let value : Bytes := [0x62]
    let rest : Bytes := []
    name.length < 31 ∧
    ∃ out, insertWithLiteralName name value = .ok out ∧
      ∃ first lengthLength, getItem (out ++ rest) 0 = .ok first ∧
        first >>> 6 = 1 ∧ first &&& 0x20 = 0 ∧
        decodeInteger (out ++ rest) 0 5 = .ok (name.length, 1) ∧
        ((out ++ rest).drop 1).take name.length = name ∧
        (∃ flagByte, getItem (out ++ rest) (name.length + 1) = .ok flagByte ∧
          flagByte &&& 0x80 = 0) ∧
        decodeInteger (out ++ rest) (name.length + 1) 7 = .ok (value.length, lengthLength) ∧
        ((out ++ rest).drop (name.length + 1 + lengthLength)).take value.length = value ∧
        name.length + 1 + lengthLength + value.length = out.length :=
  ⟨by decide, insertWithLiteralName_reads_back_of_short [0x61] [0x62] [] (by decide)⟩

/--
A 31-byte name: the instruction's first byte is `0x5F`, whose low five bits
are the marker of a longer integer, so reading the name length with a 5-bit
prefix takes the name's first byte as a continuation and gives 128, not 31.
-/
theorem insertWithLiteralName_name_of_31_bytes :
    insertWithLiteralName (List.replicate 31 0x61) [] =
        .ok (0x5F :: List.replicate 31 0x61 ++ [0]) ∧
      decodeInteger (0x5F :: List.replicate 31 0x61 ++ [0]) 0 5 = .ok (128, 2) := by
  refine ⟨rfl, ?_⟩
  rw [show (0 : Int) = ((0 : Nat) : Int) from rfl, show (5 : Int) = ((5 : Nat) : Int) from rfl,
    decodeInteger_eq_read (by decide) (by decide) (by decide)]
  rfl

end ManualQpack
