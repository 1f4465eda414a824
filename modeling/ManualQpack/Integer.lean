import ManualQpack.Runtime
import Mathlib.Data.Nat.Bitwise
import Mathlib.Tactic.Ring

namespace ManualQpack

/-!
# Prefixed integers (RFC 9204 §4.1.1, RFC 7541 §5.1)

`encode_integer` and `decode_integer` as the code computes them, and beside
them `readPrefixedInteger`, the integer as RFC 7541 §5.1 has a receiver read
it from the front of a byte stream.

The code's decoder refines the RFC reader at every offset inside the data
(`decodeInteger_eq_read`), and the RFC reader reads back every encoding with
any flag bits ORed in above the prefix and any bytes after it
(`readPrefixedInteger_encodeInteger`).  Together they give the round trip at
any offset.  The code refuses only offsets at or past the end: a negative
offset reads from the other end of the data, as Python indexing does.
-/

/-! ## The code -/

/-- `(1 << prefix_bits) - 1`: the largest value a prefix holds, and the marker of a longer integer. -/
def maxPrefix (prefixBits : Nat) : Nat :=
  (1 <<< prefixBits) - 1

/--
The `while value >= 0x80` loop of `encode_integer` and its final byte: seven
data bits a byte, low group first, the high bit set on all bytes but the last.
-/
def encodeContinuation (value : Nat) : Bytes :=
  if value ≥ 0x80 then
    UInt8.ofNat ((value &&& 0x7F) ||| 0x80) :: encodeContinuation (value >>> 7)
  else
    [UInt8.ofNat value]
termination_by value
decreasing_by rw [Nat.shiftRight_eq_div_pow]; omega

/-- `encode_integer(value, prefix_bits)`: the caller ORs its pattern bits into the first byte. -/
def encodeInteger (value prefixBits : Int) : Except PyError Bytes :=
  if value < 0 then
    .error (.valueError s!"value must be non-negative, got {value}")
  else if ¬(1 ≤ prefixBits ∧ prefixBits ≤ 8) then
    .error (.valueError s!"prefix_bits must be 1–8, got {prefixBits}")
  else if value.toNat < maxPrefix prefixBits.toNat then
    .ok [UInt8.ofNat value.toNat]
  else
    .ok (UInt8.ofNat (maxPrefix prefixBits.toNat) ::
      encodeContinuation (value.toNat - maxPrefix prefixBits.toNat))

/--
The `while True` loop of `decode_integer`: read the byte at
`offset + consumed`, add its low seven bits at `shift`, and stop after a byte
whose high bit is clear.
-/
def decodeLoop (data : Bytes) (offset : Int) (value shift consumed : Nat) :
    Except PyError (Nat × Nat) :=
  if offset + consumed ≥ data.length then
    .error (.valueError "truncated integer encoding")
  else
    match getItem data (offset + consumed) with
    | .error error => .error error
    | .ok byte =>
        let value := value + ((byte &&& 0x7F) <<< shift)
        if byte &&& 0x80 = 0 then
          .ok (value, consumed + 1)
        else
          decodeLoop data offset value (shift + 7) (consumed + 1)
termination_by (data.length - (offset + consumed)).toNat
decreasing_by omega

/-- `decode_integer(data, offset, prefix_bits)`: the value and the number of bytes consumed. -/
def decodeInteger (data : Bytes) (offset prefixBits : Int) :
    Except PyError (Nat × Nat) :=
  if ¬(1 ≤ prefixBits ∧ prefixBits ≤ 8) then
    .error (.valueError s!"prefix_bits must be 1–8, got {prefixBits}")
  else if offset ≥ data.length then
    .error (.valueError "offset beyond data length")
  else
    match getItem data offset with
    | .error error => .error error
    | .ok first =>
        let value := first &&& maxPrefix prefixBits.toNat
        if value < maxPrefix prefixBits.toNat then
          .ok (value, 1)
        else
          decodeLoop data offset value 0 1

/-! ## The integer as RFC 7541 §5.1 reads it -/

/--
The continuation octets of a prefixed integer read from the front of the
input: seven bits each, low group first, up to the first octet whose high bit
is clear.  Returns the value and the unread input.
-/
def readContinuation : Bytes → Option (Nat × Bytes)
  | [] => none
  | byte :: rest =>
      if byte.toNat < 128 then
        some (byte.toNat, rest)
      else
        (readContinuation rest).map fun (high, remaining) =>
          (byte.toNat - 128 + 128 * high, remaining)

/--
A prefixed integer read from the front of the input, its prefix the low
`prefixBits` bits of the first octet; the bits above the prefix are not read.
-/
def readPrefixedInteger (prefixBits : Nat) : Bytes → Option (Nat × Bytes)
  | [] => none
  | first :: rest =>
      if first.toNat % 2 ^ prefixBits < 2 ^ prefixBits - 1 then
        some (first.toNat % 2 ^ prefixBits, rest)
      else
        (readContinuation rest).map fun (extra, remaining) =>
          (2 ^ prefixBits - 1 + extra, remaining)

/-! ## Bits of one byte -/

@[simp] theorem maxPrefix_eq (prefixBits : Nat) :
    maxPrefix prefixBits = 2 ^ prefixBits - 1 := by
  rw [maxPrefix, Nat.shiftLeft_eq, Nat.one_mul]

/-- A byte's OR, read as a number, is the OR of the two numbers. -/
theorem toNat_or (first second : UInt8) :
    (first ||| second).toNat = first.toNat ||| second.toNat :=
  BitVec.toNat_or ..

/-- A number below 256 stored as a byte keeps its value. -/
theorem toNat_ofNat_byte {value : Nat} (isByte : value < 256) :
    (UInt8.ofNat value).toNat = value :=
  UInt8.toNat_ofNat_of_lt isByte

/-- OR-ing in the bit just above a number's width adds it. -/
theorem or_two_pow_of_lt {value width : Nat} (fits : value < 2 ^ width) :
    value ||| 2 ^ width = value + 2 ^ width := by
  have orIsAdd := Nat.mul_add_lt_is_or fits 1
  rw [Nat.mul_one] at orIsAdd
  rw [Nat.or_comm, ← orIsAdd, Nat.add_comm]

/-- Flag bits above the prefix do not change what the prefix holds. -/
theorem or_mod_two_pow {value flags width : Nat}
    (fits : value < 2 ^ width) (clear : flags &&& (2 ^ width - 1) = 0) :
    (value ||| flags) % 2 ^ width = value := by
  rw [← Nat.and_pow_two_sub_one_eq_mod, Nat.and_distrib_right, clear, Nat.or_zero,
    Nat.and_pow_two_sub_one_eq_mod, Nat.mod_eq_of_lt fits]

/-- `value & (1 << bit)` tests one bit. -/
theorem and_two_pow_eq_zero_iff (value bit : Nat) :
    value &&& 2 ^ bit = 0 ↔ value / 2 ^ bit % 2 = 0 := by
  have positive := Nat.two_pow_pos bit
  rw [Nat.and_two_pow, Nat.testBit_to_div_mod]
  by_cases set : value / 2 ^ bit % 2 = 1 <;> simp [set]
  omega

/-- `byte & 0x80` tests the continuation bit. -/
theorem and_0x80_eq_zero_iff {byte : Nat} (isByte : byte < 256) :
    byte &&& 0x80 = 0 ↔ byte < 128 := by
  rw [show (0x80 : Nat) = 2 ^ 7 from rfl, and_two_pow_eq_zero_iff]
  omega

/-- `(byte & 0x7F) << shift` is the byte's low seven bits at `shift`. -/
theorem and_0x7F_shiftLeft (byte shift : Nat) :
    (byte &&& 0x7F) <<< shift = 2 ^ shift * (byte % 128) := by
  rw [Nat.shiftLeft_eq, show (0x7F : Nat) = 2 ^ 7 - 1 from rfl,
    Nat.and_pow_two_sub_one_eq_mod, Nat.mul_comm]

/-! ## Encoding -/

/-- A value below `0x80` is its own last byte. -/
theorem encodeContinuation_of_lt {value : Nat} (small : value < 0x80) :
    encodeContinuation value = [UInt8.ofNat value] := by
  rw [encodeContinuation, if_neg (by omega)]

/-- A larger value emits its low seven bits with the high bit set, then the rest. -/
theorem encodeContinuation_of_ge {value : Nat} (large : 0x80 ≤ value) :
    encodeContinuation value =
      UInt8.ofNat (value % 128 + 128) :: encodeContinuation (value / 128) := by
  rw [encodeContinuation, if_pos large, Nat.shiftRight_eq_div_pow,
    show (0x7F : Nat) = 2 ^ 7 - 1 from rfl, Nat.and_pow_two_sub_one_eq_mod,
    show (0x80 : Nat) = 2 ^ 7 from rfl, or_two_pow_of_lt (Nat.mod_lt _ (by decide))]

/-- What `encode_integer` builds from a valid value and prefix width. -/
theorem encodeInteger_of_valid {value prefixBits : Nat}
    (low : 1 ≤ prefixBits) (high : prefixBits ≤ 8) :
    encodeInteger value prefixBits =
      .ok (if value < 2 ^ prefixBits - 1 then [UInt8.ofNat value]
        else UInt8.ofNat (2 ^ prefixBits - 1) ::
          encodeContinuation (value - (2 ^ prefixBits - 1))) := by
  have nonnegative : ¬ (value : Int) < 0 := by omega
  have valid : 1 ≤ (prefixBits : Int) ∧ (prefixBits : Int) ≤ 8 := by omega
  rw [encodeInteger, if_neg nonnegative, if_neg (not_not.mpr valid)]
  simp only [Int.toNat_ofNat, maxPrefix_eq]
  exact (apply_ite Except.ok _ _ _).symm

/-- The RFC reader reads the code's continuation bytes back, whatever follows them. -/
theorem readContinuation_encodeContinuation (value : Nat) (rest : Bytes) :
    readContinuation (encodeContinuation value ++ rest) = some (value, rest) := by
  induction value using Nat.strong_induction_on with
  | _ value inductionHypothesis =>
      by_cases small : value < 0x80
      · have stored := toNat_ofNat_byte (show value < 256 by omega)
        rw [encodeContinuation_of_lt small]
        simp [readContinuation, stored, small]
      · have stored := toNat_ofNat_byte (show value % 128 + 128 < 256 by omega)
        rw [encodeContinuation_of_ge (by omega)]
        simp [readContinuation, stored, inductionHypothesis (value / 128) (by omega)]
        omega

/-- `encode_integer` succeeds on every valid value and prefix width, with at least one byte. -/
theorem encodeInteger_ok {value prefixBits : Nat} (low : 1 ≤ prefixBits) (high : prefixBits ≤ 8) :
    ∃ first tail, encodeInteger value prefixBits = .ok (first :: tail) := by
  rw [encodeInteger_of_valid low high]
  split
  · exact ⟨_, _, rfl⟩
  · exact ⟨_, _, rfl⟩

/--
An encoded integer's first byte fits in the prefix, and the RFC reader reads
the integer back with flag bits ORed in above the prefix and any bytes after it.
-/
theorem readPrefixedInteger_encodeInteger {value prefixBits : Nat} {first : UInt8}
    {tail : Bytes} (low : 1 ≤ prefixBits) (high : prefixBits ≤ 8)
    (encoded : encodeInteger value prefixBits = .ok (first :: tail))
    {flags : UInt8} (clear : flags.toNat &&& (2 ^ prefixBits - 1) = 0) (rest : Bytes) :
    first.toNat < 2 ^ prefixBits ∧
      readPrefixedInteger prefixBits ((first ||| flags) :: tail ++ rest) =
        some (value, rest) := by
  have wide : 2 ≤ 2 ^ prefixBits :=
    Nat.pow_le_pow_right (n := 2) (by decide) low
  have narrow : 2 ^ prefixBits ≤ 256 :=
    Nat.pow_le_pow_right (n := 2) (by decide) high
  rw [encodeInteger_of_valid low high] at encoded
  split at encoded
  · next small =>
      simp only [Except.ok.injEq, List.cons.injEq] at encoded
      obtain ⟨rfl, rfl⟩ := encoded
      have stored := toNat_ofNat_byte (show value < 256 by omega)
      have prefixKept : (value ||| flags.toNat) % 2 ^ prefixBits = value :=
        or_mod_two_pow (by omega) clear
      refine ⟨by omega, ?_⟩
      simp [readPrefixedInteger, toNat_or, stored, prefixKept, small]
  · next large =>
      simp only [Except.ok.injEq, List.cons.injEq] at encoded
      obtain ⟨rfl, rfl⟩ := encoded
      have stored := toNat_ofNat_byte (show 2 ^ prefixBits - 1 < 256 by omega)
      have prefixKept :
          (2 ^ prefixBits - 1 ||| flags.toNat) % 2 ^ prefixBits = 2 ^ prefixBits - 1 :=
        or_mod_two_pow (by omega) clear
      refine ⟨by omega, ?_⟩
      simp [readPrefixedInteger, toNat_or, stored, prefixKept,
        readContinuation_encodeContinuation]
      omega

/-- OR-ing in no flag bits leaves a byte as it is. -/
@[simp] theorem or_zero_byte (byte : UInt8) : byte ||| 0 = byte :=
  UInt8.toNat.inj (by rw [toNat_or, UInt8.toNat_zero, Nat.or_zero])

/-! ## Decoding -/

/--
The RFC reader is self-delimiting: it reads a front of the input, and reads
that same front the same way before any other bytes.
-/
theorem readContinuation_window :
    ∀ {input remaining : Bytes} {value : Nat},
      readContinuation input = some (value, remaining) →
      ∃ window, input = window ++ remaining ∧
        ∀ other, readContinuation (window ++ other) = some (value, other)
  | [], _, _, read => by simp [readContinuation] at read
  | byte :: rest, remaining, value, read => by
      simp only [readContinuation] at read
      split at read
      · next last =>
          cases read
          exact ⟨[byte], rfl, fun other => by simp [readContinuation, last]⟩
      · next more =>
          obtain ⟨⟨high, after⟩, inner, same⟩ := Option.map_eq_some'.mp read
          cases same
          obtain ⟨window, splits, reads⟩ := readContinuation_window inner
          exact ⟨byte :: window, by simp [splits],
            fun other => by simp [readContinuation, more, reads]⟩

/-- The continuation octets are never empty, so reading them consumes input. -/
theorem readContinuation_shorter {input remaining : Bytes} {value : Nat}
    (read : readContinuation input = some (value, remaining)) :
    remaining.length < input.length := by
  obtain ⟨window, rfl, reads⟩ := readContinuation_window read
  cases window with
  | nil => simpa [readContinuation] using reads []
  | cons byte window =>
      simp only [List.cons_append, List.length_cons, List.length_append]
      omega

/-- A prefixed integer is self-delimiting too, and at least one byte long. -/
theorem readPrefixedInteger_window {prefixBits value : Nat} {input remaining : Bytes}
    (read : readPrefixedInteger prefixBits input = some (value, remaining)) :
    ∃ window, window ≠ [] ∧ input = window ++ remaining ∧
      ∀ other, readPrefixedInteger prefixBits (window ++ other) = some (value, other) := by
  cases input with
  | nil => simp [readPrefixedInteger] at read
  | cons first rest =>
      simp only [readPrefixedInteger] at read
      split at read
      · next small =>
          cases read
          exact ⟨[first], by simp, rfl, fun other => by simp [readPrefixedInteger, small]⟩
      · next marker =>
          obtain ⟨⟨extra, after⟩, inner, same⟩ := Option.map_eq_some'.mp read
          cases same
          obtain ⟨window, splits, reads⟩ := readContinuation_window inner
          exact ⟨first :: window, by simp, by simp [splits],
            fun other => by simp [readPrefixedInteger, marker, reads]⟩

/--
The decoding loop reads the continuation octets that the RFC reader reads
from the loop's position, and fails exactly where the RFC reader does.
-/
theorem decodeLoop_eq_read {data : Bytes} {offset : Int} :
    ∀ {input : Bytes} {position value shift consumed : Nat},
      offset + consumed = position → data.drop position = input →
      decodeLoop data offset value shift consumed =
        match readContinuation input with
        | some (high, remaining) =>
            .ok (value + 2 ^ shift * high, consumed + (input.length - remaining.length))
        | none => .error (.valueError "truncated integer encoding")
  | [], position, value, shift, consumed, atPosition, dropped => by
      have past : data.length ≤ position := List.drop_eq_nil_iff.mp dropped
      rw [decodeLoop, if_pos (by omega)]
      rfl
  | byte :: rest, position, value, shift, consumed, atPosition, dropped => by
      have inside : position < data.length := by
        by_contra past
        rw [List.drop_eq_nil_of_le (by omega)] at dropped
        cases dropped
      rw [List.drop_eq_getElem_cons inside, List.cons.injEq] at dropped
      obtain ⟨atByte, afterByte⟩ := dropped
      have isByte : byte.toNat < 256 := byte.toNat_lt_size
      rw [decodeLoop, if_neg (by omega), atPosition, getItem_of_lt inside]
      simp only [List.get_eq_getElem, atByte, and_0x7F_shiftLeft]
      by_cases last : byte.toNat < 128
      · rw [if_pos ((and_0x80_eq_zero_iff isByte).mpr last)]
        simp [readContinuation, last, Nat.mod_eq_of_lt last]
      · rw [if_neg (mt (and_0x80_eq_zero_iff isByte).mp last),
          decodeLoop_eq_read (by push_cast; omega) afterByte]
        simp only [readContinuation, if_neg last]
        cases reading : readContinuation rest with
        | none => rfl
        | some result =>
            obtain ⟨high, remaining⟩ := result
            have shorter := readContinuation_shorter reading
            have low7 : byte.toNat % 128 = byte.toNat - 128 := by omega
            simp only [Option.map_some', Except.ok.injEq, Prod.mk.injEq, List.length_cons]
            constructor
            · rw [low7, pow_add]
              ring
            · omega

/-- At an offset inside the data, `decode_integer` reads what the RFC reader reads there. -/
theorem decodeInteger_eq_read {data : Bytes} {offset prefixBits : Nat}
    (low : 1 ≤ prefixBits) (high : prefixBits ≤ 8) (inside : offset < data.length) :
    decodeInteger data offset prefixBits =
      match readPrefixedInteger prefixBits (data.drop offset) with
      | some (value, remaining) => .ok (value, data.length - offset - remaining.length)
      | none => .error (.valueError "truncated integer encoding") := by
  have valid : 1 ≤ (prefixBits : Int) ∧ (prefixBits : Int) ≤ 8 := by omega
  have prefixFits : data[offset].toNat % 2 ^ prefixBits < 2 ^ prefixBits :=
    Nat.mod_lt _ (Nat.two_pow_pos prefixBits)
  rw [decodeInteger, if_neg (not_not.mpr valid), if_neg (by omega), getItem_of_lt inside,
    List.drop_eq_getElem_cons inside]
  simp only [List.get_eq_getElem, Int.toNat_ofNat, maxPrefix_eq,
    Nat.and_pow_two_sub_one_eq_mod, readPrefixedInteger]
  split
  · simp only [Except.ok.injEq, Prod.mk.injEq, List.length_drop, true_and]
    omega
  · next marker =>
      rw [decodeLoop_eq_read (show (offset : Int) + (1 : Nat) = (offset + 1 : Nat) by push_cast; rfl) rfl]
      cases reading : readContinuation (data.drop (offset + 1)) with
      | none => rfl
      | some result =>
          obtain ⟨extra, remaining⟩ := result
          have shorter := readContinuation_shorter reading
          simp only [List.length_drop] at shorter
          simp only [Option.map_some', Except.ok.injEq, Prod.mk.injEq, List.length_drop]
          omega

/--
`decode_integer` reads an encoded integer back at any offset, with flag bits
ORed in above the prefix and any bytes after the encoding.
-/
theorem decodeInteger_of_encodeInteger {value prefixBits : Nat} {first : UInt8}
    {tail : Bytes} (low : 1 ≤ prefixBits) (high : prefixBits ≤ 8)
    (encoded : encodeInteger value prefixBits = .ok (first :: tail))
    {flags : UInt8} (clear : flags.toNat &&& (2 ^ prefixBits - 1) = 0) (before rest : Bytes) :
    decodeInteger (before ++ (first ||| flags) :: tail ++ rest) before.length prefixBits =
      .ok (value, tail.length + 1) := by
  rw [decodeInteger_eq_read low high (by simp), List.append_assoc, List.drop_left,
    (readPrefixedInteger_encodeInteger low high encoded clear rest).2]
  simp only [List.length_append, List.length_cons]
  congr 2
  omega

/--
`encode_integer` round-trips through `decode_integer` at any offset, with
flag bits ORed in above the prefix and any bytes after the encoding.
-/
theorem decodeInteger_encodeInteger (value prefixBits : Int) (before rest : Bytes)
    (flags : UInt8) (nonnegative : 0 ≤ value) (low : 1 ≤ prefixBits) (high : prefixBits ≤ 8)
    (clear : flags.toNat &&& (2 ^ prefixBits.toNat - 1) = 0) :
    ∃ first tail, encodeInteger value prefixBits = .ok (first :: tail) ∧
      first.toNat < 2 ^ prefixBits.toNat ∧
      decodeInteger (before ++ (first ||| flags) :: tail ++ rest) before.length prefixBits =
        .ok (value.toNat, tail.length + 1) := by
  obtain ⟨value, rfl⟩ := Int.eq_ofNat_of_zero_le nonnegative
  obtain ⟨prefixBits, rfl⟩ := Int.eq_ofNat_of_zero_le (show 0 ≤ prefixBits by omega)
  simp only [Int.toNat_ofNat] at clear ⊢
  obtain ⟨first, tail, encoded⟩ := @encodeInteger_ok value prefixBits (by omega) (by omega)
  exact ⟨first, tail, encoded,
    (readPrefixedInteger_encodeInteger (by omega) (by omega) encoded clear []).1,
    decodeInteger_of_encodeInteger (by omega) (by omega) encoded clear before rest⟩

/-- The round trip at a three-byte encoding, one byte in and a flag bit set. -/
theorem decodeInteger_encodeInteger_at_300 :
    ∃ first tail, encodeInteger 300 5 = .ok (first :: tail) ∧
      first.toNat < 2 ^ (5 : Int).toNat ∧
      decodeInteger ([7] ++ (first ||| 0x20) :: tail ++ [9]) [7].length 5 =
        .ok ((300 : Int).toNat, tail.length + 1) :=
  decodeInteger_encodeInteger 300 5 [7] [9] 0x20 (by decide) (by decide) (by decide) (by decide)

/--
At a non-negative offset `decode_integer` raises when the offset is at or
past the end, and otherwise returns, if anything, a value read from the
`consumed` bytes at the offset alone: at least one byte, none past the end,
and any data of the same length agreeing on them decodes the same.
-/
theorem decodeInteger_window (data : Bytes) (offset prefixBits : Int)
    (nonnegative : 0 ≤ offset) (low : 1 ≤ prefixBits) (high : prefixBits ≤ 8) :
    (data.length ≤ offset → ∃ error, decodeInteger data offset prefixBits = .error error) ∧
    ∀ value consumed, decodeInteger data offset prefixBits = .ok (value, consumed) →
      1 ≤ consumed ∧ offset + consumed ≤ data.length ∧
      ∀ other : Bytes, other.length = data.length →
        (other.drop offset.toNat).take consumed = (data.drop offset.toNat).take consumed →
        decodeInteger other offset prefixBits = .ok (value, consumed) := by
  obtain ⟨offset, rfl⟩ := Int.eq_ofNat_of_zero_le nonnegative
  obtain ⟨prefixBits, rfl⟩ := Int.eq_ofNat_of_zero_le (show 0 ≤ prefixBits by omega)
  have valid : 1 ≤ (prefixBits : Int) ∧ (prefixBits : Int) ≤ 8 := by omega
  refine ⟨fun past => ⟨_, by rw [decodeInteger, if_neg (not_not.mpr valid), if_pos past]⟩, ?_⟩
  intro value consumed decoded
  have inside : offset < data.length := by
    by_contra past
    rw [decodeInteger, if_neg (not_not.mpr valid), if_pos (by omega)] at decoded
    cases decoded
  rw [decodeInteger_eq_read (by omega) (by omega) inside] at decoded
  cases reading : readPrefixedInteger prefixBits (data.drop offset) with
  | none => rw [reading] at decoded; cases decoded
  | some result =>
      obtain ⟨read, remaining⟩ := result
      rw [reading, Except.ok.injEq, Prod.mk.injEq] at decoded
      obtain ⟨rfl, rfl⟩ := decoded
      obtain ⟨window, nonempty, splits, reads⟩ := readPrefixedInteger_window reading
      have windowLength : window.length = data.length - offset - remaining.length := by
        have lengths := congrArg List.length splits
        simp only [List.length_drop, List.length_append] at lengths
        omega
      have windowTaken : (data.drop offset).take window.length = window := by
        rw [splits, List.take_left]
      have windowPositive : 0 < window.length := List.length_pos.mpr nonempty
      refine ⟨by omega, by omega, fun other sameLength sameWindow => ?_⟩
      rw [Int.toNat_ofNat, ← windowLength, windowTaken] at sameWindow
      have otherSplits : other.drop offset = window ++ (other.drop offset).drop window.length :=
        calc other.drop offset
            = (other.drop offset).take window.length ++ (other.drop offset).drop window.length :=
              (List.take_append_drop _ _).symm
          _ = window ++ (other.drop offset).drop window.length := by rw [sameWindow]
      rw [decodeInteger_eq_read (by omega) (by omega) (by omega), otherSplits, reads]
      simp only [List.length_drop, Except.ok.injEq, Prod.mk.injEq, true_and]
      omega

/-- The window at offset 1 of `00 1F 9A 0A 07`: the three bytes of 1337 with a 5-bit prefix. -/
theorem decodeInteger_window_on_1337 :
    let data : Bytes := [0x00, 0x1F, 0x9A, 0x0A, 0x07]
    (0 ≤ (1 : Int) ∧ 1 ≤ (5 : Int) ∧ (5 : Int) ≤ 8) ∧
    ((data.length : Int) ≤ 1 → ∃ error, decodeInteger data 1 5 = .error error) ∧
    ∀ value consumed, decodeInteger data 1 5 = .ok (value, consumed) →
      1 ≤ consumed ∧ 1 + (consumed : Int) ≤ data.length ∧
      ∀ other : Bytes, other.length = data.length →
        (other.drop (1 : Int).toNat).take consumed = (data.drop (1 : Int).toNat).take consumed →
        decodeInteger other 1 5 = .ok (value, consumed) :=
  ⟨by decide, decodeInteger_window _ 1 5 (by decide) (by decide) (by decide)⟩

/--
A negative offset is not refused: at offset `-1` the decoder reads `data[-1]`,
the last byte, and returns as if the integer started there.
-/
theorem decodeInteger_negative_offset : decodeInteger [5] (-1) 5 = .ok (5, 1) := rfl

end ManualQpack
