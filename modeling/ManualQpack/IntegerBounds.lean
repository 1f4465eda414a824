import ManualQpack.Integer

namespace ManualQpack

/-!
# What the integer decoder accepts

`decode_integer` accepts more than `encode_integer` writes: a continuation
byte `0x80` adds nothing, so `1F 80 00` decodes to 31 as `1F 00` does.  Two
facts bound what it accepts, at every non-negative offset:

* `encode_integer` writes no more bytes than any input `decode_integer` reads
  the same value from (`encodeInteger_shortest`): seven bits per continuation
  byte is all any encoding carries;
* `decode_integer` raises, and raises a `ValueError`, exactly when the offset
  is past the end or the integer runs off the end of the data: the prefix is
  at its maximum and every later byte has its high bit set
  (`decodeInteger_raises_iff_truncated`).
-/

/-! ## Seven bits per continuation byte -/

/-- `encodeContinuation` writes one byte per base-128 digit. -/
theorem encodeContinuation_length_le {value digits : Nat} (small : value < 128 ^ digits)
    (positive : 1 ≤ digits) : (encodeContinuation value).length ≤ digits := by
  induction value using Nat.strong_induction_on generalizing digits with
  | _ value inductionHypothesis =>
      by_cases last : value < 0x80
      · rw [encodeContinuation_of_lt last]
        exact positive
      · obtain ⟨fewer, rfl⟩ : ∃ fewer, digits = fewer + 1 := ⟨digits - 1, by omega⟩
        rw [pow_succ] at small
        have moreDigits : 1 ≤ fewer := by
          by_contra none
          rw [show fewer = 0 by omega, pow_zero] at small
          omega
        have rest := inductionHypothesis (value / 128) (by omega) (by omega) moreDigits
        rw [encodeContinuation_of_ge (by omega), List.length_cons]
        omega

/-- `k` continuation bytes read by the RFC reader carry a value below `128 ^ k`. -/
theorem readContinuation_lt :
    ∀ {input remaining : Bytes} {value : Nat}, readContinuation input = some (value, remaining) →
      value < 128 ^ (input.length - remaining.length)
  | [], _, _, read => by simp [readContinuation] at read
  | byte :: rest, remaining, value, read => by
      have isByte : byte.toNat < 256 := byte.toNat_lt_size
      simp only [readContinuation] at read
      split at read
      · cases read
        simp only [List.length_cons, Nat.add_sub_cancel_left, pow_one]
        omega
      · obtain ⟨⟨high, after⟩, inner, same⟩ := Option.map_eq_some'.mp read
        cases same
        have bound := readContinuation_lt inner
        have shorter := readContinuation_shorter inner
        rw [List.length_cons, show rest.length + 1 - after.length =
          rest.length - after.length + 1 by omega, pow_succ]
        omega

/--
From the bytes the RFC reader consumes reading a value, `encode_integer`
writes that value in no more bytes.
-/
theorem encodeInteger_length_le_of_read {prefixBits value : Nat} {input remaining : Bytes}
    (low : 1 ≤ prefixBits) (high : prefixBits ≤ 8)
    (read : readPrefixedInteger prefixBits input = some (value, remaining)) :
    ∃ encoded, encodeInteger value prefixBits = .ok encoded ∧
      encoded.length ≤ input.length - remaining.length := by
  rw [encodeInteger_of_valid low high]
  refine ⟨_, rfl, ?_⟩
  cases input with
  | nil => cases read
  | cons first rest =>
      simp only [readPrefixedInteger] at read
      split at read
      · next small =>
          cases read
          simp [small]
      · obtain ⟨⟨extra, after⟩, inner, same⟩ := Option.map_eq_some'.mp read
        cases same
        have shorter := readContinuation_shorter inner
        have continuation := encodeContinuation_length_le (readContinuation_lt inner) (by omega)
        rw [if_neg (by omega), Nat.add_sub_cancel_left]
        simp only [List.length_cons]
        omega

/-- At a non-negative offset, `decode_integer` reads what the RFC reader reads there. -/
theorem decodeInteger_of_inside {data : Bytes} {offset prefixBits : Nat}
    (low : 1 ≤ prefixBits) (high : prefixBits ≤ 8) {value consumed : Nat}
    (decoded : decodeInteger data offset prefixBits = .ok (value, consumed)) :
    ∃ remaining, readPrefixedInteger prefixBits (data.drop offset) = some (value, remaining) ∧
      consumed = (data.drop offset).length - remaining.length := by
  have valid : 1 ≤ (prefixBits : Int) ∧ (prefixBits : Int) ≤ 8 := by omega
  have inside : offset < data.length := by
    by_contra past
    rw [decodeInteger, if_neg (not_not.mpr valid), if_pos (by omega)] at decoded
    cases decoded
  rw [decodeInteger_eq_read low high inside] at decoded
  cases reading : readPrefixedInteger prefixBits (data.drop offset) with
  | none => rw [reading] at decoded; cases decoded
  | some result =>
      obtain ⟨read, remaining⟩ := result
      rw [reading, Except.ok.injEq, Prod.mk.injEq] at decoded
      obtain ⟨rfl, rfl⟩ := decoded
      exact ⟨remaining, rfl, by rw [List.length_drop]⟩

/--
For every byte string, non-negative offset and prefix width in `[1, 8]`: when
`decode_integer` reads a value from `consumed` bytes, `encode_integer` writes
that value in at most `consumed` bytes.
-/
theorem encodeInteger_shortest (data : Bytes) (offset prefixBits : Int)
    (nonnegative : 0 ≤ offset) (low : 1 ≤ prefixBits) (high : prefixBits ≤ 8)
    {value consumed : Nat} (decoded : decodeInteger data offset prefixBits = .ok (value, consumed)) :
    ∃ encoded, encodeInteger value prefixBits = .ok encoded ∧ encoded.length ≤ consumed := by
  obtain ⟨offset, rfl⟩ := Int.eq_ofNat_of_zero_le nonnegative
  obtain ⟨prefixBits, rfl⟩ := Int.eq_ofNat_of_zero_le (show 0 ≤ prefixBits by omega)
  obtain ⟨remaining, read, rfl⟩ := decodeInteger_of_inside (by omega) (by omega) decoded
  exact encodeInteger_length_le_of_read (by omega) (by omega) read

/--
`1F 80 00` at a 5-bit prefix: `decode_integer` reads 31 from three bytes, and
`encode_integer` writes 31 in two.
-/
theorem encodeInteger_shortest_on_padded_31 :
    (0 ≤ (0 : Int) ∧ 1 ≤ (5 : Int) ∧ (5 : Int) ≤ 8 ∧
      decodeInteger [0x1F, 0x80, 0x00] 0 5 = .ok (31, 3)) ∧
    ∃ encoded, encodeInteger (31 : Nat) 5 = .ok encoded ∧ encoded.length ≤ 3 := by
  have decoded : decodeInteger [0x1F, 0x80, 0x00] 0 5 = .ok (31, 3) := by
    rw [show (0 : Int) = ((0 : Nat) : Int) from rfl, show (5 : Int) = ((5 : Nat) : Int) from rfl,
      decodeInteger_eq_read (by decide) (by decide) (by decide)]
    rfl
  exact ⟨⟨by decide, by decide, by decide, decoded⟩,
    encodeInteger_shortest _ 0 5 (by decide) (by decide) (by decide) decoded⟩

/-! ## When the decoder raises -/

/-- The RFC reader finds no last continuation byte exactly when every byte has its high bit set. -/
theorem readContinuation_eq_none_iff :
    ∀ {input : Bytes}, readContinuation input = none ↔ ∀ byte ∈ input, 128 ≤ byte.toNat
  | [] => by simp [readContinuation]
  | byte :: rest => by
      simp only [readContinuation, List.mem_cons, forall_eq_or_imp]
      split
      · next last => simp only [reduceCtorEq, false_iff, not_and]; omega
      · next more =>
          rw [Option.map_eq_none', readContinuation_eq_none_iff]
          exact ⟨fun later => ⟨by omega, later⟩, And.right⟩

/--
A prefixed integer is unfinished exactly when its prefix is at its maximum and
no byte ends it.
-/
theorem readPrefixedInteger_eq_none_iff (prefixBits : Nat) (first : UInt8) (rest : Bytes) :
    readPrefixedInteger prefixBits (first :: rest) = none ↔
      first.toNat % 2 ^ prefixBits = 2 ^ prefixBits - 1 ∧ ∀ byte ∈ rest, 128 ≤ byte.toNat := by
  have below := Nat.mod_lt first.toNat (Nat.two_pow_pos prefixBits)
  simp only [readPrefixedInteger]
  split
  · next small => simp only [reduceCtorEq, false_iff, not_and]; omega
  · next marker =>
      rw [Option.map_eq_none', readContinuation_eq_none_iff]
      exact ⟨fun later => ⟨by omega, later⟩, And.right⟩

/--
For every byte string, non-negative offset and prefix width in `[1, 8]`,
`decode_integer` raises, and raises a `ValueError`, exactly when the integer
is truncated: the offset is at or past the end, or the prefix of the byte at
the offset is at its maximum and every later byte has its high bit set.
Otherwise it returns.
-/
theorem decodeInteger_raises_iff_truncated (data : Bytes) (offset prefixBits : Int)
    (nonnegative : 0 ≤ offset) (low : 1 ≤ prefixBits) (high : prefixBits ≤ 8) :
    let truncated := data.length ≤ offset ∨
      ∃ first, data[offset.toNat]? = some first ∧
        first.toNat &&& (2 ^ prefixBits.toNat - 1) = 2 ^ prefixBits.toNat - 1 ∧
        ∀ byte ∈ data.drop (offset.toNat + 1), byte.toNat &&& 0x80 ≠ 0
    (truncated →
        ∃ message, decodeInteger data offset prefixBits = .error (.valueError message)) ∧
      (¬ truncated →
        ∃ value consumed, decodeInteger data offset prefixBits = .ok (value, consumed)) := by
  intro truncated
  obtain ⟨offset, rfl⟩ := Int.eq_ofNat_of_zero_le nonnegative
  obtain ⟨prefixBits, rfl⟩ := Int.eq_ofNat_of_zero_le (show 0 ≤ prefixBits by omega)
  have valid : 1 ≤ (prefixBits : Int) ∧ (prefixBits : Int) ≤ 8 := by omega
  by_cases past : data.length ≤ offset
  · have raises : decodeInteger data offset prefixBits =
        .error (.valueError "offset beyond data length") := by
      rw [decodeInteger, if_neg (not_not.mpr valid), if_pos (by omega)]
    exact ⟨fun _ => ⟨_, raises⟩, fun untruncated => absurd (.inl (by omega)) untruncated⟩
  have inside : offset < data.length := by omega
  have unfinished : truncated ↔ readPrefixedInteger prefixBits (data.drop offset) = none := by
    have highBits : ∀ byte : UInt8, byte.toNat &&& 0x80 ≠ 0 ↔ 128 ≤ byte.toNat := fun byte => by
      rw [Ne, and_0x80_eq_zero_iff byte.toNat_lt_size]
      omega
    simp only [truncated, Int.toNat_ofNat, List.getElem?_eq_getElem inside, Option.some.injEq,
      exists_eq_left', Nat.and_pow_two_sub_one_eq_mod, highBits,
      List.drop_eq_getElem_cons inside, readPrefixedInteger_eq_none_iff]
    exact or_iff_right (by omega)
  rw [decodeInteger_eq_read (by omega) (by omega) inside]
  cases reading : readPrefixedInteger prefixBits (data.drop offset) with
  | none =>
      exact ⟨fun _ => ⟨_, rfl⟩, fun untruncated => absurd (unfinished.mpr reading) untruncated⟩
  | some result =>
      refine ⟨fun cut => ?_, fun _ => ⟨_, _, rfl⟩⟩
      rw [unfinished, reading] at cut
      cases cut

/-- `1F 80` at a 5-bit prefix is truncated: the prefix is at 31 and `80` ends nothing. -/
theorem decodeInteger_raises_on_1F_80 :
    (0 ≤ (0 : Int) ∧ 1 ≤ (5 : Int) ∧ (5 : Int) ≤ 8) ∧
      ∃ message, decodeInteger [0x1F, 0x80] 0 5 = .error (.valueError message) :=
  ⟨⟨by decide, by decide, by decide⟩,
    (decodeInteger_raises_iff_truncated [0x1F, 0x80] 0 5 (by decide) (by decide) (by decide)).1
      (.inr ⟨0x1F, rfl, by decide, by decide⟩)⟩

end ManualQpack
