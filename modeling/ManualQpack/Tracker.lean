import ManualQpack.Runtime

namespace ManualQpack

/-!
# The dynamic table tracker

`DynamicTableTracker` mirrors the receiver's dynamic table: entries newest
first, a capacity, and the number of insertions so far.  Both of its eviction
loops pop the oldest entry from the back of the list, one loop until the
table fits its capacity, the other until a new entry fits beside it.

Each loop keeps exactly the longest prefix of the old entries that fits its
budget (`setCapacity_spec`, `insert_of_fits`): oldest entries go first, and
no more go than necessary.  Both proofs carry one loop invariant,
`LongerExceed`: every prefix longer than what is left exceeds the budget.
-/

/-- `ENTRY_OVERHEAD`: the cost of an entry beyond its name and value (RFC 9204 §3.2.1). -/
def entryOverhead : Nat := 32

/-- `DynamicTableEntry`: one row of the dynamic table. -/
structure DynamicTableEntry where
  name : Bytes
  value : Bytes
  deriving Repr, DecidableEq

/-- `DynamicTableEntry.size`: `len(name) + len(value) + ENTRY_OVERHEAD`. -/
def DynamicTableEntry.size (entry : DynamicTableEntry) : Nat :=
  entry.name.length + entry.value.length + entryOverhead

/-- `sum(e.size for e in entries)`. -/
def totalSize : List DynamicTableEntry → Nat
  | [] => 0
  | entry :: entries => entry.size + totalSize entries

@[simp] theorem totalSize_nil : totalSize [] = 0 := rfl

@[simp] theorem totalSize_cons (entry : DynamicTableEntry) (entries : List DynamicTableEntry) :
    totalSize (entry :: entries) = entry.size + totalSize entries := rfl

/-- `DynamicTableTracker`: the mirrored table; index 0 of `entries` is the newest entry. -/
structure DynamicTableTracker where
  entries : List DynamicTableEntry
  capacity : Int
  insertCount : Nat
  deriving Repr, DecidableEq

namespace DynamicTableTracker

/-- `DynamicTableTracker()`: no entries, capacity 0, nothing inserted. -/
def init : DynamicTableTracker where
  entries := []
  capacity := 0
  insertCount := 0

/-- `current_size()`. -/
def currentSize (self : DynamicTableTracker) : Nat :=
  totalSize self.entries

/-- `self.entries.pop()` on a non-empty table: drop the oldest entry. -/
def popOldest (self : DynamicTableTracker) : DynamicTableTracker :=
  { self with entries := self.entries.dropLast }

/-- Popping a non-empty table shortens it. -/
theorem popOldest_shorter {self : DynamicTableTracker} (nonempty : self.entries ≠ []) :
    self.popOldest.entries.length < self.entries.length := by
  have positive := List.length_pos.mpr nonempty
  simp only [popOldest, List.length_dropLast]
  omega

/-- `_evict`: pop the oldest entry while the table exceeds its capacity and is not empty. -/
def evict (self : DynamicTableTracker) : DynamicTableTracker :=
  if self.currentSize > self.capacity ∧ self.entries ≠ [] then
    evict self.popOldest
  else
    self
termination_by self.entries.length
decreasing_by exact popOldest_shorter ‹_ ∧ _›.2

/-- `set_capacity(capacity)`: it has no failure path. -/
def setCapacity (self : DynamicTableTracker) (capacity : Int) : DynamicTableTracker :=
  evict { self with capacity }

/--
The `while` loop of `insert`: pop the oldest entry while an entry of size
`entrySize` would not fit beside the others; popping an empty list raises.
-/
def makeRoom (entrySize : Nat) (self : DynamicTableTracker) :
    Outcome DynamicTableTracker Unit :=
  if self.currentSize + entrySize > self.capacity then
    if self.entries ≠ [] then
      makeRoom entrySize self.popOldest
    else
      .raised (.indexError "pop from empty list") self
  else
    .returned () self
termination_by self.entries.length
decreasing_by exact popOldest_shorter ‹self.entries ≠ []›

/-- `insert(name, value)`. -/
def insert (self : DynamicTableTracker) (name value : Bytes) :
    Outcome DynamicTableTracker Unit :=
  let entry : DynamicTableEntry := { name, value }
  let entrySize := entry.size
  let capacity := self.capacity
  if entrySize > capacity then
    .raised (.valueError s!"entry size {entrySize} exceeds table capacity {capacity}") self
  else
    (makeRoom entrySize self).andThen fun () self =>
      .returned () { self with
        entries := entry :: self.entries
        insertCount := self.insertCount + 1 }

/-- `duplicate(relative_index)`: insert a copy of a present entry. -/
def duplicate (self : DynamicTableTracker) (relativeIndex : Int) :
    Outcome DynamicTableTracker Unit :=
  let count := self.entries.length
  if outside : relativeIndex < 0 ∨ relativeIndex ≥ count then
    .raised (.valueError
      s!"relative index {relativeIndex} out of range (table has {count} entries)") self
  else
    let source := self.entries.get ⟨relativeIndex.toNat, by omega⟩
    self.insert source.name source.value

end DynamicTableTracker

/-! ## Longest fitting prefixes -/

/-- `kept` is the longest prefix of `entries` whose total size is at most `budget`. -/
structure LongestPrefixWithin (budget : Int) (entries kept : List DynamicTableEntry) :
    Prop where
  leading : kept <+: entries
  fits : (totalSize kept : Int) ≤ budget
  maximal : ∀ other, other <+: entries → (totalSize other : Int) ≤ budget →
    other.length ≤ kept.length

/-- Every prefix of `entries` longer than `current` exceeds the budget. -/
def LongerExceed (budget : Int) (entries current : List DynamicTableEntry) : Prop :=
  ∀ other, other <+: entries → current.length < other.length → budget < totalSize other

namespace LongerExceed

/-- Before any eviction no prefix is longer. -/
theorem refl (budget : Int) (entries : List DynamicTableEntry) :
    LongerExceed budget entries entries :=
  fun _ leading longer => absurd leading.length_le (by omega)

/-- Popping a prefix that exceeds the budget keeps the invariant. -/
theorem dropLast {budget : Int} {entries current : List DynamicTableEntry}
    (leading : current <+: entries) (invariant : LongerExceed budget entries current)
    (exceeds : budget < totalSize current) :
    LongerExceed budget entries current.dropLast := by
  intro other otherLeading longer
  rw [List.length_dropLast] at longer
  by_cases sameLength : other.length = current.length
  · have same : other = current :=
      (List.prefix_of_prefix_length_le otherLeading leading sameLength.le).eq_of_length
        sameLength
    rwa [same]
  · exact invariant other otherLeading (by omega)

/-- Where the loop stops at a prefix that fits, that prefix is the longest that fits. -/
theorem longest {budget : Int} {entries current : List DynamicTableEntry}
    (leading : current <+: entries) (invariant : LongerExceed budget entries current)
    (fits : (totalSize current : Int) ≤ budget) :
    LongestPrefixWithin budget entries current where
  leading := leading
  fits := fits
  maximal other otherLeading otherFits := by
    by_contra longer
    have exceeds := invariant other otherLeading (by omega)
    omega

end LongerExceed

/-- Two longest fitting prefixes of one list are the same list. -/
theorem LongestPrefixWithin.unique {budget : Int} {entries first second : List DynamicTableEntry}
    (one : LongestPrefixWithin budget entries first)
    (other : LongestPrefixWithin budget entries second) : first = second := by
  have sameLength : first.length = second.length :=
    le_antisymm (other.maximal first one.leading one.fits)
      (one.maximal second other.leading other.fits)
  exact (List.prefix_of_prefix_length_le one.leading other.leading sameLength.le).eq_of_length
    sameLength

namespace DynamicTableTracker

/-- `_evict` changes only the entries, and stops at a prefix that fits or at an empty table. -/
theorem evict_spec {entries : List DynamicTableEntry} (self : DynamicTableTracker)
    (leading : self.entries <+: entries)
    (invariant : LongerExceed self.capacity entries self.entries) :
    ∃ kept, evict self = { self with entries := kept } ∧ kept <+: entries ∧
      LongerExceed self.capacity entries kept ∧
      ((totalSize kept : Int) ≤ self.capacity ∨ kept = []) := by
  induction self using evict.induct with
  | case1 self evicting inductionHypothesis =>
      rw [evict, if_pos evicting]
      exact inductionHypothesis ((List.dropLast_prefix _).trans leading)
        (invariant.dropLast leading evicting.1)
  | case2 self stopping =>
      rw [evict, if_neg stopping]
      refine ⟨self.entries, rfl, leading, invariant, ?_⟩
      rw [not_and_or, not_not] at stopping
      rcases stopping with fits | empty
      · exact .inl (by simp only [currentSize] at fits; omega)
      · exact .inr empty

/--
`set_capacity(c)` for `c ≥ 0` sets the capacity to `c` and keeps the longest
prefix of the old entries that fits in it.
-/
theorem setCapacity_spec (self : DynamicTableTracker) {capacity : Int}
    (nonnegative : 0 ≤ capacity) :
    ∃ kept, self.setCapacity capacity =
        { entries := kept, capacity, insertCount := self.insertCount } ∧
      LongestPrefixWithin capacity self.entries kept := by
  obtain ⟨kept, evicted, leading, invariant, fitsOrEmpty⟩ :=
    evict_spec { self with capacity } (List.prefix_refl _) (LongerExceed.refl _ _)
  refine ⟨kept, evicted, invariant.longest leading ?_⟩
  rcases fitsOrEmpty with fits | rfl
  · exact fits
  · simpa using nonnegative

/-- The capacity `set_capacity` leaves, for any argument. -/
@[simp] theorem setCapacity_capacity (self : DynamicTableTracker) (capacity : Int) :
    (self.setCapacity capacity).capacity = capacity := by
  obtain ⟨kept, evicted, -⟩ :=
    evict_spec { self with capacity } (List.prefix_refl _) (LongerExceed.refl _ _)
  rw [setCapacity, evicted]

/-- The insertion count `set_capacity` leaves, for any argument. -/
@[simp] theorem setCapacity_insertCount (self : DynamicTableTracker) (capacity : Int) :
    (self.setCapacity capacity).insertCount = self.insertCount := by
  obtain ⟨kept, evicted, -⟩ :=
    evict_spec { self with capacity } (List.prefix_refl _) (LongerExceed.refl _ _)
  rw [setCapacity, evicted]

/--
The eviction loop of `insert`, started where the new entry fits the capacity,
returns, leaving the longest prefix with room for the entry.
-/
theorem makeRoom_spec {entries : List DynamicTableEntry} (entrySize : Nat)
    (self : DynamicTableTracker) (roomy : entrySize ≤ self.capacity)
    (leading : self.entries <+: entries)
    (invariant : LongerExceed (self.capacity - entrySize) entries self.entries) :
    ∃ kept, makeRoom entrySize self = .returned () { self with entries := kept } ∧
      LongestPrefixWithin (self.capacity - entrySize) entries kept := by
  induction self using makeRoom.induct entrySize with
  | case1 self crowded nonempty inductionHypothesis =>
      rw [makeRoom, if_pos crowded, if_pos nonempty]
      exact inductionHypothesis roomy ((List.dropLast_prefix _).trans leading)
        (invariant.dropLast leading
          (show self.capacity - entrySize < totalSize self.entries by
            simp only [currentSize] at crowded; omega))
  | case2 self crowded empty =>
      rw [not_not] at empty
      simp [currentSize, empty] at crowded
      omega
  | case3 self spacious =>
      rw [makeRoom, if_neg spacious]
      exact ⟨self.entries, rfl,
        invariant.longest leading (by simp only [currentSize] at spacious; omega)⟩

/--
An entry that fits the capacity is inserted in front of the longest prefix of
the old entries that leaves room for it; the count goes up by one.
-/
theorem insert_of_fits (self : DynamicTableTracker) (name value : Bytes)
    (fits : ((⟨name, value⟩ : DynamicTableEntry).size : Int) ≤ self.capacity) :
    ∃ kept, self.insert name value =
        .returned ()
          { entries := ⟨name, value⟩ :: kept, capacity := self.capacity,
            insertCount := self.insertCount + 1 } ∧
      LongestPrefixWithin (self.capacity - (⟨name, value⟩ : DynamicTableEntry).size)
        self.entries kept := by
  obtain ⟨kept, roomMade, longest⟩ :=
    makeRoom_spec _ self fits (List.prefix_refl _) (LongerExceed.refl _ _)
  refine ⟨kept, ?_, longest⟩
  rw [insert]
  simp only [if_neg (Int.not_lt.mpr fits), roomMade, Outcome.returned_andThen]

/-- An entry larger than the capacity is refused, and the table is left as it was. -/
theorem insert_of_too_large (self : DynamicTableTracker) (name value : Bytes)
    (large : self.capacity < (⟨name, value⟩ : DynamicTableEntry).size) :
    ∃ message, self.insert name value = .raised (.valueError message) self := by
  rw [insert]
  exact ⟨_, if_pos large⟩

/-- `duplicate` of a present entry is `insert` of its name and value. -/
theorem duplicate_of_inside (self : DynamicTableTracker) {index : Nat}
    (inside : index < self.entries.length) :
    self.duplicate index =
      self.insert (self.entries.get ⟨index, inside⟩).name
        (self.entries.get ⟨index, inside⟩).value := by
  rw [duplicate, dif_neg (by omega)]
  rfl

/-- Whatever the table, `insert` raises nothing but its entry-too-large `ValueError`. -/
theorem insert_raised_valueError (self : DynamicTableTracker) {name value : Bytes}
    {error : PyError} {after : DynamicTableTracker}
    (raises : self.insert name value = .raised error after) :
    ∃ message, error = .valueError message := by
  by_cases fits : ((⟨name, value⟩ : DynamicTableEntry).size : Int) ≤ self.capacity
  · obtain ⟨_, inserted, -⟩ := self.insert_of_fits name value fits
    rw [inserted] at raises
    cases raises
  · obtain ⟨message, refused⟩ := self.insert_of_too_large name value (by omega)
    rw [refused] at raises
    cases raises
    exact ⟨message, rfl⟩

/-- Whatever the table, `duplicate` raises nothing but a `ValueError`. -/
theorem duplicate_raised_valueError (self : DynamicTableTracker) {relativeIndex : Int}
    {error : PyError} {after : DynamicTableTracker}
    (raises : self.duplicate relativeIndex = .raised error after) :
    ∃ message, error = .valueError message := by
  by_cases outside : relativeIndex < 0 ∨ relativeIndex ≥ self.entries.length
  · rw [duplicate, dif_pos outside] at raises
    cases raises
    exact ⟨_, rfl⟩
  · obtain ⟨index, rfl⟩ := Int.eq_ofNat_of_zero_le (show 0 ≤ relativeIndex by omega)
    rw [duplicate_of_inside self (show index < self.entries.length by omega)] at raises
    exact insert_raised_valueError self raises

/--
For any table: an entry no larger than the capacity is inserted without error
in front of the longest prefix of the old entries that leaves room for it, and
`set_capacity(c)` for `c ≥ 0` keeps the longest prefix that fits in `c`.
-/
theorem eviction_keeps_longest_fit (self : DynamicTableTracker) :
    (∀ name value : Bytes,
      ((name.length + value.length + entryOverhead : Nat) : Int) ≤ self.capacity →
      ∃ kept, self.insert name value =
          .returned ()
            { entries := ⟨name, value⟩ :: kept, capacity := self.capacity,
              insertCount := self.insertCount + 1 } ∧
        LongestPrefixWithin
          (self.capacity - (name.length + value.length + entryOverhead : Nat)) self.entries kept) ∧
    (∀ capacity : Int, 0 ≤ capacity →
      ∃ kept, self.setCapacity capacity =
          { entries := kept, capacity, insertCount := self.insertCount } ∧
        LongestPrefixWithin capacity self.entries kept) :=
  ⟨fun name value fits => self.insert_of_fits name value fits,
    fun _ nonnegative => self.setCapacity_spec nonnegative⟩

/--
The two eviction loops on a table of two entries, sizes 34 and 33 at
capacity 100: a 33-byte entry goes in front of both, and capacity 40 keeps
only the newer one.
-/
theorem eviction_keeps_longest_fit_on_two_entries :
    (∃ kept, (⟨[⟨[1], [2]⟩, ⟨[3], []⟩], 100, 2⟩ : DynamicTableTracker).insert [5] [] =
        .returned ()
          { entries := ⟨[5], []⟩ :: kept, capacity := 100, insertCount := 2 + 1 } ∧
      LongestPrefixWithin (100 - ([5].length + ([] : Bytes).length + entryOverhead : Nat))
        [⟨[1], [2]⟩, ⟨[3], []⟩] kept) ∧
    (∃ kept, (⟨[⟨[1], [2]⟩, ⟨[3], []⟩], 100, 2⟩ : DynamicTableTracker).setCapacity 40 =
        { entries := kept, capacity := 40, insertCount := 2 } ∧
      LongestPrefixWithin 40 [⟨[1], [2]⟩, ⟨[3], []⟩] kept) :=
  ⟨(eviction_keeps_longest_fit ⟨[⟨[1], [2]⟩, ⟨[3], []⟩], 100, 2⟩).1 [5] [] (by decide),
    (eviction_keeps_longest_fit ⟨[⟨[1], [2]⟩, ⟨[3], []⟩], 100, 2⟩).2 40 (by decide)⟩

end DynamicTableTracker

end ManualQpack
