import ManualQpack.Invariant

namespace ManualQpack

/-!
# The tracker called directly

`ManualQpackEncoder.table` hands out the encoder's own `DynamicTableTracker`,
so a harness can call `set_capacity`, `insert` and `duplicate` on it between
encoder calls.  Unlike the encoder, the tracker takes any integer as a
capacity; a negative one evicts every entry.

Two laws hold of the tracker for every table and every argument:

* two capacity changes in a row leave the entries one change to the smaller
  capacity would leave (`setCapacity_setCapacity`), so lowering the capacity
  for a moment evicts for good;
* whatever a harness interleaves, encoder calls or direct tracker calls, the
  table fits its capacity or is empty (`WithinCapacity`, kept by every step),
  and its entries are the newest pairs inserted through either path, counted
  by the insert count (`HistoryMatches`, extended by every step).
-/

/-! ## Two capacity changes -/

/-- A prefix weighs no more than the list it starts. -/
theorem totalSize_le_of_prefix {kept entries : List DynamicTableEntry}
    (leading : kept <+: entries) : totalSize kept ≤ totalSize entries := by
  obtain ⟨rest, rfl⟩ := leading
  induction kept with
  | nil => simp
  | cons entry kept inductionHypothesis =>
      simp only [List.cons_append, totalSize_cons]
      omega

/--
The longest prefix within `second` of the longest prefix within `first` is the
longest prefix within the smaller of the two budgets.
-/
theorem LongestPrefixWithin.trans {first second : Int}
    {entries middle kept : List DynamicTableEntry}
    (outer : LongestPrefixWithin first entries middle)
    (inner : LongestPrefixWithin second middle kept) :
    LongestPrefixWithin (min first second) entries kept where
  leading := inner.leading.trans outer.leading
  fits := by
    have keptLighter := totalSize_le_of_prefix inner.leading
    have := outer.fits
    have := inner.fits
    omega
  maximal other otherLeading otherFits := by
    have withinFirst := outer.maximal other otherLeading (by omega)
    exact inner.maximal other
      (List.prefix_of_prefix_length_le otherLeading outer.leading withinFirst) (by omega)

namespace DynamicTableTracker

/-- `set_capacity` on an empty table only sets the capacity. -/
theorem setCapacity_of_empty (self : DynamicTableTracker) (empty : self.entries = [])
    (capacity : Int) :
    self.setCapacity capacity = { entries := [], capacity, insertCount := self.insertCount } := by
  obtain ⟨kept, evicted, leading, -⟩ :=
    evict_spec { self with capacity } (List.prefix_refl _) (LongerExceed.refl _ _)
  rw [empty, List.prefix_nil] at leading
  rw [setCapacity, evicted, leading]

/-- A negative capacity evicts every entry. -/
theorem setCapacity_of_negative (self : DynamicTableTracker) {capacity : Int}
    (negative : capacity < 0) :
    self.setCapacity capacity = { entries := [], capacity, insertCount := self.insertCount } := by
  obtain ⟨kept, evicted, -, -, fitsOrEmpty⟩ :=
    evict_spec { self with capacity } (List.prefix_refl _) (LongerExceed.refl _ _)
  rw [setCapacity, evicted,
    fitsOrEmpty.resolve_left (show ¬ ((totalSize kept : Int) ≤ capacity) by omega)]

/--
For every table and every two capacities, negative ones included,
`set_capacity(first)` and then `set_capacity(second)` leave the entries that
`set_capacity(min(first, second))` leaves, under the capacity `second`.
-/
theorem setCapacity_setCapacity (self : DynamicTableTracker) (first second : Int) :
    (self.setCapacity first).setCapacity second =
      { self.setCapacity (min first second) with capacity := second } := by
  by_cases secondNegative : second < 0
  · rw [setCapacity_of_negative _ secondNegative,
      setCapacity_of_negative _ (min_lt_of_right_lt secondNegative), setCapacity_insertCount]
  by_cases firstNegative : first < 0
  · rw [setCapacity_of_negative _ firstNegative, setCapacity_of_empty _ rfl,
      min_eq_left (by omega), setCapacity_of_negative _ firstNegative]
  obtain ⟨middle, resized, outer⟩ := self.setCapacity_spec (show 0 ≤ first by omega)
  obtain ⟨kept, resizedAgain, inner⟩ :=
    (self.setCapacity first).setCapacity_spec (show 0 ≤ second by omega)
  obtain ⟨least, resizedLeast, longest⟩ :=
    self.setCapacity_spec (show 0 ≤ min first second by omega)
  rw [resized] at inner
  rw [resizedAgain, resizedLeast, setCapacity_insertCount, (outer.trans inner).unique longest]

end DynamicTableTracker

/-! ## The tracker as a state machine of its own -/

/-- One call a harness makes on the tracker itself. -/
inductive TrackerCall where
  | setCapacity (capacity : Int)
  | insert (name value : Bytes)
  | duplicate (relativeIndex : Int)
  deriving Repr, DecidableEq

/-- One step of a harness: an encoder call, or a call on the tracker `encoder.table` returns. -/
inductive HarnessCall where
  | encoder (request : EncoderCall)
  | table (request : TrackerCall)
  deriving Repr, DecidableEq

namespace DynamicTableTracker

/-- One call on the tracker; `set_capacity` has no failure path. -/
def call (self : DynamicTableTracker) : TrackerCall → Outcome DynamicTableTracker Unit
  | .setCapacity capacity => .returned () (self.setCapacity capacity)
  | .insert name value => self.insert name value
  | .duplicate relativeIndex => self.duplicate relativeIndex

/-- The table fits its capacity, or is empty, as it is under a negative capacity. -/
def WithinCapacity (self : DynamicTableTracker) : Prop :=
  (self.currentSize : Int) ≤ self.capacity ∨ self.entries = []

/-- `set_capacity` leaves the table within its capacity, whatever it was before. -/
theorem setCapacity_withinCapacity (self : DynamicTableTracker) (capacity : Int) :
    (self.setCapacity capacity).WithinCapacity := by
  obtain ⟨kept, evicted, -, -, fitsOrEmpty⟩ :=
    evict_spec { self with capacity } (List.prefix_refl _) (LongerExceed.refl _ _)
  rw [setCapacity, evicted]
  exact fitsOrEmpty

/-- An entry in front of the longest prefix with room for it fits the capacity. -/
theorem withinCapacity_of_insert {entry : DynamicTableEntry}
    {entries kept : List DynamicTableEntry} {capacity : Int} (insertCount : Nat)
    (longest : LongestPrefixWithin (capacity - entry.size) entries kept) :
    WithinCapacity { entries := entry :: kept, capacity, insertCount } := by
  have keptFits := longest.fits
  left
  simp only [currentSize, totalSize_cons]
  push_cast
  omega

/-- `insert` keeps the table within its capacity, and leaves it as it was when it raises. -/
theorem insert_withinCapacity (self : DynamicTableTracker) (name value : Bytes)
    (invariant : self.WithinCapacity) : (self.insert name value).state.WithinCapacity := by
  by_cases fits : ((⟨name, value⟩ : DynamicTableEntry).size : Int) ≤ self.capacity
  · obtain ⟨kept, inserted, longest⟩ := self.insert_of_fits name value fits
    rw [inserted]
    exact withinCapacity_of_insert _ longest
  · obtain ⟨_, refused⟩ := self.insert_of_too_large name value (by omega)
    rw [refused]
    exact invariant

/-- Every call on the tracker keeps it within its capacity. -/
theorem call_withinCapacity (self : DynamicTableTracker) (request : TrackerCall)
    (invariant : self.WithinCapacity) : (self.call request).state.WithinCapacity := by
  cases request with
  | setCapacity capacity => exact self.setCapacity_withinCapacity capacity
  | insert name value => exact self.insert_withinCapacity name value invariant
  | duplicate relativeIndex =>
      by_cases outside : relativeIndex < 0 ∨ relativeIndex ≥ self.entries.length
      · simp only [call, duplicate, dif_pos outside]
        exact invariant
      · obtain ⟨index, rfl⟩ := Int.eq_ofNat_of_zero_le (show 0 ≤ relativeIndex by omega)
        simp only [call, duplicate_of_inside self (show index < self.entries.length by omega)]
        exact insert_withinCapacity _ _ _ invariant

/--
`insert` puts its pair in front of a prefix of the entries and counts it, or
raises and changes nothing.
-/
theorem insert_cases (self : DynamicTableTracker) (name value : Bytes) :
    (∃ kept, kept <+: self.entries ∧ self.insert name value = .returned ()
        { entries := ⟨name, value⟩ :: kept, capacity := self.capacity,
          insertCount := self.insertCount + 1 }) ∨
      ∃ error, self.insert name value = .raised error self := by
  by_cases fits : ((⟨name, value⟩ : DynamicTableEntry).size : Int) ≤ self.capacity
  · obtain ⟨kept, inserted, longest⟩ := self.insert_of_fits name value fits
    exact .inl ⟨kept, longest.leading, inserted⟩
  · obtain ⟨_, refused⟩ := self.insert_of_too_large name value (by omega)
    exact .inr ⟨_, refused⟩

/-- The pair a returning call inserts: `insert`'s own, or the entry `duplicate` copies. -/
def inserted (self : DynamicTableTracker) (request : TrackerCall) : Option DynamicTableEntry :=
  match self.call request, request with
  | .raised .., _ => none
  | .returned .., .setCapacity _ => none
  | .returned .., .insert name value => some ⟨name, value⟩
  | .returned .., .duplicate relativeIndex => self.entries[relativeIndex.toNat]?

/--
A call keeps a prefix of the old entries and puts the pair it inserts in front
of it, counting that insertion.
-/
theorem call_entries (self : DynamicTableTracker) (request : TrackerCall) :
    ∃ kept, kept <+: self.entries ∧
      (self.call request).state.entries = (self.inserted request).toList ++ kept ∧
      (self.call request).state.insertCount =
        self.insertCount + (self.inserted request).toList.length := by
  cases request with
  | setCapacity capacity =>
      obtain ⟨kept, evicted, leading, -⟩ :=
        evict_spec { self with capacity } (List.prefix_refl _) (LongerExceed.refl _ _)
      simp only [inserted, call, Outcome.state_returned, setCapacity, evicted]
      exact ⟨kept, leading, rfl, rfl⟩
  | insert name value =>
      rcases self.insert_cases name value with ⟨kept, leading, returns⟩ | ⟨_, raises⟩
      · simp only [inserted, call, returns, Outcome.state_returned]
        exact ⟨kept, leading, rfl, rfl⟩
      · simp only [inserted, call, raises, Outcome.state_raised]
        exact ⟨_, List.prefix_refl _, rfl, rfl⟩
  | duplicate relativeIndex =>
      by_cases outside : relativeIndex < 0 ∨ relativeIndex ≥ self.entries.length
      · simp only [inserted, call, duplicate, dif_pos outside, Outcome.state_raised]
        exact ⟨_, List.prefix_refl _, rfl, rfl⟩
      obtain ⟨index, rfl⟩ := Int.eq_ofNat_of_zero_le (show 0 ≤ relativeIndex by omega)
      have inside : index < self.entries.length := by omega
      let source := self.entries.get ⟨index, inside⟩
      rcases self.insert_cases source.name source.value with ⟨kept, leading, returns⟩ | ⟨_, raises⟩
      · simp only [inserted, call, duplicate_of_inside self inside, returns,
          Outcome.state_returned, Int.toNat_ofNat, List.getElem?_eq_getElem inside]
        exact ⟨kept, leading, rfl, rfl⟩
      · simp only [inserted, call, duplicate_of_inside self inside, raises, Outcome.state_raised]
        exact ⟨_, List.prefix_refl _, rfl, rfl⟩

end DynamicTableTracker

namespace ManualQpackEncoder

/-- One harness step: the encoder handles an encoder call, its tracker a direct one. -/
def step (self : ManualQpackEncoder) : HarnessCall → ManualQpackEncoder
  | .encoder request => (self.call request).state
  | .table request => { self with table := (self.table.call request).state }

/-- The encoder after a harness's steps, the harness catching whatever they raise. -/
def runHarness : List HarnessCall → ManualQpackEncoder → ManualQpackEncoder
  | [], self => self
  | request :: requests, self => runHarness requests (self.step request)

/-- Every encoder call keeps its table within its capacity. -/
theorem call_withinCapacity (self : ManualQpackEncoder) (request : EncoderCall)
    (invariant : self.table.WithinCapacity) : (self.call request).state.table.WithinCapacity := by
  rcases self.call_cases request with ⟨_, raises⟩ | ⟨capacity, _, -, -, -, -, returns⟩ |
      ⟨_, _, _, -, -, -, returns, longest⟩ | ⟨_, -, returns⟩
  · rw [raises]
    exact invariant
  · rw [returns]
    exact self.table.setCapacity_withinCapacity capacity
  · rw [returns]
    exact DynamicTableTracker.withinCapacity_of_insert _ longest
  · rw [returns]
    exact invariant

/-- Every harness step keeps the table within its capacity. -/
theorem step_withinCapacity (self : ManualQpackEncoder) (request : HarnessCall)
    (invariant : self.table.WithinCapacity) : (self.step request).table.WithinCapacity := by
  cases request with
  | encoder request => exact self.call_withinCapacity request invariant
  | table request => exact self.table.call_withinCapacity request invariant

/-- The pair a harness step inserts, through the encoder or directly. -/
def stepInserted (self : ManualQpackEncoder) : HarnessCall → Option DynamicTableEntry
  | .encoder request => self.inserted request
  | .table request => self.table.inserted request

/-- The pairs the returning inserting steps of a harness insert, in step order. -/
def harnessHistory : List HarnessCall → ManualQpackEncoder → List DynamicTableEntry
  | [], _ => []
  | request :: requests, self =>
      (self.stepInserted request).toList ++ harnessHistory requests (self.step request)

end ManualQpackEncoder

namespace HistoryMatches

/-- A direct tracker call extends the history by the pair it inserts. -/
theorem tableCall {table : DynamicTableTracker} {history : List DynamicTableEntry}
    (matching : HistoryMatches table history) (request : TrackerCall) :
    HistoryMatches (table.call request).state (history ++ (table.inserted request).toList) := by
  obtain ⟨kept, leading, entries, counted⟩ := table.call_entries request
  exact matching.extend leading entries counted

/-- A harness step extends the history by the pair it inserts. -/
theorem step {self : ManualQpackEncoder} {history : List DynamicTableEntry}
    (matching : HistoryMatches self.table history) (request : HarnessCall) :
    HistoryMatches (self.step request).table (history ++ (self.stepInserted request).toList) := by
  cases request with
  | encoder request => exact matching.call request
  | table request => exact matching.tableCall request

/-- A harness extends the history by the pairs its steps insert. -/
theorem runHarness {self : ManualQpackEncoder} {history : List DynamicTableEntry}
    (matching : HistoryMatches self.table history) (requests : List HarnessCall) :
    HistoryMatches (ManualQpackEncoder.runHarness requests self).table
      (history ++ ManualQpackEncoder.harnessHistory requests self) := by
  induction requests generalizing self history with
  | nil => simpa [ManualQpackEncoder.runHarness, ManualQpackEncoder.harnessHistory] using matching
  | cons request requests inductionHypothesis =>
      simpa [ManualQpackEncoder.runHarness, ManualQpackEncoder.harnessHistory] using
        inductionHypothesis (matching.step request)

end HistoryMatches

/--
Whatever a harness does from `ManualQpackEncoder(m)`, calling the encoder or
calling `set_capacity`, `insert` and `duplicate` on `encoder.table` directly,
with any arguments and whichever calls raise, the table's current size is
within its capacity, or the table is empty (as it is after a negative
capacity).
-/
theorem table_within_capacity_under_any_harness (maxTableCapacity : Int)
    (requests : List HarnessCall) :
    let table := (ManualQpackEncoder.runHarness requests (.init maxTableCapacity)).table
    (table.currentSize : Int) ≤ table.capacity ∨ table.entries = [] := by
  suffices ∀ (self : ManualQpackEncoder), self.table.WithinCapacity →
      (ManualQpackEncoder.runHarness requests self).table.WithinCapacity from
    this _ (.inr rfl)
  induction requests with
  | nil => exact fun _ invariant => invariant
  | cons request requests inductionHypothesis =>
      exact fun self invariant => inductionHypothesis _ (self.step_withinCapacity request invariant)

/--
Whatever a harness does from `ManualQpackEncoder(m)`, through the encoder or
directly on `encoder.table`, with any arguments and whichever calls raise: the
insert count is the number of pairs inserted through either path, and relative
index `i` holds the `i`-th most recent of them.
-/
theorem history_under_any_harness (maxTableCapacity : Int) (requests : List HarnessCall) :
    let self := ManualQpackEncoder.runHarness requests (.init maxTableCapacity)
    let history := ManualQpackEncoder.harnessHistory requests (.init maxTableCapacity)
    self.table.insertCount = history.length ∧
      ∀ i < self.table.entries.length,
        self.table.entries[i]? = history[self.table.insertCount - 1 - i]? := by
  intro self history
  have matching : HistoryMatches self.table history := by
    simpa using (show HistoryMatches (ManualQpackEncoder.init maxTableCapacity).table [] from
      ⟨List.nil_prefix, rfl⟩).runHarness requests
  exact ⟨matching.counted, fun _ inside => matching.getElem?_entries inside⟩

end ManualQpack
