import ManualQpack.Encoder

namespace ManualQpack

/-!
# Invariants of reachable encoders

Three facts hold along every run of the encoder, whatever the harness calls
and whichever calls raise:

* the table fits its capacity (`TableFits`, kept by `call_tableFits`);
* each call raises exactly when its documented check fails
  (`DocumentedRefusal`, `call_raised_iff`), and then changes nothing; a
  duplicated entry always fits, so the tracker's own size check is never what
  refuses a duplicate;
* relative index `i` is the `i`-th most recent surviving insertion
  (`HistoryMatches`), and the number of evicted insertions never goes down
  (`evicted_le_call`).

Each is a step lemma over `call_cases` and an induction over the run.
-/

/-- A table whose entries fit a non-negative capacity. -/
structure TableFits (table : DynamicTableTracker) : Prop where
  nonnegative : 0 ≤ table.capacity
  fits : (totalSize table.entries : Int) ≤ table.capacity

/-- An entry of a list is no larger than the whole list. -/
theorem size_le_totalSize {entry : DynamicTableEntry} :
    ∀ {entries : List DynamicTableEntry}, entry ∈ entries → entry.size ≤ totalSize entries
  | first :: rest, member => by
      rcases List.mem_cons.mp member with rfl | later
      · simp
      · have := size_le_totalSize later
        simp only [totalSize_cons]
        omega

namespace ManualQpackEncoder

/-- One call keeps the table within its capacity. -/
theorem call_tableFits {self : ManualQpackEncoder} (request : EncoderCall)
    (invariant : TableFits self.table) : TableFits (self.call request).state.table := by
  rcases self.call_cases request with ⟨error, raises⟩ |
      ⟨capacity, _, -, nonnegative, -, -, returns⟩ |
      ⟨entry, _, kept, -, fits, -, returns, longest⟩ | ⟨_, -, returns⟩
  · rw [raises]
    exact invariant
  · rw [returns]
    obtain ⟨kept, resized, longest⟩ := self.table.setCapacity_spec nonnegative
    simp only [Outcome.state_returned, resized]
    exact ⟨nonnegative, longest.fits⟩
  · rw [returns, Outcome.state_returned]
    have keptFits := longest.fits
    exact ⟨invariant.nonnegative, by simp only [totalSize_cons]; push_cast; omega⟩
  · rw [returns]
    exact invariant

/-- Every reachable encoder's table fits its capacity. -/
theorem Reachable.tableFits {self : ManualQpackEncoder} (reachable : Reachable self) :
    TableFits self.table := by
  induction reachable with
  | init => exact ⟨le_refl 0, le_refl 0⟩
  | call request _ inductionHypothesis => exact call_tableFits request inductionHypothesis

end ManualQpackEncoder

/--
Along every run from `ManualQpackEncoder(m)`, for any `m` and any calls,
raising or not: the capacity is not negative, the current size is within it,
and so is every present entry's size.
-/
theorem table_fits_capacity (maxTableCapacity : Int) (requests : List EncoderCall) :
    let table := (ManualQpackEncoder.run requests (.init maxTableCapacity)).table
    0 ≤ table.capacity ∧ (table.currentSize : Int) ≤ table.capacity ∧
      ∀ entry ∈ table.entries, (entry.size : Int) ≤ table.capacity := by
  have invariant := ((ManualQpackEncoder.Reachable.init maxTableCapacity).run requests).tableFits
  refine ⟨invariant.nonnegative, invariant.fits, fun entry member => ?_⟩
  have := size_le_totalSize member
  have := invariant.fits
  omega

/-! ## Raising exactly when a documented check fails -/

/-- On a table that fits its capacity, the tracker's `duplicate` of a present entry returns. -/
theorem TableFits.duplicate_not_raised {table : DynamicTableTracker} (invariant : TableFits table)
    {relativeIndex : Int} (nonnegative : 0 ≤ relativeIndex)
    (inside : relativeIndex < table.entries.length) : ¬ (table.duplicate relativeIndex).Raised := by
  obtain ⟨index, rfl⟩ := Int.eq_ofNat_of_zero_le nonnegative
  have inside : index < table.entries.length := by omega
  have copied := size_le_totalSize (List.get_mem table.entries index inside)
  have fits : ((table.entries.get ⟨index, inside⟩).size : Int) ≤ table.capacity := by
    have := invariant.fits
    omega
  obtain ⟨kept, inserted, -⟩ := table.insert_of_fits _ _ fits
  rw [DynamicTableTracker.duplicate_of_inside _ inside, inserted]
  exact id

namespace ManualQpackEncoder

/--
The check a call documents fails: `set_capacity` outside `[0, max_table_capacity]`,
an index outside the static table's `0..98` or the present entries, or an entry
larger than the capacity, its name read from the tables at the index
(`referencedName`).  The `max_table_capacity` setter checks nothing.
-/
def DocumentedRefusal (self : ManualQpackEncoder) : EncoderCall → Prop
  | .setCapacity capacity => capacity < 0 ∨ capacity > self.maxTableCapacity
  | .insertNameRef index value isStatic =>
      (if isStatic then index < 0 ∨ index > 98
        else index < 0 ∨ index ≥ self.table.entries.length) ∨
      match self.referencedName index isStatic with
      | some name => ((name.length + value.length + 32 : Nat) : Int) > self.table.capacity
      | none => False
  | .insertLiteral name value =>
      ((name.length + value.length + 32 : Nat) : Int) > self.table.capacity
  | .duplicate relativeIndex => relativeIndex < 0 ∨ relativeIndex ≥ self.table.entries.length
  | .setMaxTableCapacity _ => False

/-- `insert_name_ref` fails to resolve a name exactly when its index is out of range. -/
theorem resolveName_error_iff (self : ManualQpackEncoder) (index : Int) (isStatic : Bool) :
    (∃ error, self.resolveName index isStatic = .error error) ↔
      if isStatic then index < 0 ∨ index > 98
      else index < 0 ∨ index ≥ self.table.entries.length := by
  unfold resolveName
  cases isStatic <;> simp only [Bool.false_eq_true, ite_true, ite_false] <;> split <;>
    rename_i condition <;> simp [staticTableSize_eq] at condition ⊢ <;> omega

/-- A call whose entry resolves raises exactly when the entry is larger than the capacity. -/
theorem call_raised_iff_of_resolvedEntry (self : ManualQpackEncoder) {request : EncoderCall}
    {entry : DynamicTableEntry} (resolved : self.resolvedEntry request = some entry) :
    (self.call request).Raised ↔ self.table.capacity < entry.size := by
  by_cases fits : (entry.size : Int) ≤ self.table.capacity
  · obtain ⟨_, _, -, returns, -⟩ := (self.call_of_resolvedEntry resolved).1 fits
    simp only [returns, Outcome.raised_returned, false_iff, not_lt, fits]
  · obtain ⟨_, raises⟩ := (self.call_of_resolvedEntry resolved).2 (by omega)
    simp only [raises, Outcome.raised_raised, true_iff]
    omega

/-- On a table that fits its capacity, a call raises exactly when its documented check fails. -/
theorem call_raised_iff {self : ManualQpackEncoder} (invariant : TableFits self.table)
    (request : EncoderCall) : (self.call request).Raised ↔ self.DocumentedRefusal request := by
  cases request with
  | setCapacity capacity =>
      by_cases refused : capacity < 0 ∨ capacity > self.maxTableCapacity
      · obtain ⟨_, raises⟩ := self.call_setCapacity_of_refused refused
        simp only [raises, Outcome.raised_raised, DocumentedRefusal, refused]
      · obtain ⟨_, -, returns⟩ := self.call_setCapacity_of_allowed (show 0 ≤ capacity by omega) (by omega)
        simp only [returns, Outcome.raised_returned, DocumentedRefusal, refused]
  | insertNameRef index value isStatic =>
      cases naming : self.resolveName index isStatic with
      | error error =>
          refine iff_of_true (by simp only [call, insertNameRef, naming, Outcome.raised_raised])
            (.inl ((self.resolveName_error_iff index isStatic).mp ⟨error, naming⟩))
      | ok name =>
          have inRange : ¬ if isStatic then index < 0 ∨ index > 98
              else index < 0 ∨ index ≥ self.table.entries.length := fun outside => by
            obtain ⟨_, fails⟩ := (self.resolveName_error_iff index isStatic).mpr outside
            rw [naming] at fails
            cases fails
          have referenced : self.referencedName index isStatic = some name := by
            rw [← resolveName_toOption, naming]
            rfl
          rw [self.call_raised_iff_of_resolvedEntry
            (show self.resolvedEntry (.insertNameRef index value isStatic) = some ⟨name, value⟩ by
              simp [resolvedEntry, referenced]), DocumentedRefusal,
            or_iff_right inRange, referenced]
          exact Iff.rfl
  | insertLiteral name value =>
      rw [self.call_raised_iff_of_resolvedEntry
        (show self.resolvedEntry (.insertLiteral name value) = some ⟨name, value⟩ from rfl)]
      exact Iff.rfl
  | duplicate relativeIndex =>
      by_cases outside : relativeIndex < 0 ∨ relativeIndex ≥ self.table.entries.length
      · exact iff_of_true (by simp only [call, duplicate, if_pos outside, Outcome.raised_raised])
          outside
      · obtain ⟨index, rfl⟩ := Int.eq_ofNat_of_zero_le (by omega : 0 ≤ relativeIndex)
        have inside : index < self.table.entries.length := by omega
        have copied := size_le_totalSize (List.getElem_mem inside)
        rw [self.call_raised_iff_of_resolvedEntry
          (show self.resolvedEntry (.duplicate index) = some self.table.entries[index] by
            simp [resolvedEntry, inside, Int.natCast_nonneg])]
        have := invariant.fits
        exact iff_of_false (by omega) outside
  | setMaxTableCapacity value => exact iff_of_false id id

end ManualQpackEncoder

/--
For every encoder reachable from `ManualQpackEncoder(m)` and every call: the
call raises exactly when its documented check fails; a raising call leaves the
encoder as it was; and the tracker's `duplicate` of a present entry never
raises, so its entry-too-large branch is unreachable through `duplicate`.
-/
theorem call_raised_iff_documented (maxTableCapacity : Int) (requests : List EncoderCall)
    (request : EncoderCall) :
    let self := ManualQpackEncoder.run requests (.init maxTableCapacity)
    ((self.call request).Raised ↔ self.DocumentedRefusal request) ∧
    ((self.call request).Raised → (self.call request).state = self) ∧
    ∀ relativeIndex : Int, 0 ≤ relativeIndex → relativeIndex < self.table.entries.length →
      ¬ (self.table.duplicate relativeIndex).Raised := by
  have invariant := ((ManualQpackEncoder.Reachable.init maxTableCapacity).run requests).tableFits
  exact ⟨ManualQpackEncoder.call_raised_iff invariant request,
    ManualQpackEncoder.call_raised_state _ request,
    fun _ nonnegative inside => invariant.duplicate_not_raised nonnegative inside⟩

/-! ## The insertion history -/

namespace ManualQpackEncoder

/-- The pair a call inserts: the entry it resolves, when it returns. -/
def inserted (self : ManualQpackEncoder) (request : EncoderCall) : Option DynamicTableEntry :=
  match self.call request with
  | .returned .. => self.resolvedEntry request
  | .raised .. => none

/-- The pairs the returning inserting calls of a run insert, in call order. -/
def insertionHistory : List EncoderCall → ManualQpackEncoder → List DynamicTableEntry
  | [], _ => []
  | request :: requests, self =>
      (self.inserted request).toList ++ insertionHistory requests (self.call request).state

/--
A call keeps a prefix of the old entries and puts the pair it inserts in front
of it, counting that insertion.
-/
theorem call_entries (self : ManualQpackEncoder) (request : EncoderCall) :
    ∃ kept, kept <+: self.table.entries ∧
      (self.call request).state.table.entries = (self.inserted request).toList ++ kept ∧
      (self.call request).state.table.insertCount =
        self.table.insertCount + (self.inserted request).toList.length := by
  rcases self.call_cases request with ⟨_, raises⟩ |
      ⟨capacity, _, rfl, nonnegative, -, -, returns⟩ |
      ⟨entry, _, kept, resolved, -, -, returns, longest⟩ | ⟨_, rfl, returns⟩
  · simp only [inserted, raises, Outcome.state_raised]
    exact ⟨_, List.prefix_refl _, rfl, rfl⟩
  · obtain ⟨kept, resized, longest⟩ := self.table.setCapacity_spec nonnegative
    simp only [inserted, returns, Outcome.state_returned, resized]
    exact ⟨kept, longest.leading, rfl, rfl⟩
  · simp only [inserted, returns, Outcome.state_returned, resolved]
    exact ⟨kept, longest.leading, rfl, rfl⟩
  · simp only [inserted, returns, Outcome.state_returned]
    exact ⟨_, List.prefix_refl _, rfl, rfl⟩

/-- A call never lowers the number of evicted insertions. -/
theorem evicted_le_call (self : ManualQpackEncoder) (request : EncoderCall) :
    self.table.insertCount - self.table.entries.length ≤
      (self.call request).state.table.insertCount -
        (self.call request).state.table.entries.length := by
  obtain ⟨kept, leading, entries, counted⟩ := self.call_entries request
  have := leading.length_le
  rw [entries, counted, List.length_append]
  omega

end ManualQpackEncoder

/-- The table's entries are the newest pairs of the history, newest first, and it counts them all. -/
structure HistoryMatches (table : DynamicTableTracker) (history : List DynamicTableEntry) :
    Prop where
  newest : table.entries <+: history.reverse
  counted : table.insertCount = history.length

namespace HistoryMatches

/--
A step that puts the pair it inserts in front of a prefix of the old entries,
and counts it, extends the history by that pair.
-/
theorem extend {table next : DynamicTableTracker} {history : List DynamicTableEntry}
    (matching : HistoryMatches table history) {inserted : Option DynamicTableEntry}
    {kept : List DynamicTableEntry} (leading : kept <+: table.entries)
    (entries : next.entries = inserted.toList ++ kept)
    (counted : next.insertCount = table.insertCount + inserted.toList.length) :
    HistoryMatches next (history ++ inserted.toList) := by
  refine ⟨?_, by rw [counted, matching.counted, List.length_append]⟩
  rw [entries, List.reverse_append]
  cases inserted with
  | none => exact leading.trans matching.newest
  | some entry => exact List.cons_prefix_cons.mpr ⟨rfl, leading.trans matching.newest⟩

/-- A call extends the history by the pair it inserts. -/
theorem call {self : ManualQpackEncoder} {history : List DynamicTableEntry}
    (matching : HistoryMatches self.table history) (request : EncoderCall) :
    HistoryMatches (self.call request).state.table (history ++ (self.inserted request).toList) := by
  obtain ⟨kept, leading, entries, counted⟩ := self.call_entries request
  exact matching.extend leading entries counted

/-- A run extends the history by the pairs its calls insert. -/
theorem run {self : ManualQpackEncoder} {history : List DynamicTableEntry}
    (matching : HistoryMatches self.table history) (requests : List EncoderCall) :
    HistoryMatches (ManualQpackEncoder.run requests self).table
      (history ++ ManualQpackEncoder.insertionHistory requests self) := by
  induction requests generalizing self history with
  | nil => simpa [ManualQpackEncoder.run, ManualQpackEncoder.insertionHistory] using matching
  | cons request requests inductionHypothesis =>
      simpa [ManualQpackEncoder.run, ManualQpackEncoder.insertionHistory] using
        inductionHypothesis (matching.call request)

/-- Relative index `i` holds the `i`-th most recent pair of the history. -/
theorem getElem?_entries {table : DynamicTableTracker} {history : List DynamicTableEntry}
    (matching : HistoryMatches table history) {i : Nat} (inside : i < table.entries.length) :
    table.entries[i]? = history[table.insertCount - 1 - i]? := by
  have bounded := matching.newest.length_le
  rw [List.length_reverse] at bounded
  obtain ⟨suffix, split⟩ := matching.newest
  rw [matching.counted, ← List.getElem?_reverse (by omega), ← split,
    List.getElem?_append_left inside]

end HistoryMatches

/--
Along every run from `ManualQpackEncoder(m)`: the insert count is the number
of insertions so far, relative index `i` holds the `i`-th most recent
surviving insertion, and no call lowers the number of evicted insertions.
-/
theorem history_invariant (maxTableCapacity : Int) (requests : List EncoderCall) :
    let self := ManualQpackEncoder.run requests (.init maxTableCapacity)
    let history := ManualQpackEncoder.insertionHistory requests (.init maxTableCapacity)
    self.table.insertCount = history.length ∧
      self.table.entries.length ≤ self.table.insertCount ∧
      (∀ i < self.table.entries.length,
        self.table.entries[i]? = history[self.table.insertCount - 1 - i]?) ∧
      ∀ request, self.table.insertCount - self.table.entries.length ≤
        (self.call request).state.table.insertCount -
          (self.call request).state.table.entries.length := by
  intro self history
  have matching : HistoryMatches self.table history := by
    simpa using (show HistoryMatches (ManualQpackEncoder.init maxTableCapacity).table [] from
      ⟨List.nil_prefix, rfl⟩).run requests
  have bounded := matching.newest.length_le
  rw [List.length_reverse, ← matching.counted] at bounded
  exact ⟨matching.counted, bounded, fun _ inside => matching.getElem?_entries inside,
    self.evicted_le_call⟩

end ManualQpack
