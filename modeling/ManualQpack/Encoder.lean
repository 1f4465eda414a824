import ManualQpack.Instruction
import ManualQpack.StaticTable
import ManualQpack.Tracker

namespace ManualQpack

/-!
# The manual encoder

`ManualQpackEncoder` validates each request against its tracker, builds the
instruction bytes, and applies the matching mutation to the tracker.  A
harness drives it with any sequence of calls, catching what they raise, and
may reassign `max_table_capacity` between them; `run` is such a sequence and
`Reachable` the states it reaches.

Each call is described once, by what it does to the table
(`call_setCapacity_of_allowed`, `call_of_resolvedEntry`, ...); the invariants
and the raise conditions of the later modules are derived from these.  The
entry a call inserts is read from the tables themselves (`referencedName`,
`resolvedEntry`), and the code's lookup finds that name
(`resolveName_toOption`).
-/

/-- `ManualQpackEncoder`: the tracker it owns and the server's table-capacity ceiling. -/
structure ManualQpackEncoder where
  table : DynamicTableTracker
  maxTableCapacity : Int
  deriving Repr, DecidableEq

/-- One request a harness makes of the encoder. -/
inductive EncoderCall where
  | setCapacity (capacity : Int)
  | insertNameRef (index : Int) (value : Bytes) (isStatic : Bool)
  | insertLiteral (name value : Bytes)
  | duplicate (relativeIndex : Int)
  | setMaxTableCapacity (value : Int)
  deriving Repr, DecidableEq

/-- The instruction builder a call invokes, on the call's own arguments. -/
def EncoderCall.instruction : EncoderCall → Except PyError Bytes
  | .setCapacity capacity => setDynamicTableCapacity capacity
  | .insertNameRef index value isStatic => insertWithNameRef index value isStatic
  | .insertLiteral name value => insertWithLiteralName name value
  | .duplicate relativeIndex => ManualQpack.duplicate relativeIndex
  | .setMaxTableCapacity _ => .ok []

namespace ManualQpackEncoder

/-- `ManualQpackEncoder(max_table_capacity)`. -/
def init (maxTableCapacity : Int := 0) : ManualQpackEncoder where
  table := DynamicTableTracker.init
  maxTableCapacity := maxTableCapacity

/-- `self._table.<method>(...)` followed by `return instruction`. -/
def onTable (self : ManualQpackEncoder) (instruction : Bytes)
    (mutation : Outcome DynamicTableTracker Unit) : Outcome ManualQpackEncoder Bytes :=
  (mutation.mapState fun table => { self with table }).andThen fun () self =>
    .returned instruction self

/-- `set_capacity(capacity)`. -/
def setCapacity (self : ManualQpackEncoder) (capacity : Int) :
    Outcome ManualQpackEncoder Bytes :=
  let maxTableCapacity := self.maxTableCapacity
  if capacity < 0 then
    .raised (.valueError s!"capacity must be non-negative, got {capacity}") self
  else if capacity > maxTableCapacity then
    .raised (.valueError
      s!"capacity {capacity} exceeds server's max table capacity {maxTableCapacity}") self
  else
    match setDynamicTableCapacity capacity with
    | .error error => .raised error self
    | .ok instruction =>
        .returned instruction { self with table := self.table.setCapacity capacity }

/--
The name `insert_name_ref` resolves: `STATIC_TABLE[index][0]`, or the name of
the present entry at relative index `index`.
-/
def resolveName (self : ManualQpackEncoder) (index : Int) (isStatic : Bool) :
    Except PyError Bytes :=
  if isStatic then
    if outside : index < 0 ∨ index ≥ staticTableSize then
      let last := staticTableSize - 1
      .error (.valueError s!"static table index {index} out of range (0–{last})")
    else
      .ok (staticTable.get ⟨index.toNat, by simp only [staticTableSize] at outside; omega⟩)
  else
    let count := self.table.entries.length
    if outside : index < 0 ∨ index ≥ count then
      .error (.valueError
        s!"dynamic table relative index {index} out of range (table has {count} entries)")
    else
      .ok (self.table.entries.get ⟨index.toNat, by omega⟩).name

/-- `insert_name_ref(index, value, is_static)`. -/
def insertNameRef (self : ManualQpackEncoder) (index : Int) (value : Bytes)
    (isStatic : Bool := true) : Outcome ManualQpackEncoder Bytes :=
  match self.resolveName index isStatic with
  | .error error => .raised error self
  | .ok name =>
      let entrySize := name.length + value.length + entryOverhead
      let capacity := self.table.capacity
      if entrySize > capacity then
        .raised (.valueError s!"entry size {entrySize} exceeds table capacity {capacity}") self
      else
        match insertWithNameRef index value isStatic with
        | .error error => .raised error self
        | .ok instruction => self.onTable instruction (self.table.insert name value)

/-- `insert_literal(name, value)`. -/
def insertLiteral (self : ManualQpackEncoder) (name value : Bytes) :
    Outcome ManualQpackEncoder Bytes :=
  let entrySize := name.length + value.length + entryOverhead
  let capacity := self.table.capacity
  if entrySize > capacity then
    .raised (.valueError s!"entry size {entrySize} exceeds table capacity {capacity}") self
  else
    match insertWithLiteralName name value with
    | .error error => .raised error self
    | .ok instruction => self.onTable instruction (self.table.insert name value)

/-- `duplicate(relative_index)`. -/
def duplicate (self : ManualQpackEncoder) (relativeIndex : Int) :
    Outcome ManualQpackEncoder Bytes :=
  let count := self.table.entries.length
  if relativeIndex < 0 ∨ relativeIndex ≥ count then
    .raised (.valueError
      s!"relative index {relativeIndex} out of range (table has {count} entries)") self
  else
    match ManualQpack.duplicate relativeIndex with
    | .error error => .raised error self
    | .ok instruction => self.onTable instruction (self.table.duplicate relativeIndex)

/--
The `max_table_capacity` setter.  It returns `None`, which the harness sends
as no bytes.
-/
def setMaxTableCapacity (self : ManualQpackEncoder) (value : Int) :
    Outcome ManualQpackEncoder Bytes :=
  .returned [] { self with maxTableCapacity := value }

/-- One call of the encoder. -/
def call (self : ManualQpackEncoder) : EncoderCall → Outcome ManualQpackEncoder Bytes
  | .setCapacity capacity => self.setCapacity capacity
  | .insertNameRef index value isStatic => self.insertNameRef index value isStatic
  | .insertLiteral name value => self.insertLiteral name value
  | .duplicate relativeIndex => self.duplicate relativeIndex
  | .setMaxTableCapacity value => self.setMaxTableCapacity value

/-- The encoder after a sequence of calls, the harness catching whatever they raise. -/
def run : List EncoderCall → ManualQpackEncoder → ManualQpackEncoder
  | [], self => self
  | request :: requests, self => run requests (self.call request).state

/-- The bytes a sequence of calls emits: what each returning call returned, in order. -/
def output : List EncoderCall → ManualQpackEncoder → Bytes
  | [], _ => []
  | request :: requests, self =>
      let outcome := self.call request
      let emitted := match outcome with
        | .returned instruction _ => instruction
        | .raised .. => []
      emitted ++ output requests outcome.state

/-- The states a harness reaches from `ManualQpackEncoder(m)` for some `m`. -/
inductive Reachable : ManualQpackEncoder → Prop
  | init (maxTableCapacity : Int) : Reachable (init maxTableCapacity)
  | call {self : ManualQpackEncoder} (request : EncoderCall) :
      Reachable self → Reachable (self.call request).state

/-! ## What each call does -/

/--
The name an index refers to, read from the tables themselves:
`STATIC_TABLE[index][0]`, or the name of the entry at relative index `index`,
newest first; `none` for a negative index or one past the table's end.
-/
def referencedName (self : ManualQpackEncoder) (index : Int) (isStatic : Bool) : Option Bytes :=
  if index < 0 then none
  else if isStatic then staticTable[index.toNat]?
  else self.table.entries[index.toNat]?.map (·.name)

/--
The entry an inserting call inserts: the name its index refers to with its
value, its own name and value, or the present entry `duplicate` copies; `none`
when the index refers to no entry, and for the calls that insert nothing.
-/
def resolvedEntry (self : ManualQpackEncoder) : EncoderCall → Option DynamicTableEntry
  | .insertNameRef index value isStatic =>
      (self.referencedName index isStatic).map fun name => ⟨name, value⟩
  | .insertLiteral name value => some ⟨name, value⟩
  | .duplicate relativeIndex =>
      if relativeIndex < 0 then none else self.table.entries[relativeIndex.toNat]?
  | _ => none

/-- Inserting an entry that fits: the encoder returns the instruction with the new table. -/
theorem onTable_insert_of_fits (self : ManualQpackEncoder) (instruction name value : Bytes)
    (fits : ((⟨name, value⟩ : DynamicTableEntry).size : Int) ≤ self.table.capacity) :
    ∃ kept, self.onTable instruction (self.table.insert name value) =
        .returned instruction
          { self with
            table :=
              { entries := ⟨name, value⟩ :: kept, capacity := self.table.capacity,
                insertCount := self.table.insertCount + 1 } } ∧
      LongestPrefixWithin (self.table.capacity - (⟨name, value⟩ : DynamicTableEntry).size)
        self.table.entries kept := by
  obtain ⟨kept, inserted, longest⟩ := self.table.insert_of_fits name value fits
  exact ⟨kept, by rw [onTable, inserted]; rfl, longest⟩

/-- Inserting an entry larger than the capacity raises, the encoder unchanged. -/
theorem onTable_insert_of_too_large (self : ManualQpackEncoder) (instruction name value : Bytes)
    (large : self.table.capacity < (⟨name, value⟩ : DynamicTableEntry).size) :
    ∃ error, self.onTable instruction (self.table.insert name value) = .raised error self := by
  obtain ⟨message, refused⟩ := self.table.insert_of_too_large name value large
  exact ⟨_, by rw [onTable, refused]; rfl⟩

/-- A capacity within `[0, max_table_capacity]` is set on the table and its instruction returned. -/
theorem call_setCapacity_of_allowed (self : ManualQpackEncoder) {capacity : Int}
    (nonnegative : 0 ≤ capacity) (allowed : capacity ≤ self.maxTableCapacity) :
    ∃ instruction, setDynamicTableCapacity capacity = .ok instruction ∧
      self.call (.setCapacity capacity) =
        .returned instruction { self with table := self.table.setCapacity capacity } := by
  obtain ⟨capacity, rfl⟩ := Int.eq_ofNat_of_zero_le nonnegative
  obtain ⟨instruction, built, -⟩ := setDynamicTableCapacity_reads_back capacity []
  refine ⟨instruction, built, ?_⟩
  simp only [call, setCapacity, if_neg (Int.not_lt.mpr nonnegative),
    if_neg (Int.not_lt.mpr allowed), built]

/-- A capacity below zero or above `max_table_capacity` is refused, the encoder unchanged. -/
theorem call_setCapacity_of_refused (self : ManualQpackEncoder) {capacity : Int}
    (refused : capacity < 0 ∨ self.maxTableCapacity < capacity) :
    ∃ error, self.call (.setCapacity capacity) = .raised error self := by
  simp only [call, setCapacity]
  by_cases negative : capacity < 0
  · exact ⟨_, if_pos negative⟩
  · exact ⟨_, by rw [if_neg negative, if_pos (refused.resolve_left negative)]⟩

/-- `insert_name_ref` resolves a name only for a non-negative index. -/
theorem resolveName_nonnegative {self : ManualQpackEncoder} {index : Int} {isStatic : Bool}
    {name : Bytes} (resolved : self.resolveName index isStatic = .ok name) : 0 ≤ index := by
  by_contra negative
  unfold resolveName at resolved
  split at resolved <;> rw [dif_pos (.inl (by omega))] at resolved <;> cases resolved

/-- The code's lookup in `insert_name_ref` finds exactly the name the tables hold at the index. -/
theorem resolveName_toOption (self : ManualQpackEncoder) (index : Int) (isStatic : Bool) :
    (self.resolveName index isStatic).toOption = self.referencedName index isStatic := by
  unfold resolveName referencedName
  by_cases negative : index < 0
  · cases isStatic <;> simp [negative, Except.toOption]
  rw [if_neg negative]
  cases isStatic with
  | true =>
      simp only [ite_true, staticTableSize]
      split
      · next outside => rw [List.getElem?_eq_none (by omega)]; rfl
      · next within => rw [List.getElem?_eq_getElem (by omega)]; rfl
  | false =>
      simp only [Bool.false_eq_true, ite_false]
      split
      · next outside => rw [List.getElem?_eq_none (by omega)]; rfl
      · next within => rw [List.getElem?_eq_getElem (by omega)]; rfl

/-- A name reference inserts the name `insert_name_ref` resolves, with the call's value. -/
theorem resolvedEntry_insertNameRef (self : ManualQpackEncoder) (index : Int) (value : Bytes)
    (isStatic : Bool) :
    self.resolvedEntry (.insertNameRef index value isStatic) =
      (self.resolveName index isStatic).toOption.map fun name => ⟨name, value⟩ := by
  rw [resolvedEntry, resolveName_toOption]

/--
An inserting call whose entry resolves builds its instruction; where the entry
fits the capacity the call hands it to the tracker's `insert`, and where it
does not the call raises and leaves the encoder unchanged.
-/
theorem call_eq_insert (self : ManualQpackEncoder) {request : EncoderCall}
    {entry : DynamicTableEntry} (resolved : self.resolvedEntry request = some entry) :
    ∃ instruction, request.instruction = .ok instruction ∧
      ((entry.size : Int) ≤ self.table.capacity →
        self.call request = self.onTable instruction (self.table.insert entry.name entry.value)) ∧
      (self.table.capacity < entry.size → ∃ error, self.call request = .raised error self) := by
  cases request with
  | setCapacity => cases resolved
  | setMaxTableCapacity => cases resolved
  | insertLiteral name value =>
      cases resolved
      obtain ⟨_, _, _, _, -, -, -, built⟩ := insertWithLiteralName_eq name value
      refine ⟨_, built, fun fits => ?_,
        fun large => ⟨_, by simp only [call, insertLiteral]; exact if_pos large⟩⟩
      have fitting :
          ¬ ((name.length + value.length + entryOverhead : Nat) : Int) > self.table.capacity :=
        Int.not_lt.mpr fits
      simp only [call, insertLiteral, if_neg fitting, built]
  | insertNameRef index value isStatic =>
      cases naming : self.resolveName index isStatic with
      | error error => simp [resolvedEntry_insertNameRef, naming, Except.toOption] at resolved
      | ok name =>
          simp only [resolvedEntry_insertNameRef, naming, Except.toOption, Option.map_some',
            Option.some.injEq] at resolved
          subst resolved
          obtain ⟨index, rfl⟩ := Int.eq_ofNat_of_zero_le (resolveName_nonnegative naming)
          obtain ⟨out, built, -⟩ := insertWithNameRef_reads_back index value isStatic []
          refine ⟨out, built, fun fits => ?_,
            fun large => ⟨_, by simp only [call, insertNameRef, naming]; exact if_pos large⟩⟩
          have fitting :
              ¬ ((name.length + value.length + entryOverhead : Nat) : Int) > self.table.capacity :=
            Int.not_lt.mpr fits
          simp only [call, insertNameRef, naming, if_neg fitting, built]
  | duplicate relativeIndex =>
      simp only [resolvedEntry] at resolved
      split at resolved
      · cases resolved
      · next nonnegative =>
          obtain ⟨index, rfl⟩ := Int.eq_ofNat_of_zero_le (Int.not_lt.mp nonnegative)
          rw [Int.toNat_ofNat] at resolved
          obtain ⟨inside, atIndex⟩ := List.getElem?_eq_some_iff.mp resolved
          have present : ¬ ((index : Int) < 0 ∨ (index : Int) ≥ self.table.entries.length) := by
            omega
          have copies : self.table.duplicate index = self.table.insert entry.name entry.value := by
            rw [DynamicTableTracker.duplicate_of_inside _ inside]
            simp [atIndex]
          obtain ⟨out, built, -⟩ := duplicate_reads_back index []
          have calls : self.call (.duplicate index) =
              self.onTable out (self.table.insert entry.name entry.value) := by
            simp only [call, duplicate, if_neg present, copies]
            rw [show ManualQpack.duplicate index = .ok out from built]
          refine ⟨out, built, fun _ => calls, fun large => ?_⟩
          rw [calls]
          exact self.onTable_insert_of_too_large out entry.name entry.value large

/--
An inserting call whose entry resolves returns the instruction its builder
makes, having inserted the entry in front of the longest prefix of the old
entries with room for it, when the entry fits the capacity; when it does not,
the call raises and leaves the encoder unchanged.
-/
theorem call_of_resolvedEntry (self : ManualQpackEncoder) {request : EncoderCall}
    {entry : DynamicTableEntry} (resolved : self.resolvedEntry request = some entry) :
    ((entry.size : Int) ≤ self.table.capacity →
      ∃ instruction kept, request.instruction = .ok instruction ∧
        self.call request =
          .returned instruction
            { self with
              table :=
                { entries := entry :: kept, capacity := self.table.capacity,
                  insertCount := self.table.insertCount + 1 } } ∧
        LongestPrefixWithin (self.table.capacity - entry.size) self.table.entries kept) ∧
    (self.table.capacity < entry.size → ∃ error, self.call request = .raised error self) := by
  obtain ⟨instruction, built, inserts, refuses⟩ := self.call_eq_insert resolved
  refine ⟨fun fits => ?_, refuses⟩
  obtain ⟨kept, inserted, longest⟩ :=
    self.onTable_insert_of_fits instruction entry.name entry.value fits
  exact ⟨instruction, kept, built, (inserts fits).trans inserted, longest⟩

/--
Every call raises and leaves the encoder as it was, or sets an allowed
capacity, or inserts the entry it resolves where that entry fits, or
reassigns `max_table_capacity`.
-/
theorem call_cases (self : ManualQpackEncoder) (request : EncoderCall) :
    (∃ error, self.call request = .raised error self) ∨
    (∃ capacity instruction, request = .setCapacity capacity ∧ 0 ≤ capacity ∧
      capacity ≤ self.maxTableCapacity ∧ request.instruction = .ok instruction ∧
      self.call request =
        .returned instruction { self with table := self.table.setCapacity capacity }) ∨
    (∃ entry instruction kept, self.resolvedEntry request = some entry ∧
      (entry.size : Int) ≤ self.table.capacity ∧ request.instruction = .ok instruction ∧
      self.call request =
        .returned instruction
          { self with
            table :=
              { entries := entry :: kept, capacity := self.table.capacity,
                insertCount := self.table.insertCount + 1 } } ∧
      LongestPrefixWithin (self.table.capacity - entry.size) self.table.entries kept) ∨
    (∃ value, request = .setMaxTableCapacity value ∧
      self.call request = .returned [] { self with maxTableCapacity := value }) := by
  cases resolving : self.resolvedEntry request with
  | some entry =>
      by_cases fits : (entry.size : Int) ≤ self.table.capacity
      · obtain ⟨instruction, kept, built, returns, longest⟩ :=
          (self.call_of_resolvedEntry resolving).1 fits
        exact .inr (.inr (.inl ⟨entry, instruction, kept, rfl, fits, built, returns, longest⟩))
      · exact .inl ((self.call_of_resolvedEntry resolving).2 (by omega))
  | none =>
      cases request with
      | setCapacity capacity =>
          by_cases allowed : 0 ≤ capacity ∧ capacity ≤ self.maxTableCapacity
          · obtain ⟨instruction, built, returns⟩ :=
              self.call_setCapacity_of_allowed allowed.1 allowed.2
            exact .inr (.inl ⟨capacity, instruction, rfl, allowed.1, allowed.2, built, returns⟩)
          · exact .inl (self.call_setCapacity_of_refused (by omega))
      | insertNameRef index value isStatic =>
          cases naming : self.resolveName index isStatic with
          | error error => exact .inl ⟨error, by simp only [call, insertNameRef, naming]⟩
          | ok name => simp [resolvedEntry_insertNameRef, naming, Except.toOption] at resolving
      | insertLiteral name value => cases resolving
      | duplicate relativeIndex =>
          have outside : relativeIndex < 0 ∨ relativeIndex ≥ self.table.entries.length := by
            simp only [resolvedEntry] at resolving
            split at resolving
            · exact .inl ‹_›
            · exact .inr (by rw [List.getElem?_eq_none_iff] at resolving; omega)
          exact .inl ⟨_, by simp only [call, duplicate]; exact if_pos outside⟩
      | setMaxTableCapacity value => exact .inr (.inr (.inr ⟨value, rfl, rfl⟩))

/-- A call that raises leaves the encoder exactly as it was. -/
theorem call_raised_state (self : ManualQpackEncoder) (request : EncoderCall)
    (raised : (self.call request).Raised) : (self.call request).state = self := by
  rcases self.call_cases request with ⟨error, raises⟩ | ⟨_, _, -, -, -, -, returns⟩ |
      ⟨_, _, _, -, -, -, returns, -⟩ | ⟨_, -, returns⟩
  · rw [raises]
    rfl
  all_goals rw [returns] at raised; exact raised.elim

/-- A name that does not resolve is refused with a `ValueError`. -/
theorem resolveName_error_valueError {self : ManualQpackEncoder} {index : Int}
    {isStatic : Bool} {error : PyError} (refused : self.resolveName index isStatic = .error error) :
    ∃ message, error = .valueError message := by
  unfold resolveName at refused
  cases isStatic <;> simp only [Bool.false_eq_true, ite_true, ite_false] at refused <;>
    split at refused <;> cases refused <;> exact ⟨_, rfl⟩

/-- The encoder raises what its tracker raises, and nothing else, when it hands a call on. -/
theorem onTable_raised {self : ManualQpackEncoder} {instruction : Bytes}
    {mutation : Outcome DynamicTableTracker Unit} {error : PyError} {after : ManualQpackEncoder}
    (raises : self.onTable instruction mutation = .raised error after) :
    ∃ table, mutation = .raised error table := by
  cases mutation with
  | returned => cases raises
  | raised raisedError table =>
      cases raises
      exact ⟨table, rfl⟩

/--
Whatever the encoder's state, a call that raises raises a `ValueError`: its
builders never fail on the arguments its checks let through, and its tracker
never pops an empty table.
-/
theorem call_raised_valueError (self : ManualQpackEncoder) (request : EncoderCall)
    {error : PyError} {after : ManualQpackEncoder}
    (raises : self.call request = .raised error after) :
    ∃ message, error = .valueError message := by
  cases request with
  | setCapacity capacity =>
      simp only [call, setCapacity] at raises
      split at raises
      · cases raises
        exact ⟨_, rfl⟩
      split at raises
      · cases raises
        exact ⟨_, rfl⟩
      obtain ⟨capacity, rfl⟩ := Int.eq_ofNat_of_zero_le (show 0 ≤ capacity by omega)
      obtain ⟨out, built, -⟩ := setDynamicTableCapacity_reads_back capacity []
      rw [built] at raises
      cases raises
  | insertNameRef index value isStatic =>
      cases naming : self.resolveName index isStatic with
      | error refusal =>
          simp only [call, insertNameRef, naming] at raises
          cases raises
          exact resolveName_error_valueError naming
      | ok name =>
          simp only [call, insertNameRef, naming] at raises
          split at raises
          · cases raises
            exact ⟨_, rfl⟩
          obtain ⟨index, rfl⟩ := Int.eq_ofNat_of_zero_le (resolveName_nonnegative naming)
          obtain ⟨out, built, -⟩ := insertWithNameRef_reads_back index value isStatic []
          rw [built] at raises
          obtain ⟨_, refused⟩ := onTable_raised raises
          exact self.table.insert_raised_valueError refused
  | insertLiteral name value =>
      simp only [call, insertLiteral] at raises
      split at raises
      · cases raises
        exact ⟨_, rfl⟩
      obtain ⟨_, _, _, _, -, -, -, built⟩ := insertWithLiteralName_eq name value
      rw [built] at raises
      obtain ⟨_, refused⟩ := onTable_raised raises
      exact self.table.insert_raised_valueError refused
  | duplicate relativeIndex =>
      simp only [call, duplicate] at raises
      split at raises
      · cases raises
        exact ⟨_, rfl⟩
      obtain ⟨index, rfl⟩ := Int.eq_ofNat_of_zero_le (show 0 ≤ relativeIndex by omega)
      obtain ⟨out, built, -⟩ := duplicate_reads_back index []
      rw [show ManualQpack.duplicate index = .ok out from built] at raises
      obtain ⟨_, refused⟩ := onTable_raised raises
      exact self.table.duplicate_raised_valueError refused
  | setMaxTableCapacity => cases raises

/--
For every encoder state, reachable or not, and every call: the call returns
exactly the bytes its builder makes from the call's own arguments, or it
raises a `ValueError` and leaves the encoder as it was.  No call reaches the
tracker's `IndexError` from popping an empty table, a builder's `IndexError`,
or `encode_string`'s `NotImplementedError`.
-/
theorem call_returns_instruction_or_raises_valueError (self : ManualQpackEncoder)
    (request : EncoderCall) :
    (∃ instruction next, request.instruction = .ok instruction ∧
      self.call request = .returned instruction next) ∨
    ∃ message, self.call request = .raised (.valueError message) self := by
  cases calling : self.call request with
  | raised error after =>
      obtain ⟨message, rfl⟩ := self.call_raised_valueError request calling
      have unchanged := self.call_raised_state request (by rw [calling]; trivial)
      rw [calling] at unchanged
      exact .inr ⟨message, by rw [← unchanged]; rfl⟩
  | returned instruction next =>
      refine .inl ⟨instruction, next, ?_, rfl⟩
      rcases self.call_cases request with ⟨_, raises⟩ | ⟨_, built, -, -, -, builds, returns⟩ |
          ⟨_, built, _, -, -, builds, returns, -⟩ | ⟨_, rfl, returns⟩
      · rw [raises] at calling
        cases calling
      all_goals rw [returns] at calling; cases calling
      exacts [builds, builds, rfl]

/-- A run's bytes are its first call's bytes, then the bytes of the rest of the run. -/
theorem output_cons (self : ManualQpackEncoder) (request : EncoderCall)
    (requests : List EncoderCall) :
    output (request :: requests) self =
      output [request] self ++ output requests (self.call request).state := by
  simp [output]

/-- Every run from a reachable state stays reachable. -/
theorem Reachable.run {self : ManualQpackEncoder} (reachable : Reachable self)
    (requests : List EncoderCall) : Reachable (ManualQpackEncoder.run requests self) := by
  induction requests generalizing self with
  | nil => exact reachable
  | cons request requests inductionHypothesis =>
      exact inductionHypothesis (reachable.call request)

end ManualQpackEncoder

end ManualQpack
