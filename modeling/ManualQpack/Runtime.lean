import Mathlib.Data.List.Basic

namespace ManualQpack

/-!
# Python values and call outcomes

The encoder is Python.  Its integers are unbounded, so they are `Int`
(or `Nat` where the code never lets them go negative); a `bytes` value is a
list of octets.  A raising call is an `Except` for the pure codec functions.

The tracker and the encoder mutate `self` in place, and a raised exception
leaves behind whatever the method had mutated so far.  An `Outcome` therefore
carries the object's state on both the returning and the raising side, so
that what a failed call leaves behind is part of the model.
-/

/-- The exceptions the encoder raises, with their messages. -/
inductive PyError where
  | valueError (message : String)
  | indexError (message : String)
  | notImplementedError (message : String)
  deriving Repr, DecidableEq

/-- A Python `bytes` value: a sequence of octets. -/
abbrev Bytes := List UInt8

/--
Python's `data[index]` on `bytes`: an `int`, with a negative index counting
from the end, and `IndexError` outside both ranges.
-/
def getItem (data : Bytes) (index : Int) : Except PyError Nat :=
  let position := if index < 0 then index + data.length else index
  if position < 0 then
    .error (.indexError "index out of range")
  else
    match data[position.toNat]? with
    | some byte => .ok byte.toNat
    | none => .error (.indexError "index out of range")

/-- A non-negative index inside the data reads the byte at that position. -/
theorem getItem_of_lt
    {data : Bytes}
    {index : Nat}
    (inside : index < data.length) :
    getItem data index = .ok (data.get ⟨index, inside⟩).toNat := by
  have nonnegative : ¬ (index : Int) < 0 := by omega
  simp [getItem, nonnegative, inside]

/-- Indexing just past a prefix reads the byte that follows it. -/
@[simp] theorem getItem_append_cons (before rest : Bytes) (byte : UInt8) :
    getItem (before ++ byte :: rest) before.length = .ok byte.toNat := by
  rw [getItem_of_lt (by simp)]
  simp [List.getElem_append_right]

/-- What one call of a mutating method ends with, and the object it leaves. -/
inductive Outcome (σ α : Type) where
  | returned (value : α) (self : σ)
  | raised (error : PyError) (self : σ)
  deriving Repr, DecidableEq

namespace Outcome

variable {σ τ α β : Type}

/-- The object's state after the call, whether it returned or raised. -/
def state : Outcome σ α → σ
  | returned _ self => self
  | raised _ self => self

/-- The call raised an exception. -/
def Raised : Outcome σ α → Prop
  | returned .. => False
  | raised .. => True

/--
Continue a method after a call that returned; an exception propagates with
the state the call left.
-/
def andThen (outcome : Outcome σ α) (rest : α → σ → Outcome σ β) : Outcome σ β :=
  match outcome with
  | returned value self => rest value self
  | raised error self => raised error self

/-- Read a call on an owned object as a call on its owner. -/
def mapState (owner : σ → τ) : Outcome σ α → Outcome τ α
  | returned value self => returned value (owner self)
  | raised error self => raised error (owner self)

@[simp] theorem state_returned (value : α) (self : σ) :
    (returned value self).state = self := rfl

@[simp] theorem state_raised (error : PyError) (self : σ) :
    (raised error self : Outcome σ α).state = self := rfl

@[simp] theorem raised_returned (value : α) (self : σ) :
    ¬ (returned value self).Raised := id

@[simp] theorem raised_raised (error : PyError) (self : σ) :
    (raised error self : Outcome σ α).Raised := trivial

@[simp] theorem returned_andThen (value : α) (self : σ)
    (rest : α → σ → Outcome σ β) :
    (returned value self).andThen rest = rest value self := rfl

@[simp] theorem raised_andThen (error : PyError) (self : σ)
    (rest : α → σ → Outcome σ β) :
    (raised error self).andThen rest = raised error self := rfl

@[simp] theorem mapState_returned (owner : σ → τ) (value : α) (self : σ) :
    (returned value self).mapState owner = returned value (owner self) := rfl

@[simp] theorem mapState_raised (owner : σ → τ) (error : PyError) (self : σ) :
    (raised error self : Outcome σ α).mapState owner = raised error (owner self) := rfl

end Outcome

end ManualQpack
