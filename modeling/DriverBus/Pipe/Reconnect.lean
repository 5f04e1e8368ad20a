import DriverBus.Foundations.Runs
import Mathlib.Tactic

/-!
# The retry callback and the stream field

Any number of `ReadAsync` and `WriteAsync` calls run their retry callbacks on
one `BaseNamedPipeStream`. A callback captures the field, tests `IsConnected`
of the field, reads the field again to reconnect, and assigns the field after
an await; each of these is a step of its own. Server instances are numbered in
the order of their creation.

The callback catches whatever is thrown in it. Besides the exception of a
second instance, `createThrows` and `waitThrows` are failures from outside.
-/

namespace DriverBus.Pipe.Reconnect

open DriverBus.Foundations

inductive Status
  | absent
  /-- Created; `WaitForConnectionAsync` has not completed. -/
  | listening
  | connected
  /-- The driver has dropped the connection. -/
  | broken
  | disposed
  deriving DecidableEq, Repr

/-- The instance occupies the pipe name. -/
def Status.undisposed : Status → Bool
  | .listening | .connected | .broken => true
  | .absent | .disposed => false

/-- Where one retry callback stands. -/
inductive Callback
  | idle
  /-- `readPipeConnect` holds stream `c`. -/
  | captured (c : ℕ)
  /-- `IsConnected` was true; stream `c` will be assigned. -/
  | keeping (c : ℕ)
  /-- `IsConnected` was false; the field is read again next. -/
  | rereading
  /-- `ReconnectAsync(x)` is about to dispose `x`. -/
  | disposing (x : ℕ)
  | creating
  /-- `WaitForConnectionAsync` of the new instance `n` is awaited. -/
  | awaiting (n : ℕ)
  | assigning (n : ℕ)
  deriving DecidableEq, Repr

/-- `field` is `_pipeServerStream`, and `next` the number of the next instance. -/
structure State (ι : Type*) where
  next : ℕ
  status : ℕ → Status
  field : ℕ
  callback : ι → Callback

/-- The stream after `ConnectAsync`. -/
def State.initial (ι : Type*) : State ι where
  next := 1
  status n := if n = 0 then .connected else .absent
  field := 0
  callback _ := .idle

inductive Action (ι : Type*)
  | capture (i : ι)
  | test (i : ι)
  | reread (i : ι)
  | dispose (i : ι)
  | create (i : ι)
  | createThrows (i : ι)
  | waitReturns (i : ι)
  | waitThrows (i : ι)
  | assign (i : ι)
  | connect (n : ℕ)
  | drop (n : ℕ)
  deriving DecidableEq, Repr

namespace State

variable {ι : Type*} [DecidableEq ι]

def setCallback (s : State ι) (i : ι) (p : Callback) : State ι :=
  { s with callback := Function.update s.callback i p }

def setStatus (s : State ι) (n : ℕ) (st : Status) : State ι :=
  { s with status := Function.update s.status n st }

/-- `GetNewStream`: at most one instance of the name may exist. -/
def getNewStream (s : State ι) (i : ι) : State ι :=
  if ∃ n < s.next, (s.status n).undisposed = true then s.setCallback i .idle
  else { (s.setStatus s.next .listening).setCallback i (.awaiting s.next) with next := s.next + 1 }

end State

variable {ι : Type*} [DecidableEq ι]

def step (s : State ι) : Action ι → Option (State ι)
  | .capture i =>
    match s.callback i with
    | .idle => some (s.setCallback i (.captured s.field))
    | _ => none
  | .test i =>
    match s.callback i with
    | .captured c =>
      some (s.setCallback i (if s.status s.field = .connected then .keeping c else .rereading))
    | _ => none
  | .reread i =>
    match s.callback i with
    | .rereading => some (s.setCallback i (.disposing s.field))
    | _ => none
  | .dispose i =>
    match s.callback i with
    | .disposing x => some ((s.setStatus x .disposed).setCallback i .creating)
    | _ => none
  | .create i =>
    match s.callback i with
    | .creating => some (s.getNewStream i)
    | _ => none
  | .createThrows i =>
    match s.callback i with
    | .creating => some (s.setCallback i .idle)
    | _ => none
  | .waitReturns i =>
    match s.callback i with
    | .awaiting n =>
      if s.status n = .connected ∨ s.status n = .broken then some (s.setCallback i (.assigning n))
      else none
    | _ => none
  | .waitThrows i =>
    match s.callback i with
    | .awaiting _ => some (s.setCallback i .idle)
    | _ => none
  | .assign i =>
    match s.callback i with
    | .keeping n | .assigning n => some { s.setCallback i .idle with field := n }
    | _ => none
  | .connect n =>
    match s.status n with
    | .listening => some (s.setStatus n .connected)
    | _ => none
  | .drop n =>
    match s.status n with
    | .connected => some (s.setStatus n .broken)
    | _ => none

/-- No failure from outside: an instance is created unless another exists, and the wait for the
driver succeeds. -/
def NoOutsideFailure (_ : State ι) (a : Action ι) : Prop :=
  ∀ i, a ≠ .createThrows i ∧ a ≠ .waitThrows i

/-- The re-read does not find a stream that has been reconnected since the test. -/
def RereadsDeadStream (s : State ι) (a : Action ι) : Prop :=
  ∀ i, a = .reread i → s.status s.field ≠ .connected

/-- The captured stream, of a callback that is about to assign it. -/
def Callback.kept? : Callback → Option ℕ
  | .keeping c => some c
  | _ => none

/-- A kept stream is not written over another one that is in use. -/
def KeepsCurrentStream (s : State ι) (a : Action ι) : Prop :=
  ∀ i, a = .assign i → ∀ c ∈ (s.callback i).kept?, c = s.field ∨ s.status s.field = .disposed

instance [Fintype ι] (s : State ι) (a : Action ι) : Decidable (NoOutsideFailure s a) :=
  inferInstanceAs (Decidable (∀ i, a ≠ .createThrows i ∧ a ≠ .waitThrows i))

instance [Fintype ι] (s : State ι) (a : Action ι) : Decidable (RereadsDeadStream s a) :=
  inferInstanceAs (Decidable (∀ i, a = .reread i → s.status s.field ≠ .connected))

instance [Fintype ι] (s : State ι) (a : Action ι) : Decidable (KeepsCurrentStream s a) :=
  inferInstanceAs (Decidable (∀ i, a = .assign i →
    ∀ c ∈ (s.callback i).kept?, c = s.field ∨ s.status s.field = .disposed))

def AtRest (s : State ι) : Prop := ∀ i, s.callback i = .idle

/-- With no callback in progress, the field refers to the only undisposed instance. -/
def FieldIsSole (s : State ι) : Prop :=
  AtRest s → ∀ n, (s.status n).undisposed = true ↔ n = s.field

/-- No callback is about to dispose an instance that is connected. -/
def DisposesNoConnected (s : State ι) : Prop :=
  ∀ i x, s.callback i = .disposing x → s.status x ≠ .connected

end DriverBus.Pipe.Reconnect
