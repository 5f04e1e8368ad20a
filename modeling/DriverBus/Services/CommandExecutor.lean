import DriverBus.Foundations.Runs
import DriverBus.Models.Commands

/-!
# The command side as a transition system

Any number of `ExecuteCommandAsync` calls share one table of pending sources
with the single `ReadCommandResult` loop. Every await, every table operation
and every completion of a source is a step of its own, so a run is an
arbitrary interleaving. A call owns exactly one `TaskCompletionSource`, and
the source is named by that call.

The task `WaitAsync` returns is modelled as the library documents it: it
completes with the first of source completion, timeout and cancellation, and
the awaiting method resumes in a later step. Sources are created without
`RunContinuationsAsynchronously`; a continuation that runs inline is one of
the orders of steps.
-/

namespace DriverBus.Services

open DriverBus.Models DriverBus.Foundations

/-- The exceptions that can leave the awaits of `ExecuteCommandAsync`: one thrown
by `WriteAsync`, `TimeoutException`, and `TaskCanceledException`. -/
inductive Failure
  | write (e : Exn)
  | timeout
  | canceled
  deriving DecidableEq, Repr

/-- How a task, or a call, has ended. -/
inductive Outcome
  | returns (r : CommandResult)
  | throws (e : Failure)
  deriving DecidableEq, Repr

/-- Where one `ExecuteCommandAsync` call stands. -/
inductive Phase (ι : Type*)
  | notStarted
  /-- The source exists and the cancellation callback is registered. -/
  | registered
  /-- `AddOrUpdate` has run; `WriteAsync` is awaited. -/
  | writing
  /-- The `WaitAsync` task is awaited; it is `some` once that task has completed. -/
  | waiting (wait : Option Outcome)
  /-- The catch block is entered; `TryRemove` has not run. -/
  | catching (e : Failure)
  /-- `TryRemove` has run and took `removed` out of the table. -/
  | faulting (e : Failure) (removed : Option ι)
  /-- The outcome is settled; the registration is still to be disposed. -/
  | leaving (o : Outcome)
  | done (o : Outcome)
  deriving DecidableEq, Repr

/-- Where the `ReadCommandResult` loop stands. -/
inductive Reader (ι : Type*)
  | idle
  | received (r : CommandResult)
  /-- `TryGetValue` found the source of call `t`. -/
  | found (r : CommandResult) (t : ι)
  /-- `TrySetResult` has run; `TryRemove` of `key` is next. -/
  | removing (key : Guid)
  deriving DecidableEq, Repr

/-- The calls of a run: what each sends and which cancellation token it was given. -/
structure Calls (ι τ : Type*) where
  command : ι → Command
  token : ι → τ

/-- Two calls with the given Ids and a token each, for concrete runs. -/
def pairOfCalls (ids : Fin 2 → Guid) : Calls (Fin 2) (Fin 2) where
  command i := { id := ids i, type := .setParams, isEncrypted := false, parameters := none }
  token i := i

/-- A successful reply of the driver to the command `id`. -/
def success (id : Guid) : CommandResult where
  id := id
  commandType := .setParams
  isSuccess := true
  errorCode := none
  errorMessage := none
  result := none

/-- `dict` is `TaskCompletionSourcesDict` and `task t` the task of call `t`'s source,
`none` while it is pending. The last two fields only record history: how many
results have been read, and which of those reads completed a source. -/
structure State (ι τ : Type*) where
  dict : Guid → Option ι
  task : ι → Option Outcome
  phase : ι → Phase ι
  cancelled : τ → Bool
  reader : Reader ι
  reads : ℕ
  deliveredBy : ι → Option ℕ

def State.initial (ι τ : Type*) : State ι τ :=
  ⟨fun _ => none, fun _ => none, fun _ => .notStarted, fun _ => false, .idle, 0, fun _ => none⟩

inductive Action (ι τ : Type*)
  | start (i : ι)
  | addOrUpdate (i : ι)
  | writeReturns (i : ι)
  | writeThrows (i : ι) (e : Exn)
  | waitTimesOut (i : ι)
  | waitCanceled (i : ι)
  | resume (i : ι)
  | tryRemove (i : ι)
  | trySetException (i : ι)
  | disposeRegistration (i : ι)
  | cancel (k : τ)
  | cancelCallback (i : ι)
  | read (r : CommandResult)
  | readThrows
  | tryGetValue
  | trySetResult
  | removeEntry
  deriving DecidableEq, Repr

namespace Phase

variable {ι : Type*}

/-- A pending `WaitAsync` task completes together with its source. -/
def sourceCompleted (o : Outcome) : Phase ι → Phase ι
  | .waiting none => .waiting (some o)
  | p => p

/-- The cancellation callback can run from `Register` until the registration is disposed. -/
def callbackRegistered : Phase ι → Bool
  | .notStarted | .done _ => false
  | _ => true

/-- The call has executed `AddOrUpdate`. -/
def added : Phase ι → Bool
  | .notStarted | .registered => false
  | _ => true

def enteredCatch : Phase ι → Bool
  | .catching _ | .faulting _ _ | .leaving (.throws _) | .done (.throws _) => true
  | _ => false

/-- The call has returned or thrown. -/
def finished : Phase ι → Bool
  | .done _ => true
  | _ => false

end Phase

/-- The result of `source.Task.WaitAsync(timeout, token)` at the moment it is called. -/
def waitAsync (source : Option Outcome) (tokenCancelled : Bool) : Option Outcome :=
  match source with
  | some o => some o
  | none => if tokenCancelled then some (.throws .canceled) else none

section Step

variable {ι τ : Type*} [DecidableEq ι] [DecidableEq τ]

namespace State

def setPhase (s : State ι τ) (i : ι) (p : Phase ι) : State ι τ :=
  { s with phase := Function.update s.phase i p }

def setEntry (s : State ι τ) (key : Guid) (entry : Option ι) : State ι τ :=
  { s with dict := Function.update s.dict key entry }

/-- `TrySetResult`, `TrySetException` and `TrySetCanceled` on the source of call `t`:
nothing happens unless the source is pending. -/
def complete (s : State ι τ) (t : ι) (o : Outcome) : State ι τ :=
  match s.task t with
  | some _ => s
  | none =>
    { s with
      task := Function.update s.task t (some o)
      phase := Function.update s.phase t ((s.phase t).sourceCompleted o) }

end State

variable (c : Calls ι τ)

/-- `new TaskCompletionSource` and `cancellationToken.Register`: the callback runs at
once when the token is cancelled already. -/
def startCall (s : State ι τ) (i : ι) : State ι τ :=
  let s' := s.setPhase i .registered
  if s.cancelled (c.token i) then s'.complete i (.throws .canceled) else s'

/-- `removedTaskCompletionSource?.TrySetException(e)`. -/
def faultRemoved (s : State ι τ) (e : Failure) : Option ι → State ι τ
  | none => s
  | some t => s.complete t (.throws e)

/-- `TrySetResult(commandResult)`; the read that completes a source is recorded. -/
def deliver (s : State ι τ) (r : CommandResult) (t : ι) : State ι τ :=
  { s.complete t (.returns r) with
    deliveredBy :=
      if s.task t = none then Function.update s.deliveredBy t (some (s.reads - 1))
      else s.deliveredBy }

/-- One step of a call, of a cancellation, or of the reader loop. -/
def step (s : State ι τ) : Action ι τ → Option (State ι τ)
  | .start i =>
    match s.phase i with
    | .notStarted => some (startCall c s i)
    | _ => none
  | .addOrUpdate i =>
    match s.phase i with
    | .registered => some ((s.setEntry (c.command i).id (some i)).setPhase i .writing)
    | _ => none
  | .writeReturns i =>
    match s.phase i with
    | .writing => some (s.setPhase i (.waiting (waitAsync (s.task i) (s.cancelled (c.token i)))))
    | _ => none
  | .writeThrows i e =>
    match s.phase i with
    | .writing => some (s.setPhase i (.catching (.write e)))
    | _ => none
  | .waitTimesOut i =>
    match s.phase i with
    | .waiting none => some (s.setPhase i (.waiting (some (.throws .timeout))))
    | _ => none
  | .waitCanceled i =>
    match s.phase i with
    | .waiting none =>
      if s.cancelled (c.token i) then
        some (s.setPhase i (.waiting (some (.throws .canceled))))
      else none
    | _ => none
  | .resume i =>
    match s.phase i with
    | .waiting (some (.returns r)) => some (s.setPhase i (.leaving (.returns r)))
    | .waiting (some (.throws e)) => some (s.setPhase i (.catching e))
    | _ => none
  | .tryRemove i =>
    match s.phase i with
    | .catching e =>
      some ((s.setEntry (c.command i).id none).setPhase i (.faulting e (s.dict (c.command i).id)))
    | _ => none
  | .trySetException i =>
    match s.phase i with
    | .faulting e removed => some ((faultRemoved s e removed).setPhase i (.leaving (.throws e)))
    | _ => none
  | .disposeRegistration i =>
    match s.phase i with
    | .leaving o => some (s.setPhase i (.done o))
    | _ => none
  | .cancel k => some { s with cancelled := Function.update s.cancelled k true }
  | .cancelCallback i =>
    if s.cancelled (c.token i) ∧ (s.phase i).callbackRegistered then
      some (s.complete i (.throws .canceled))
    else none
  | .read r =>
    match s.reader with
    | .idle => some { s with reader := .received r, reads := s.reads + 1 }
    | _ => none
  | .readThrows =>
    match s.reader with
    | .idle => some s
    | _ => none
  | .tryGetValue =>
    match s.reader with
    | .received r =>
      match s.dict r.id with
      | some t => some { s with reader := .found r t }
      | none => some { s with reader := .idle }
    | _ => none
  | .trySetResult =>
    match s.reader with
    | .found r t => some { deliver s r t with reader := .removing r.id }
    | _ => none
  | .removeEntry =>
    match s.reader with
    | .removing key => some { s.setEntry key none with reader := .idle }
    | _ => none

end Step

end DriverBus.Services
