import DriverBus.Pipe.StreamReader

/-!
# `BaseNamedPipeStream.ReadAsync`

Each attempt builds a `StreamReader` of its own over the pipe and disposes it,
leaving the pipe open; a `CommunicationStreamException` is retried up to three
times, any other exception leaves the call. The retry callback keeps a stream
that is still connected and replaces one that has reported its end by the next
connection of the driver.

`decode` stands for `JsonSerializer.Deserialize` with the options of the bus:
a value, null, or an exception.
-/

namespace DriverBus.Pipe

open DriverBus.Foundations.Json

variable {ε α : Type*}

/-- How `ReadAsync` ends, or one attempt of it. -/
inductive ReadOutcome (ε α : Type*)
  | returned (value : α)
  /-- A `CommunicationStreamException`, the one the policy retries. -/
  | communication (message : String)
  | threw (e : ε)
  deriving DecidableEq, Repr

/-- What the driver sends: the chunks still unread on the current connection, and those of the
connections it makes after leaving this one. -/
structure Incoming where
  current : List Chunk
  later : List (List Chunk)

/-- The driver leaves a connection when it is to make another. -/
def Incoming.peerGone (pipe : Incoming) : Bool := !pipe.later.isEmpty

/-- The result of one attempt: the chunks left in the pipe once the reader is disposed, and
whether the stream has reported its end. -/
structure Attempt (ε α : Type*) where
  outcome : ReadOutcome ε α
  chunks : List Chunk
  atEnd : Bool

/-- The first line, or the one after it when the first is null or empty. -/
def readText (peerGone : Bool) (chunks : List Chunk) : Option (Option Bytes × Unread) :=
  (readLine peerGone ⟨[], chunks⟩).bind fun (line, u) =>
    match line with
    | none | some [] => readLine peerGone u
    | some text => some (some text, u)

/-- `JsonSerializer.Deserialize` and the test of its result. -/
def deserialize (decode : Bytes → Except ε (Option α)) (text : Bytes) : ReadOutcome ε α :=
  match decode text with
  | .ok (some value) => .returned value
  | .ok none => .communication "deserialize null"
  | .error e => .threw e

def attempt (decode : Bytes → Except ε (Option α)) (peerGone : Bool) (chunks : List Chunk) :
    Option (Attempt ε α) :=
  (readText peerGone chunks).map fun (line, u) =>
    match line with
    | none => ⟨.communication "read null", u.chunks, true⟩
    | some [] => ⟨.communication "read null", u.chunks, false⟩
    | some text => ⟨deserialize decode text, u.chunks, false⟩

/-- The retry callback, after an attempt that left `chunks` in the pipe. -/
def Incoming.retry (pipe : Incoming) (chunks : List Chunk) (atEnd : Bool) : Incoming :=
  match atEnd, pipe.later with
  | true, next :: later => ⟨next, later⟩
  | _, later => ⟨chunks, later⟩

/-- At most `retries` more attempts after the first. -/
def readAttempts (decode : Bytes → Except ε (Option α)) :
    ℕ → Incoming → Option (ReadOutcome ε α × Incoming)
  | 0, pipe =>
    (attempt decode pipe.peerGone pipe.current).map fun a => (a.outcome, ⟨a.chunks, pipe.later⟩)
  | retries + 1, pipe =>
    (attempt decode pipe.peerGone pipe.current).bind fun a =>
      match a.outcome with
      | .communication _ => readAttempts decode retries (pipe.retry a.chunks a.atEnd)
      | o => some (o, ⟨a.chunks, pipe.later⟩)

def readAsync (decode : Bytes → Except ε (Option α)) (pipe : Incoming) :
    Option (ReadOutcome ε α × Incoming) :=
  readAttempts decode 3 pipe

/-- What `n` successive calls return. The callers log an exception and call again. -/
def readCalls (decode : Bytes → Except ε (Option α)) : ℕ → Incoming → List α
  | 0, _ => []
  | n + 1, pipe =>
    match readAsync decode pipe with
    | none => []
    | some (.returned value, pipe') => value :: readCalls decode n pipe'
    | some (_, pipe') => readCalls decode n pipe'

variable (decode : Bytes → Except ε (Option α)) {peerGone : Bool} {chunks : List Chunk}
  {u : Unread} {text : Bytes}

theorem attempt_text (ht : text ≠ []) (hr : readText peerGone chunks = some (some text, u)) :
    attempt decode peerGone chunks = some ⟨deserialize decode text, u.chunks, false⟩ := by
  obtain ⟨b, bs, rfl⟩ := List.exists_cons_of_ne_nil ht
  simp [attempt, hr]

theorem attempt_null (hr : readText peerGone chunks = some (none, u)) :
    attempt decode peerGone chunks = some ⟨.communication "read null", u.chunks, true⟩ := by
  simp [attempt, hr]

end DriverBus.Pipe
