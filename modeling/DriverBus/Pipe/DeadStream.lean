import DriverBus.Pipe.FailedReconnects

/-!
# Calls on a stream that is dead

`ReadAsync` and `WriteAsync` calls of one user, one after another, with the
attempts of the retry policy, its callback between them, and a driver that
connects and drops at any time. A read sees the end of the file when the peer
has gone, and that is retried; on a disposed stream it throws what the policy
does not retry. `WriteAsync` converts the same exception, `ReadAsync` does not.
-/

namespace DriverBus.Pipe.Session

open DriverBus.Foundations DriverBus.Pipe.Reconnect

inductive Method
  | readAsync
  | writeAsync
  deriving DecidableEq, Repr

inductive Failure
  | communicationStream
  | io
  | objectDisposed
  | invalidOperation
  | json
  deriving DecidableEq, Repr

/-- How the stream operations of one attempt can end; `none` is a normal end. -/
def operations : Method → Status → List (Option Failure)
  | _, .absent => []
  | _, .listening => [some .invalidOperation]
  | .readAsync, .connected => [none, some .communicationStream, some .io, some .json]
  | .readAsync, .broken => [some .communicationStream]
  | .readAsync, .disposed => [some .objectDisposed]
  | .writeAsync, .connected => [none, some .io, some .json]
  | .writeAsync, .broken => [some .io, some .json]
  | .writeAsync, .disposed => [some .objectDisposed, some .json]

/-- `catch (Exception ex) when (ex is IOException || ex is ObjectDisposedException)`. -/
def writeCatch : Failure → Failure
  | .io | .objectDisposed => .communicationStream
  | e => e

/-- How the delegate the policy executes can end. -/
def attemptEnds : Method → Status → List (Option Failure)
  | .readAsync, st => operations .readAsync st
  | .writeAsync, st => (operations .writeAsync st).map fun e => e.map writeCatch

/-- The call in progress or the last one. `attempt` counts the retries and `started` the
`ReconnectAsync` calls of its callback. -/
inductive Progress
  | idle
  | attempting (m : Method) (attempt started : ℕ)
  | retrying (m : Method) (attempt started : ℕ)
  | returned (m : Method)
  | threw (m : Method) (e : Failure) (started : ℕ)
  deriving DecidableEq, Repr

def Progress.inCall : Progress → Bool
  | .attempting _ _ _ | .retrying _ _ _ => true
  | _ => false

structure State where
  pipe : Reconnect.State Unit
  progress : Progress

def State.initial : State := ⟨Reconnect.State.initial Unit, .idle⟩

/-- The status of the stream in `_pipeServerStream`. -/
def State.fieldStatus (s : State) : Status := s.pipe.status s.pipe.field

inductive Action
  | call (m : Method)
  | attempt (outcome : Option Failure)
  | callback (a : Reconnect.Action Unit)
  | driver (a : Reconnect.Action Unit)

/-- A step of the driver's side. -/
def isDriver : Reconnect.Action Unit → Bool
  | .connect _ | .drop _ => true
  | _ => false

/-- `ReconnectAsync` starts where the field is read again for it. -/
def startsReconnect : Reconnect.Action Unit → ℕ
  | .reread () => 1
  | _ => 0

/-- The callback goes on, or it has ended and the next attempt begins. -/
def afterCallback (pipe : Reconnect.State Unit) (m : Method) (attempt started : ℕ) : Progress :=
  if pipe.callback () = .idle then .attempting m (attempt + 1) started
  else .retrying m attempt started

def step (s : State) : Action → Option State
  | .call m => if s.progress.inCall then none else some { s with progress := .attempting m 0 0 }
  | .attempt outcome =>
    match s.progress with
    | .attempting m attempt started =>
      if outcome ∈ attemptEnds m s.fieldStatus then
        match outcome with
        | none => some { s with progress := .returned m }
        | some .communicationStream =>
          if attempt < 3 then
            (Reconnect.step s.pipe (.capture ())).map fun pipe =>
              ⟨pipe, .retrying m attempt started⟩
          else some { s with progress := .threw m .communicationStream started }
        | some e => some { s with progress := .threw m e started }
      else none
    | _ => none
  | .callback a =>
    match s.progress with
    | .retrying m attempt started =>
      if isDriver a then none
      else (Reconnect.step s.pipe a).map fun pipe =>
        ⟨pipe, afterCallback pipe m attempt (started + startsReconnect a)⟩
    | _ => none
  | .driver a =>
    if isDriver a then (Reconnect.step s.pipe a).map fun pipe => { s with pipe := pipe } else none

/-- The steps with the states they lead to. -/
inductive Transition (s : State) : Action → State → Prop
  | call {m} (hp : s.progress.inCall = false) :
      Transition s (.call m) { s with progress := .attempting m 0 0 }
  | returns {m k n} (hp : s.progress = .attempting m k n)
      (hend : none ∈ attemptEnds m s.fieldStatus) :
      Transition s (.attempt none) { s with progress := .returned m }
  | retries {m k n pipe} (hp : s.progress = .attempting m k n)
      (hend : some .communicationStream ∈ attemptEnds m s.fieldStatus) (hk : k < 3)
      (hcapture : Reconnect.step s.pipe (.capture ()) = some pipe) :
      Transition s (.attempt (some .communicationStream)) ⟨pipe, .retrying m k n⟩
  | givesUp {m k n} (hp : s.progress = .attempting m k n)
      (hend : some .communicationStream ∈ attemptEnds m s.fieldStatus) (hk : 3 ≤ k) :
      Transition s (.attempt (some .communicationStream))
        { s with progress := .threw m .communicationStream n }
  | throws {m k n e} (hp : s.progress = .attempting m k n)
      (hend : some e ∈ attemptEnds m s.fieldStatus) (he : e ≠ .communicationStream) :
      Transition s (.attempt (some e)) { s with progress := .threw m e n }
  | callback {m k n a pipe} (hp : s.progress = .retrying m k n) (ha : isDriver a = false)
      (hstep : Reconnect.step s.pipe a = some pipe) :
      Transition s (.callback a) ⟨pipe, afterCallback pipe m k (n + startsReconnect a)⟩
  | driver {a pipe} (ha : isDriver a = true) (hstep : Reconnect.step s.pipe a = some pipe) :
      Transition s (.driver a) { s with pipe := pipe }

variable {s s' t u : State} {a : Action} {as : List Action}

theorem transition_of_step (h : step s a = some s') : Transition s a s' := by
  cases a with
  | call m =>
    rw [step] at h
    split_ifs at h with hp
    cases h
    exact .call (by simpa using hp)
  | attempt outcome =>
    cases hp : s.progress <;> simp only [step, hp, reduceCtorEq] at h
    rename_i m k n
    by_cases hend : outcome ∈ attemptEnds m s.fieldStatus
    · rw [if_pos hend] at h
      cases outcome with
      | none =>
        cases h
        exact .returns hp hend
      | some e =>
        cases e with
        | communicationStream =>
          by_cases hk : k < 3
          · simp only [hk, if_true] at h
            obtain ⟨pipe, hcapture, rfl⟩ := Option.map_eq_some_iff.mp h
            exact .retries hp hend hk hcapture
          · simp only [hk, if_false] at h
            cases h
            exact .givesUp hp hend (by omega)
        | _ =>
          cases h
          exact .throws hp hend (by simp)
    · rw [if_neg hend] at h
      cases h
  | callback a =>
    cases hp : s.progress <;> simp only [step, hp, reduceCtorEq] at h
    split_ifs at h with ha
    obtain ⟨pipe, hstep, rfl⟩ := Option.map_eq_some_iff.mp h
    exact .callback hp (by simpa using ha) hstep
  | driver a =>
    rw [step] at h
    split_ifs at h with ha
    obtain ⟨pipe, hstep, rfl⟩ := Option.map_eq_some_iff.mp h
    exact .driver ha hstep

/-- A step moves the stream and its callback by at most one step. -/
theorem Transition.pipe_step (h : Transition s a s') :
    s'.pipe = s.pipe ∨ ∃ b, Reconnect.step s.pipe b = some s'.pipe := by
  cases h with
  | call | returns | givesUp | throws => exact .inl rfl
  | retries _ _ _ hcapture => exact .inr ⟨_, hcapture⟩
  | callback _ _ hstep => exact .inr ⟨_, hstep⟩
  | driver _ hstep => exact .inr ⟨_, hstep⟩

/-- The calls run the callback as the model of the callback alone does. -/
theorem pipe_run (h : Run (Steps step) State.initial as s) :
    ∃ bs, Run (Steps Reconnect.step) (Reconnect.State.initial Unit) bs s.pipe := by
  apply h.invariant (P := fun s => ∃ bs, Run (Steps Reconnect.step) _ bs s.pipe)
  · exact ⟨[], .nil⟩
  · rintro t a u ⟨bs, hbs⟩ hstep
    rcases (transition_of_step hstep).pipe_step with heq | ⟨b, hb⟩
    · exact ⟨bs, heq ▸ hbs⟩
    · exact ⟨bs ++ [b], hbs.snoc hb⟩

theorem fieldStatus_cases (h : Run (Steps step) State.initial as s) :
    s.fieldStatus = .connected ∨ s.fieldStatus = .broken ∨ s.fieldStatus = .disposed := by
  obtain ⟨bs, hbs⟩ := pipe_run h
  obtain ⟨habsent, hlistening⟩ := (sequential_of_run hbs).settled
  unfold State.fieldStatus
  cases hst : s.pipe.status s.pipe.field with
  | absent => exact absurd hst habsent
  | listening => exact absurd hst hlistening
  | _ => simp

/-- The read does not throw to its caller before its callback has started a reconnect. -/
def RecoversFirst (s : State) : Prop :=
  ∀ as t e n, Run (Steps step) s as t → (∀ m, Action.call m ∉ as) →
    t.progress = .threw .readAsync e n → 1 ≤ n

/-- How a read that began on a broken stream goes on. -/
inductive Recovering (s : State) : Prop
  | first (hp : s.progress = .attempting .readAsync 0 0) (hst : s.fieldStatus = .broken)
  | captured {c} (hp : s.progress = .retrying .readAsync 0 0)
      (hc : s.pipe.callback () = .captured c) (hst : s.fieldStatus = .broken)
  | rereading (hp : s.progress = .retrying .readAsync 0 0)
      (hc : s.pipe.callback () = .rereading) (hst : s.fieldStatus = .broken)
  | attempting {k n} (hp : s.progress = .attempting .readAsync k n) (hn : 1 ≤ n)
  | retrying {k n} (hp : s.progress = .retrying .readAsync k n) (hn : 1 ≤ n)
  | threw {e n} (hp : s.progress = .threw .readAsync e n) (hn : 1 ≤ n)
  | returned (hp : s.progress = .returned .readAsync)

theorem Recovering.afterCallback {pipe : Reconnect.State Unit} {k n : ℕ} (hn : 1 ≤ n) :
    Recovering ⟨pipe, afterCallback pipe .readAsync k n⟩ := by
  by_cases hidle : pipe.callback () = .idle
  · exact .attempting (k := k + 1) (by simp [Session.afterCallback, hidle]) hn
  · exact .retrying (k := k) (by simp [Session.afterCallback, hidle]) hn

/-- The driver does not reconnect a stream it has dropped. -/
theorem driver_step {p p' : Reconnect.State Unit} {b : Reconnect.Action Unit}
    (hb : isDriver b = true) (h : Reconnect.step p b = some p') :
    p'.callback = p.callback ∧ (p.status p.field = .broken → p'.status p'.field = .broken) := by
  cases Reconnect.transition_of_step h with
  | @connect n hst =>
    refine ⟨rfl, ?_⟩
    intro hbroken
    have hne : p.field ≠ n := by
      rintro rfl
      simp [hst] at hbroken
    simpa [hne] using hbroken
  | @drop n hst =>
    refine ⟨rfl, ?_⟩
    intro hbroken
    have hne : p.field ≠ n := by
      rintro rfl
      simp [hst] at hbroken
    simpa [hne] using hbroken
  | _ => cases hb

theorem Recovering.of_attempting (hr : Recovering s) {m : Method} {k n : ℕ}
    (hp : s.progress = .attempting m k n) :
    m = .readAsync ∧ (1 ≤ n ∨ k = 0 ∧ n = 0 ∧ s.fieldStatus = .broken) := by
  cases hr with
  | first hp' hst =>
    rw [hp] at hp'
    cases hp'
    exact ⟨rfl, .inr ⟨rfl, rfl, hst⟩⟩
  | attempting hp' hn =>
    rw [hp] at hp'
    cases hp'
    exact ⟨rfl, .inl hn⟩
  | captured hp' | rereading hp' | retrying hp' | threw hp' | returned hp' =>
    rw [hp] at hp'
    cases hp'

theorem Recovering.of_retrying (hr : Recovering s) {m : Method} {k n : ℕ}
    (hp : s.progress = .retrying m k n) :
    m = .readAsync ∧ (1 ≤ n ∨ k = 0 ∧ n = 0 ∧ s.fieldStatus = .broken ∧
      ((∃ c, s.pipe.callback () = .captured c) ∨ s.pipe.callback () = .rereading)) := by
  cases hr with
  | captured hp' hc hst =>
    rw [hp] at hp'
    cases hp'
    exact ⟨rfl, .inr ⟨rfl, rfl, hst, .inl ⟨_, hc⟩⟩⟩
  | rereading hp' hc hst =>
    rw [hp] at hp'
    cases hp'
    exact ⟨rfl, .inr ⟨rfl, rfl, hst, .inr hc⟩⟩
  | retrying hp' hn =>
    rw [hp] at hp'
    cases hp'
    exact ⟨rfl, .inl hn⟩
  | first hp' | attempting hp' | threw hp' | returned hp' =>
    rw [hp] at hp'
    cases hp'

/-- The callback of a read on a broken stream gets to the reconnect. -/
theorem recovering_callback {b : Reconnect.Action Unit} {pipe : Reconnect.State Unit}
    (hst : s.fieldStatus = .broken)
    (hc : (∃ c, s.pipe.callback () = .captured c) ∨ s.pipe.callback () = .rereading)
    (hb : isDriver b = false) (h : Reconnect.step s.pipe b = some pipe) :
    Recovering ⟨pipe, afterCallback pipe .readAsync 0 (0 + startsReconnect b)⟩ := by
  have hnot : s.pipe.status s.pipe.field ≠ .connected := by
    intro hconnected
    rw [State.fieldStatus, hconnected] at hst
    cases hst
  cases Reconnect.transition_of_step h with
  | testFails hold _ =>
    apply Recovering.rereading
    · simp [Session.afterCallback, startsReconnect]
    · simp
    · exact hst
  | testKeeps _ hconnected => exact absurd hconnected hnot
  | reread hold => exact .afterCallback (by simp [startsReconnect])
  | connect | drop => cases hb
  | capture hold | dispose hold | create hold | createRefused hold | createThrows hold
  | waitReturns hold | waitThrows hold | assignKept hold | assignNew hold =>
    rw [hold] at hc
    simp at hc

/-- A step keeps a read on its way to the reconnect, or past it. -/
theorem Transition.recovering (h : Transition s a s') (hr : Recovering s)
    (ha : ∀ m, a ≠ .call m) : Recovering s' := by
  cases h with
  | @call m hp => exact absurd rfl (ha m)
  | returns hp hend =>
    obtain ⟨rfl, -⟩ := hr.of_attempting hp
    exact .returned rfl
  | retries hp hend hk hcapture =>
    obtain ⟨rfl, hn | ⟨rfl, rfl, hst⟩⟩ := hr.of_attempting hp
    · exact .retrying rfl hn
    · cases Reconnect.transition_of_step hcapture with
      | capture hold =>
        apply Recovering.captured (c := s.pipe.field) rfl
        · simp
        · exact hst
  | givesUp hp hend hk =>
    obtain ⟨rfl, hn | ⟨rfl, rfl, hst⟩⟩ := hr.of_attempting hp
    · exact .threw rfl hn
    · omega
  | throws hp hend he =>
    obtain ⟨rfl, hn | ⟨rfl, rfl, hst⟩⟩ := hr.of_attempting hp
    · exact .threw rfl hn
    · rw [hst] at hend
      simp only [attemptEnds, operations, List.mem_singleton, Option.some.injEq] at hend
      exact absurd hend he
  | callback hp hb hstep =>
    obtain ⟨rfl, hn | ⟨rfl, rfl, hst, hc⟩⟩ := hr.of_retrying hp
    · exact .afterCallback (by omega)
    · exact recovering_callback hst hc hb hstep
  | driver hb hstep =>
    obtain ⟨hcallback, hbroken⟩ := driver_step hb hstep
    cases hr with
    | first hp hst => exact .first hp (hbroken hst)
    | captured hp hc hst => exact .captured hp (by rw [← hc, ← hcallback]) (hbroken hst)
    | rereading hp hc hst => exact .rereading hp (by rw [← hc, ← hcallback]) (hbroken hst)
    | attempting hp hn => exact .attempting hp hn
    | retrying hp hn => exact .retrying hp hn
    | threw hp hn => exact .threw hp hn
    | returned hp => exact .returned hp

theorem Recovering.recoversFirst (hr : Recovering s) : RecoversFirst s := by
  intro as t e n hrun hcalls hthrew
  have hall : (∀ m, Action.call m ∉ as) → Recovering t := by
    apply hrun.history (P := fun as t => (∀ m, Action.call m ∉ as) → Recovering t)
    · intro _
      exact hr
    · intro as t a u ih hstep hnone
      apply (transition_of_step hstep).recovering
      · apply ih
        intro m hmem
        exact hnone m (List.mem_append_left _ hmem)
      · rintro m rfl
        exact hnone m (by simp)
  cases hall hcalls with
  | threw hp hn =>
    rw [hthrew] at hp
    cases hp
    exact hn
  | first hp | captured hp | rereading hp | attempting hp | retrying hp | returned hp =>
    rw [hthrew] at hp
    cases hp

/-- In every state the calls can reach, a read that is called while the stream is not connected
starts a reconnect before it throws, exactly when the stream is not a disposed one. -/
theorem dead_read_recovers_iff (h : Run (Steps step) State.initial as s)
    (hcall : step s (.call .readAsync) = some t) (hdead : s.fieldStatus ≠ .connected) :
    RecoversFirst t ↔ s.fieldStatus ≠ .disposed := by
  have hpipe : t = { s with progress := .attempting .readAsync 0 0 } := by
    cases transition_of_step hcall
    rfl
  subst hpipe
  constructor
  · intro hrecovers hdisposed
    have hthrows : step { s with progress := .attempting .readAsync 0 0 }
        (.attempt (some .objectDisposed)) =
          some { s with progress := .threw .readAsync .objectDisposed 0 } := by
      have hst : s.pipe.status s.pipe.field = .disposed := hdisposed
      simp [step, State.fieldStatus, hst, attemptEnds, operations]
    have hone := hrecovers [.attempt (some .objectDisposed)] _ _ 0 (Run.single hthrows) (by simp)
      rfl
    omega
  · intro hdisposed
    apply Recovering.recoversFirst
    apply Recovering.first rfl
    rcases fieldStatus_cases h with hst | hst | hst
    · exact absurd hst hdead
    · exact hst
    · exact absurd hst hdisposed

/-- The driver drops, a read retries, and creating the new instance fails after the old stream
was disposed; the second attempt throws. -/
def failedRecovery : List Action :=
  [.driver (.drop 0), .call .readAsync, .attempt (some .communicationStream), .callback (.test ()),
    .callback (.reread ()), .callback (.dispose ()), .callback (.createThrows ()),
    .attempt (some .objectDisposed)]

/-- The next read throws at once, without a reconnect. -/
theorem read_bypasses_reconnect : ∃ s t, Run (Steps step) State.initial failedRecovery s ∧
    s.progress = .threw .readAsync .objectDisposed 1 ∧ s.fieldStatus = .disposed ∧
    step s (.call .readAsync) = some t ∧ ¬ RecoversFirst t := by
  have h : exec step State.initial failedRecovery = some _ := rfl
  refine ⟨_, _, Run.of_exec h, rfl, rfl, rfl, ?_⟩
  intro hrecovers
  have hone := hrecovers [.attempt (some .objectDisposed)] _ _ 0 (Run.of_exec rfl) (by simp) rfl
  omega

/-- A read that finds the stream broken recovers. -/
theorem dead_read_recovers_broken : ∃ s t,
    exec step State.initial [.driver (.drop 0)] = some s ∧
      step s (.call .readAsync) = some t ∧ RecoversFirst t := by
  have h : exec step State.initial [.driver (.drop 0)] = some _ := rfl
  refine ⟨_, _, h, rfl, ?_⟩
  apply (dead_read_recovers_iff (Run.of_exec h) rfl ?_).mpr
  · intro hdisposed
    cases hdisposed
  · intro hconnected
    cases hconnected

end DriverBus.Pipe.Session
