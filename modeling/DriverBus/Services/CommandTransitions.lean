import DriverBus.Services.CommandExecutor
import Mathlib.Tactic

/-!
# What a step of the command side can change

`Transition` lists the steps with the state each one leads to. From it the
change to every component of the state is read off once: the phase of a call,
its task, the table, and the reader. The invariants of the later modules are
derived from these lemmas and never unfold `step`.
-/

namespace DriverBus.Services

open DriverBus.Models DriverBus.Foundations

variable {ι τ : Type*}

section Updates

variable (s : State ι τ) (i t j : ι) (p : Phase ι) (o : Outcome) (key : Guid) (entry : Option ι)

@[simp] theorem State.setEntry_dict (k : Guid) :
    (s.setEntry key entry).dict k = if k = key then entry else s.dict k := by
  simp [State.setEntry, Function.update_apply]

@[simp] theorem State.setEntry_phase : (s.setEntry key entry).phase = s.phase := rfl

@[simp] theorem State.setEntry_task : (s.setEntry key entry).task = s.task := rfl

@[simp] theorem State.setEntry_reader : (s.setEntry key entry).reader = s.reader := rfl

@[simp] theorem State.setEntry_cancelled :
    (s.setEntry key entry).cancelled = s.cancelled := rfl

@[simp] theorem State.setEntry_reads : (s.setEntry key entry).reads = s.reads := rfl

@[simp] theorem State.setEntry_deliveredBy :
    (s.setEntry key entry).deliveredBy = s.deliveredBy := rfl

theorem sourceCompleted_cases :
    p.sourceCompleted o = p ∨ (p = .waiting none ∧ p.sourceCompleted o = .waiting (some o)) := by
  rcases p with _ | _ | _ | (_ | _) | _ | _ | _ | _ <;> simp [Phase.sourceCompleted]

variable [DecidableEq ι]

@[simp] theorem State.setPhase_phase :
    (s.setPhase i p).phase j = if j = i then p else s.phase j := by
  simp [State.setPhase, Function.update_apply]

@[simp] theorem State.setPhase_task : (s.setPhase i p).task = s.task := rfl

@[simp] theorem State.setPhase_dict : (s.setPhase i p).dict = s.dict := rfl

@[simp] theorem State.setPhase_reader : (s.setPhase i p).reader = s.reader := rfl

@[simp] theorem State.setPhase_cancelled : (s.setPhase i p).cancelled = s.cancelled := rfl

@[simp] theorem State.setPhase_reads : (s.setPhase i p).reads = s.reads := rfl

@[simp] theorem State.setPhase_deliveredBy :
    (s.setPhase i p).deliveredBy = s.deliveredBy := rfl

@[simp] theorem State.complete_phase : (s.complete t o).phase j =
    if j = t ∧ s.task t = none then (s.phase t).sourceCompleted o else s.phase j := by
  unfold State.complete
  cases s.task t <;> simp [Function.update_apply]

@[simp] theorem State.complete_task : (s.complete t o).task j =
    if j = t ∧ s.task t = none then some o else s.task j := by
  unfold State.complete
  cases s.task t <;> simp [Function.update_apply]

@[simp] theorem State.complete_dict : (s.complete t o).dict = s.dict := by
  unfold State.complete
  split <;> rfl

@[simp] theorem State.complete_reader : (s.complete t o).reader = s.reader := by
  unfold State.complete
  split <;> rfl

@[simp] theorem State.complete_cancelled :
    (s.complete t o).cancelled = s.cancelled := by
  unfold State.complete
  split <;> rfl

@[simp] theorem State.complete_reads : (s.complete t o).reads = s.reads := by
  unfold State.complete
  split <;> rfl

@[simp] theorem State.complete_deliveredBy :
    (s.complete t o).deliveredBy = s.deliveredBy := by
  unfold State.complete
  split <;> rfl

end Updates

section Relation

variable [DecidableEq ι] [DecidableEq τ] (c : Calls ι τ)

/-- The steps, each with the condition it needs and the state it leads to. -/
inductive Transition (s : State ι τ) : Action ι τ → State ι τ → Prop
  | start {i} (hp : s.phase i = .notStarted) : Transition s (.start i) (startCall c s i)
  | addOrUpdate {i} (hp : s.phase i = .registered) :
      Transition s (.addOrUpdate i) ((s.setEntry (c.command i).id (some i)).setPhase i .writing)
  | writeReturns {i} (hp : s.phase i = .writing) :
      Transition s (.writeReturns i)
        (s.setPhase i (.waiting (waitAsync (s.task i) (s.cancelled (c.token i)))))
  | writeThrows {i e} (hp : s.phase i = .writing) :
      Transition s (.writeThrows i e) (s.setPhase i (.catching (.write e)))
  | waitTimesOut {i} (hp : s.phase i = .waiting none) :
      Transition s (.waitTimesOut i) (s.setPhase i (.waiting (some (.throws .timeout))))
  | waitCanceled {i} (hp : s.phase i = .waiting none) (hc : s.cancelled (c.token i) = true) :
      Transition s (.waitCanceled i) (s.setPhase i (.waiting (some (.throws .canceled))))
  | resumeReturns {i r} (hp : s.phase i = .waiting (some (.returns r))) :
      Transition s (.resume i) (s.setPhase i (.leaving (.returns r)))
  | resumeThrows {i e} (hp : s.phase i = .waiting (some (.throws e))) :
      Transition s (.resume i) (s.setPhase i (.catching e))
  | tryRemove {i e} (hp : s.phase i = .catching e) :
      Transition s (.tryRemove i) ((s.setEntry (c.command i).id none).setPhase i
        (.faulting e (s.dict (c.command i).id)))
  | trySetException {i e removed} (hp : s.phase i = .faulting e removed) :
      Transition s (.trySetException i)
        ((faultRemoved s e removed).setPhase i (.leaving (.throws e)))
  | disposeRegistration {i o} (hp : s.phase i = .leaving o) :
      Transition s (.disposeRegistration i) (s.setPhase i (.done o))
  | cancel {k} : Transition s (.cancel k) { s with cancelled := Function.update s.cancelled k true }
  | cancelCallback {i} (hc : s.cancelled (c.token i) = true)
      (hp : (s.phase i).callbackRegistered = true) :
      Transition s (.cancelCallback i) (s.complete i (.throws .canceled))
  | read {r} (hr : s.reader = .idle) :
      Transition s (.read r) { s with reader := .received r, reads := s.reads + 1 }
  | readThrows (hr : s.reader = .idle) : Transition s .readThrows s
  | lookupHits {r t} (hr : s.reader = .received r) (ht : s.dict r.id = some t) :
      Transition s .tryGetValue { s with reader := .found r t }
  | lookupMisses {r} (hr : s.reader = .received r) (ht : s.dict r.id = none) :
      Transition s .tryGetValue { s with reader := .idle }
  | trySetResult {r t} (hr : s.reader = .found r t) :
      Transition s .trySetResult { deliver s r t with reader := .removing r.id }
  | removeEntry {key} (hr : s.reader = .removing key) :
      Transition s .removeEntry { s.setEntry key none with reader := .idle }

theorem transition_of_step {s s' : State ι τ} {a : Action ι τ} (h : step c s a = some s') :
    Transition c s a s' := by
  cases a <;> simp only [step] at h <;> (repeat' split at h) <;>
    simp only [reduceCtorEq, Option.some.injEq] at h <;> subst h <;>
    constructor <;> first | assumption | simp_all

end Relation

variable {c : Calls ι τ} {s s' : State ι τ} {a : Action ι τ}

/-- How the phase of call `j` can change: by a step of the call itself, or because its
source completes while its `WaitAsync` task is pending. -/
inductive PhaseChange (c : Calls ι τ) (s s' : State ι τ) (j : ι) : Action ι τ → Phase ι →
    Phase ι → Prop
  | start : PhaseChange c s s' j (.start j) .notStarted .registered
  | addOrUpdate : PhaseChange c s s' j (.addOrUpdate j) .registered .writing
  | writeReturns : PhaseChange c s s' j (.writeReturns j) .writing
      (.waiting (waitAsync (s.task j) (s.cancelled (c.token j))))
  | writeThrows (e : Exn) : PhaseChange c s s' j (.writeThrows j e) .writing (.catching (.write e))
  | waitTimesOut : PhaseChange c s s' j (.waitTimesOut j) (.waiting none)
      (.waiting (some (.throws .timeout)))
  | waitCanceled (hc : s.cancelled (c.token j) = true) :
      PhaseChange c s s' j (.waitCanceled j) (.waiting none) (.waiting (some (.throws .canceled)))
  | resumeReturns (r : CommandResult) : PhaseChange c s s' j (.resume j)
      (.waiting (some (.returns r))) (.leaving (.returns r))
  | resumeThrows (e : Failure) : PhaseChange c s s' j (.resume j)
      (.waiting (some (.throws e))) (.catching e)
  | tryRemove (e : Failure) : PhaseChange c s s' j (.tryRemove j) (.catching e)
      (.faulting e (s.dict (c.command j).id))
  | trySetException (e : Failure) (removed : Option ι) :
      PhaseChange c s s' j (.trySetException j) (.faulting e removed) (.leaving (.throws e))
  | disposeRegistration (o : Outcome) :
      PhaseChange c s s' j (.disposeRegistration j) (.leaving o) (.done o)
  | sourceCompleted (a : Action ι τ) (o : Outcome) (ho : s'.task j = some o) :
      PhaseChange c s s' j a (.waiting none) (.waiting (some o))

variable [DecidableEq ι]

/-- Completing a source changes a phase only as `PhaseChange.sourceCompleted` says. -/
theorem PhaseChange.of_complete {t j : ι} {o : Outcome}
    (ht : s'.task = (s.complete t o).task) :
    (s.complete t o).phase j = s.phase j ∨
      PhaseChange c s s' j a (s.phase j) ((s.complete t o).phase j) := by
  rw [State.complete_phase]
  split_ifs with hj
  · obtain ⟨rfl, hn⟩ := hj
    rcases sourceCompleted_cases (s.phase j) o with h | ⟨hw, h⟩
    · exact Or.inl h
    · right
      rw [h, hw]
      exact .sourceCompleted a o (by simp [ht, hn])
  · exact Or.inl rfl

/-- A phase set by a step of call `i` is a change of that call and of no other. -/
theorem PhaseChange.of_setPhase {s₀ : State ι τ} {i : ι} {p q : Phase ι} (hp : s.phase i = q)
    (hi : PhaseChange c s (s₀.setPhase i p) i a q p) (hs : s₀.phase = s.phase) (j : ι) :
    (s₀.setPhase i p).phase j = s.phase j ∨
      PhaseChange c s (s₀.setPhase i p) j a (s.phase j) ((s₀.setPhase i p).phase j) := by
  by_cases hj : j = i
  · subst hj
    right
    simpa [hp] using hi
  · left
    simp [hj, hs]

theorem startCall_phase (i j : ι) :
    (startCall c s i).phase j = if j = i then .registered else s.phase j := by
  unfold startCall
  split_ifs with hc hj <;> simp_all [Phase.sourceCompleted]

theorem faultRemoved_phase_change (e : Failure) (removed : Option ι) {j : ι}
    (ht : s'.task = (faultRemoved s e removed).task) :
    (faultRemoved s e removed).phase j = s.phase j ∨
      PhaseChange c s s' j a (s.phase j) ((faultRemoved s e removed).phase j) := by
  cases removed with
  | none => exact Or.inl rfl
  | some t => exact PhaseChange.of_complete ht

variable [DecidableEq τ]

theorem Transition.phase_change (h : Transition c s a s') (j : ι) :
    s'.phase j = s.phase j ∨ PhaseChange c s s' j a (s.phase j) (s'.phase j) := by
  cases h with
  | @start i hp =>
    rw [startCall_phase]
    split_ifs with hj
    · subst hj
      rw [hp]
      exact Or.inr .start
    · exact Or.inl rfl
  | addOrUpdate hp =>
    refine PhaseChange.of_setPhase hp ?_ ?_ j
    · exact .addOrUpdate
    · rfl
  | writeReturns hp => exact PhaseChange.of_setPhase hp .writeReturns rfl j
  | writeThrows hp => exact PhaseChange.of_setPhase hp (.writeThrows _) rfl j
  | waitTimesOut hp => exact PhaseChange.of_setPhase hp .waitTimesOut rfl j
  | waitCanceled hp hc => exact PhaseChange.of_setPhase hp (.waitCanceled hc) rfl j
  | resumeReturns hp => exact PhaseChange.of_setPhase hp (.resumeReturns _) rfl j
  | resumeThrows hp => exact PhaseChange.of_setPhase hp (.resumeThrows _) rfl j
  | tryRemove hp =>
    refine PhaseChange.of_setPhase hp ?_ ?_ j
    · exact .tryRemove _
    · rfl
  | disposeRegistration hp => exact PhaseChange.of_setPhase hp (.disposeRegistration _) rfl j
  | @trySetException i e removed hp =>
    rw [State.setPhase_phase]
    split_ifs with hj
    · subst hj
      rw [hp]
      exact Or.inr (.trySetException e removed)
    · exact faultRemoved_phase_change e removed rfl
  | cancelCallback hc hp => exact PhaseChange.of_complete rfl
  | trySetResult hr => exact PhaseChange.of_complete rfl
  | cancel => exact Or.inl rfl
  | read hr => exact Or.inl rfl
  | readThrows hr => exact Or.inl rfl
  | lookupHits hr ht => exact Or.inl rfl
  | lookupMisses hr ht => exact Or.inl rfl
  | removeEntry hr => exact Or.inl rfl

/-- How the entry of `key` can change: `AddOrUpdate` puts a call's source under the Id of
its command, the catch block of a call removes that Id, and so does the reader. -/
inductive EntryChange (c : Calls ι τ) (s : State ι τ) (key : Guid) :
    Action ι τ → Option ι → Prop
  | addOrUpdate (i : ι) (hi : (c.command i).id = key) :
      EntryChange c s key (.addOrUpdate i) (some i)
  | tryRemove (i : ι) (hi : (c.command i).id = key) : EntryChange c s key (.tryRemove i) none
  | removeEntry (hr : s.reader = .removing key) : EntryChange c s key .removeEntry none

theorem Transition.entry_change (h : Transition c s a s') (key : Guid) :
    s'.dict key = s.dict key ∨ EntryChange c s key a (s'.dict key) := by
  cases h with
  | @addOrUpdate i hp =>
    by_cases hk : key = (c.command i).id
    · subst hk
      simpa using Or.inr (EntryChange.addOrUpdate i rfl)
    · simp [hk]
  | @tryRemove i e hp =>
    by_cases hk : key = (c.command i).id
    · subst hk
      simpa using Or.inr (EntryChange.tryRemove i rfl)
    · simp [hk]
  | @removeEntry k hr =>
    by_cases hk : key = k
    · subst hk
      simpa using Or.inr (EntryChange.removeEntry hr)
    · simp [hk]
  | @start i hp => unfold startCall; split_ifs <;> simp
  | @trySetException i e removed hp => cases removed <;> simp [faultRemoved]
  | trySetResult hr => simp [deliver]
  | _ => simp

/-- Who can complete the pending source of call `t`, and with what. -/
inductive Completes (c : Calls ι τ) (s : State ι τ) (t : ι) : Action ι τ → Outcome → Prop
  | start (hc : s.cancelled (c.token t) = true) : Completes c s t (.start t) (.throws .canceled)
  | cancelCallback (hc : s.cancelled (c.token t) = true) :
      Completes c s t (.cancelCallback t) (.throws .canceled)
  | trySetException (i : ι) (e : Failure) (hp : s.phase i = .faulting e (some t)) :
      Completes c s t (.trySetException i) (.throws e)
  | trySetResult (r : CommandResult) (hr : s.reader = .found r t) :
      Completes c s t .trySetResult (.returns r)

theorem Transition.task_change (h : Transition c s a s') (t : ι) :
    s'.task t = s.task t ∨ (s.task t = none ∧ ∃ o, s'.task t = some o ∧ Completes c s t a o) := by
  cases h with
  | @start i hp =>
    unfold startCall
    split_ifs with hc
    · by_cases ht : t = i ∧ s.task i = none
      · obtain ⟨rfl, hn⟩ := ht
        exact Or.inr ⟨hn, _, by simp [hn], .start hc⟩
      · left
        simp [ht]
    · exact Or.inl rfl
  | @trySetException i e removed hp =>
    cases removed with
    | none => exact Or.inl rfl
    | some u =>
      by_cases ht : t = u ∧ s.task u = none
      · obtain ⟨rfl, hn⟩ := ht
        exact Or.inr ⟨hn, _, by simp [faultRemoved, hn], .trySetException i e hp⟩
      · left
        simp [faultRemoved, ht]
  | @cancelCallback i hc hp =>
    by_cases ht : t = i ∧ s.task i = none
    · obtain ⟨rfl, hn⟩ := ht
      exact Or.inr ⟨hn, _, by simp [hn], .cancelCallback hc⟩
    · left
      simp [ht]
  | @trySetResult r u hr =>
    by_cases ht : t = u ∧ s.task u = none
    · obtain ⟨rfl, hn⟩ := ht
      exact Or.inr ⟨hn, _, by simp [deliver, hn], .trySetResult r hr⟩
    · left
      simp [deliver, ht]
  | _ => exact Or.inl rfl

/-- A completed source never changes again. -/
theorem Transition.task_stays (h : Transition c s a s') {t : ι} {o : Outcome}
    (ht : s.task t = some o) : s'.task t = some o := by
  rcases h.task_change t with heq | ⟨hn, _⟩
  · rw [heq, ht]
  · simp [ht] at hn

/-- How the reader moves on. -/
inductive ReaderChange (s : State ι τ) : Action ι τ → Reader ι → Reader ι → Prop
  | read (r : CommandResult) : ReaderChange s (.read r) .idle (.received r)
  | lookupHits (r : CommandResult) (t : ι) (ht : s.dict r.id = some t) :
      ReaderChange s .tryGetValue (.received r) (.found r t)
  | lookupMisses (r : CommandResult) (ht : s.dict r.id = none) :
      ReaderChange s .tryGetValue (.received r) .idle
  | trySetResult (r : CommandResult) (t : ι) :
      ReaderChange s .trySetResult (.found r t) (.removing r.id)
  | removeEntry (key : Guid) : ReaderChange s .removeEntry (.removing key) .idle

theorem Transition.reader_change (h : Transition c s a s') :
    s'.reader = s.reader ∨ ReaderChange s a s.reader s'.reader := by
  cases h with
  | @start i hp => unfold startCall; split_ifs <;> simp
  | @trySetException i e removed hp => cases removed <;> simp [faultRemoved]
  | @read r hr => exact Or.inr (by rw [hr]; exact .read r)
  | @lookupHits r t hr ht => exact Or.inr (by rw [hr]; exact .lookupHits r t ht)
  | @lookupMisses r hr ht => exact Or.inr (by rw [hr]; exact .lookupMisses r ht)
  | @trySetResult r t hr => exact Or.inr (by rw [hr]; exact .trySetResult r t)
  | @removeEntry key hr => exact Or.inr (by rw [hr]; exact .removeEntry key)
  | _ => simp

/-- The counter of reads moves only when a result is read, which starts an iteration. -/
theorem Transition.reads_change (h : Transition c s a s') :
    (s'.reads = s.reads ∧ ∀ r, a ≠ .read r) ∨
      ∃ r, a = .read r ∧ s.reader = .idle ∧ s'.reader = .received r ∧ s'.reads = s.reads + 1 := by
  cases h with
  | @start i hp => unfold startCall; split_ifs <;> simp
  | @trySetException i e removed hp => cases removed <;> simp [faultRemoved]
  | @read r hr => exact Or.inr ⟨r, rfl, hr, rfl, rfl⟩
  | trySetResult hr => simp [deliver]
  | _ => simp

/-- Only a `TrySetResult` that returns true is recorded as a delivery. -/
theorem Transition.delivered_change (h : Transition c s a s') (t : ι) :
    s'.deliveredBy t = s.deliveredBy t ∨
      ∃ r, s.reader = .found r t ∧ s.task t = none ∧ s'.reader = .removing r.id ∧
        s'.deliveredBy t = some (s.reads - 1) := by
  cases h with
  | @start i hp => unfold startCall; split_ifs <;> simp
  | @trySetException i e removed hp => cases removed <;> simp [faultRemoved]
  | @trySetResult r u hr =>
    by_cases hu : s.task u = none
    · by_cases ht : t = u
      · subst ht
        exact Or.inr ⟨r, hr, hu, rfl, by simp [deliver, hu]⟩
      · simp [deliver, hu, ht]
    · simp [deliver, hu]
  | _ => simp

/-- While an iteration is under way nothing is read. -/
theorem Transition.reads_stays (h : Transition c s a s') (hr : s.reader ≠ .idle) :
    s'.reads = s.reads ∧ ∀ r, a ≠ .read r := by
  rcases h.reads_change with hsame | ⟨_, _, hidle, _⟩
  · exact hsame
  · exact absurd hidle hr

/-- A completed source keeps the read that was recorded for it. -/
theorem Transition.delivered_stays (h : Transition c s a s') {t : ι} {o : Outcome}
    (ht : s.task t = some o) : s'.deliveredBy t = s.deliveredBy t := by
  rcases h.delivered_change t with hsame | ⟨_, _, hn, _⟩
  · exact hsame
  · simp [ht] at hn

/-- `TrySetResult` runs on the source the iteration has looked up. -/
theorem Transition.trySetResult_state (h : Transition c s .trySetResult s') {r : CommandResult}
    {t : ι} (hr : s.reader = .found r t) :
    s' = { deliver s r t with reader := .removing r.id } := by
  cases h with
  | trySetResult hr' =>
    rw [hr, Reader.found.injEq] at hr'
    obtain ⟨rfl, rfl⟩ := hr'
    rfl

end DriverBus.Services
