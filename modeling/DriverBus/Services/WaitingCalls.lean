import DriverBus.Services.PendingTable

/-!
# A waiting call and its table entry

The reader removes by key alone, one step after it has completed the source it
looked up. A call that registers the same Id in between loses its entry. This
module proves that this is the only way: if Ids are reused only by calls that
start after the earlier ones have ended, and no call registers under the key
of a half-finished iteration, then every waiting call is in the table.
-/

namespace DriverBus.Services

open DriverBus.Models DriverBus.Foundations

variable {ι τ : Type*}

/-- `AddOrUpdate` has run, the catch block is not entered, and the source is pending. -/
def Waiting (s : State ι τ) (t : ι) : Prop :=
  (s.phase t).added = true ∧ (s.phase t).enteredCatch = false ∧ s.task t = none

/-- A call starts only after every earlier call with its Id has returned or thrown. -/
def ReusesEndedIds (c : Calls ι τ) (s : State ι τ) (a : Action ι τ) : Prop :=
  ∀ i, a = .start i → ∀ j, j ≠ i → (c.command j).id = (c.command i).id →
    s.phase j = .notStarted ∨ (s.phase j).finished = true

/-- The reader has looked up a source under `key` and has not executed its `TryRemove`. -/
def Reader.holds (key : Guid) : Reader ι → Bool
  | .found r _ => r.id = key
  | .removing k => k = key
  | _ => false

/-- No call registers under a key that a half-finished iteration is about to remove. -/
def AddsBetweenIterations (c : Calls ι τ) (s : State ι τ) (a : Action ι τ) : Prop :=
  ∀ i, a = .addOrUpdate i → s.reader.holds (c.command i).id = false

instance [Fintype ι] [DecidableEq ι] [DecidableEq τ] (c : Calls ι τ) (s : State ι τ)
    (a : Action ι τ) : Decidable (ReusesEndedIds c s a) :=
  inferInstanceAs (Decidable (∀ i, a = .start i → ∀ j, j ≠ i →
    (c.command j).id = (c.command i).id → s.phase j = .notStarted ∨ (s.phase j).finished = true))

instance [Fintype ι] [DecidableEq ι] [DecidableEq τ] (c : Calls ι τ) (s : State ι τ)
    (a : Action ι τ) : Decidable (AddsBetweenIterations c s a) :=
  inferInstanceAs (Decidable (∀ i, a = .addOrUpdate i → s.reader.holds (c.command i).id = false))

variable {c : Calls ι τ} {s s' : State ι τ} {a : Action ι τ} {t : ι} {r : CommandResult}

theorem PhaseChange.enteredCatch {j : ι} {p q : Phase ι} (h : PhaseChange c s s' j a p q)
    (hp : p.enteredCatch = true) : q.enteredCatch = true := by
  cases h with
  | disposeRegistration o => cases o <;> simp_all [Phase.enteredCatch]
  | _ => simp_all [Phase.enteredCatch]

/-- The call has started and has neither returned nor thrown. -/
def Phase.running : Phase ι → Bool
  | .notStarted | .done _ => false
  | _ => true

theorem PhaseChange.running {j : ι} {p q : Phase ι} (h : PhaseChange c s s' j a p q)
    (hq : q.running = true) : p.running = true ∨ a = .start j := by
  cases h <;> simp_all [Phase.running]

theorem Waiting.running (hw : Waiting s t) (hi : Consistent c s) : (s.phase t).running = true := by
  obtain ⟨hadded, hcatch, htask⟩ := hw
  cases hp : s.phase t with
  | notStarted => simp [hp, Phase.added] at hadded
  | done o =>
    cases o with
    | throws e => simp [hp, Phase.enteredCatch] at hcatch
    | returns r =>
      have := hi.settled t r (by rw [hp]; rfl)
      simp [htask] at this
  | _ => rfl

/-- What holds of every run in which Ids are reused as `ReusesEndedIds` says and calls
register as `AddsBetweenIterations` says. -/
structure Listed (c : Calls ι τ) (s : State ι τ) : Prop where
  consistent : Consistent c s
  sole : ∀ i j, (s.phase i).running = true → (s.phase j).running = true →
    (c.command i).id = (c.command j).id → i = j
  entry : ∀ t, Waiting s t → s.dict (c.command t).id = some t
  found : ∀ r u t, s.reader = .found r u → r.id = (c.command t).id → Waiting s t → u = t
  removing : ∀ key t, s.reader = .removing key → (c.command t).id = key → ¬ Waiting s t

theorem Listed.initial : Listed c (State.initial ι τ) := by
  refine ⟨Consistent.initial, ?_, ?_, ?_, ?_⟩ <;>
    simp [State.initial, Phase.running, Waiting, Phase.added]

variable [DecidableEq ι] [DecidableEq τ]

/-- Every waiting call has its own source in the table, and a reply for it that is read in
this state completes that source. -/
def WaitingListed (c : Calls ι τ) (s : State ι τ) : Prop :=
  ∀ t, Waiting s t → s.dict (c.command t).id = some t ∧
    (∀ r, r.id = (c.command t).id → s.reader = .idle →
      ∃ s', exec (step c) s [.read r, .tryGetValue, .trySetResult] = some s' ∧
        s'.task t = some (.returns r)) ∧
    ∀ r, r.id = (c.command t).id → s.reader = .received r →
      ∃ s', exec (step c) s [.tryGetValue, .trySetResult] = some s' ∧
        s'.task t = some (.returns r)

/-- An iteration that looks up a pending source completes it with the result it has read. -/
theorem iteration_delivers (hr : s.reader = .received r) (hd : s.dict r.id = some t)
    (ht : s.task t = none) :
    ∃ s', exec (step c) s [.tryGetValue, .trySetResult] = some s' ∧
      s'.task t = some (.returns r) := by
  refine ⟨_, by simp [step, hr, hd]; rfl, ?_⟩
  simp [deliver, ht]

theorem waitingListed_of_entries (h : ∀ t, Waiting s t → s.dict (c.command t).id = some t) :
    WaitingListed c s := by
  intro t hw
  refine ⟨h t hw, fun r hid hidle => ?_, fun r hid hrd => ?_⟩
  · have hstep : step c s (.read r) =
        some { s with reader := .received r, reads := s.reads + 1 } := by
      simp [step, hidle]
    obtain ⟨s', hs', ht'⟩ := iteration_delivers (c := c) (t := t)
      (s := { s with reader := .received r, reads := s.reads + 1 }) rfl
      (by rw [hid]; exact h t hw) hw.2.2
    exact ⟨s', by rw [exec_cons, hstep]; exact hs', ht'⟩
  · exact iteration_delivers hrd (by rw [hid]; exact h t hw) hw.2.2

theorem Transition.running (h : Transition c s a s') (hq : (s'.phase t).running = true) :
    (s.phase t).running = true ∨ a = .start t := by
  rcases h.phase_change t with heq | hch
  · exact Or.inl (heq ▸ hq)
  · exact hch.running hq

theorem Transition.waiting (h : Transition c s a s') (hw : Waiting s' t) :
    Waiting s t ∨ a = .addOrUpdate t := by
  obtain ⟨hadded, hcatch, htask⟩ := hw
  have htask' : s.task t = none := by
    cases ht : s.task t with
    | none => rfl
    | some o =>
      rw [h.task_stays ht] at htask
      cases htask
  rcases h.phase_change t with heq | hch
  · exact Or.inl ⟨heq ▸ hadded, heq ▸ hcatch, htask'⟩
  · rcases hch.added_or hadded with hold | ha
    · refine Or.inl ⟨hold, ?_, htask'⟩
      cases hp : (s.phase t).enteredCatch with
      | false => rfl
      | true => rw [hch.enteredCatch hp] at hcatch; cases hcatch
    · exact Or.inr ha

/-- The completed source of an iteration is not pending. -/
theorem Transition.trySetResult_task (h : Transition c s .trySetResult s')
    (hr : s.reader = .found r t) : s'.task t ≠ none := by
  rw [h.trySetResult_state hr]
  by_cases ht : s.task t = none <;> simp [deliver, ht]

theorem Transition.sole (h : Transition c s a s') (hl : Listed c s)
    (hg : ReusesEndedIds c s a) {i j : ι} (hi : (s'.phase i).running = true)
    (hj : (s'.phase j).running = true) (hid : (c.command i).id = (c.command j).id) : i = j := by
  have hended : ∀ {u v : ι}, a = .start u → (s.phase v).running = true →
      (c.command v).id = (c.command u).id → v = u := by
    intro u v ha hv huv
    by_contra hne
    rcases hg u ha v hne huv with hn | hf
    · simp [hn, Phase.running] at hv
    · cases hp : s.phase v <;> simp_all [Phase.running, Phase.finished]
  rcases h.running hi with hi | hi <;> rcases h.running hj with hj | hj
  · exact hl.sole i j hi hj hid
  · exact hended hj hi hid
  · exact (hended hi hj hid.symm).symm
  · rw [hi] at hj
    cases hj
    rfl

theorem Transition.waiting_entry (h : Transition c s a s') (hl : Listed c s)
    (hw' : Waiting s' t) : s'.dict (c.command t).id = some t := by
  rcases h.waiting hw' with hw | rfl
  · have hrun := hw.running hl.consistent
    rcases h.entry_change (c.command t).id with heq | hch
    · rw [heq, hl.entry t hw]
    · generalize hd : s'.dict (c.command t).id = d at hch
      cases hch with
      | addOrUpdate i hid =>
        have hi : (s.phase i).running = true := by
          rw [h.addOrUpdate_phase.1]
          rfl
        rw [hl.sole i t hi hrun hid]
      | tryRemove i hid =>
        exfalso
        cases h with
        | tryRemove hp =>
          have hit := hl.sole i t (by rw [hp]; rfl) hrun hid
          subst hit
          simp [Waiting, hp, Phase.enteredCatch] at hw
      | removeEntry hr => exact absurd hw (hl.removing _ t hr rfl)
  · cases h
    simp

theorem Transition.listed (h : Transition c s a s') (hl : Listed c s)
    (hg : ReusesEndedIds c s a) (hadd : AddsBetweenIterations c s a) : Listed c s' where
  consistent := h.consistent hl.consistent
  sole _ _ hi hj hid := h.sole hl hg hi hj hid
  entry _ hw := h.waiting_entry hl hw
  found r u t hr hid hw' := by
    rcases h.reader_change with heq | hch
    · rw [heq] at hr
      rcases h.waiting hw' with hw | rfl
      · exact hl.found r u t hr hid hw
      · have hoff := hadd t rfl
        simp [hr, Reader.holds, hid] at hoff
    · rw [hr] at hch
      have hd := hch.found.2
      rcases h.waiting hw' with hw | rfl
      · have hown := hl.entry t hw
        rw [← hid, hd] at hown
        exact Option.some.inj hown
      · cases hch
  removing key t hr hid hw' := by
    rcases h.reader_change with heq | hch
    · rw [heq] at hr
      rcases h.waiting hw' with hw | rfl
      · exact hl.removing key t hr hid hw
      · have hoff := hadd t rfl
        simp [hr, Reader.holds, hid] at hoff
    · rw [hr] at hch
      generalize hrd : s.reader = rd at hch
      cases hch with
      | trySetResult r u =>
        rcases h.waiting hw' with hw | ha
        · have hut := hl.found r u t hrd hid.symm hw
          subst hut
          exact h.trySetResult_task hrd hw'.2.2
        · cases ha

/-- No waiting call is missing from the table in any run in which an Id is registered again
only while the reader is not between its lookup and its removal of that Id. -/
theorem waiting_call_is_listed {as : List (Action ι τ)}
    (h : Run (Guarded (fun s a => ReusesEndedIds c s a ∧ AddsBetweenIterations c s a)
      (Steps (step c))) (State.initial ι τ) as s) : WaitingListed c s := by
  have hl : Listed c s := h.invariant Listed.initial fun _ _ _ hl hs =>
    (transition_of_step c hs.2).listed hl hs.1.1 hs.1.2
  exact waitingListed_of_entries hl.entry

/-- A caller that returns before the reader's `TryRemove` sends the same Id again; the reader
then removes the new entry. -/
def registersBeforeRemoval (i j : ι) : List (Action ι τ) :=
  [.start i, .addOrUpdate i, .writeReturns i, .read (success ⟨7⟩), .tryGetValue, .trySetResult,
    .resume i, .disposeRegistration i, .start j, .addOrUpdate j, .removeEntry]

theorem waiting_call_missing : ∃ s,
    Run (Guarded (ReusesEndedIds (pairOfCalls fun _ => ⟨7⟩))
      (Steps (step (pairOfCalls fun _ => ⟨7⟩)))) (State.initial _ _)
      (registersBeforeRemoval 0 1) s ∧
    ¬ WaitingListed (pairOfCalls fun _ => ⟨7⟩) s := by
  have h : exec (guardStep (ReusesEndedIds (pairOfCalls fun _ => ⟨7⟩))
    (step (pairOfCalls fun _ => ⟨7⟩))) (State.initial _ _) (registersBeforeRemoval 0 1) =
    some _ := rfl
  refine ⟨_, Run.of_exec_guarded h, fun hl => ?_⟩
  have hentry := (hl 1 ⟨rfl, rfl, rfl⟩).1
  cases hentry

/-- The same two calls with the second one registering after the removal. -/
def registersAfterRemoval (i j : ι) : List (Action ι τ) :=
  [.start i, .addOrUpdate i, .writeReturns i, .read (success ⟨7⟩), .tryGetValue, .trySetResult,
    .resume i, .disposeRegistration i, .start j, .removeEntry, .addOrUpdate j]

theorem waiting_call_is_listed_reused : ∃ s,
    exec (step (pairOfCalls fun _ => ⟨7⟩)) (State.initial _ _) (registersAfterRemoval 0 1) =
        some s ∧
      Waiting s 1 ∧ WaitingListed (pairOfCalls fun _ => ⟨7⟩) s := by
  have h : exec (guardStep (fun s a => ReusesEndedIds (pairOfCalls fun _ => ⟨7⟩) s a ∧
    AddsBetweenIterations (pairOfCalls fun _ => ⟨7⟩) s a) (step (pairOfCalls fun _ => ⟨7⟩)))
    (State.initial _ _) (registersAfterRemoval 0 1) = some _ := rfl
  exact ⟨_, rfl, ⟨rfl, rfl, rfl⟩, waiting_call_is_listed (Run.of_exec_guarded h)⟩

end DriverBus.Services
