import DriverBus.Services.CommandTransitions

/-!
# The table of pending sources

`Consistent` relates the table, the sources, the phases of the calls and the
half-finished iteration of the reader, and every step keeps it. It gives the
bound on what the table may hold: an entry belongs to a call that has not
finished, or to one whose reply is being cleaned up by the reader right now.
-/

namespace DriverBus.Services

open DriverBus.Models DriverBus.Foundations

variable {ι τ : Type*}

namespace Phase

/-- The phases in which a call's own entry may still be in the table. -/
def holdsEntry : Phase ι → Bool
  | .writing | .waiting _ | .catching _ | .leaving (.returns _) | .done (.returns _) => true
  | _ => false

/-- The result a call is about to return, or has returned. -/
def result? : Phase ι → Option CommandResult
  | .waiting (some (.returns r)) | .leaving (.returns r) | .done (.returns r) => some r
  | _ => none

end Phase

variable {c : Calls ι τ} {s s' : State ι τ} {a : Action ι τ} {j : ι} {p q : Phase ι}

theorem PhaseChange.added (h : PhaseChange c s s' j a p q) (hp : p.added = true) :
    q.added = true := by
  cases h <;> simp_all [Phase.added]

theorem PhaseChange.added_or (h : PhaseChange c s s' j a p q) (hq : q.added = true) :
    p.added = true ∨ a = .addOrUpdate j := by
  cases h <;> simp_all [Phase.added]

theorem PhaseChange.holdsEntry (h : PhaseChange c s s' j a p q) (hp : p.holdsEntry = true) :
    q.holdsEntry = true ∨ a = .tryRemove j := by
  cases h with
  | disposeRegistration o => cases o <;> simp_all [Phase.holdsEntry]
  | _ => simp_all [Phase.holdsEntry]

theorem waitAsync_returns {source : Option Outcome} {b : Bool} {r : CommandResult}
    (h : waitAsync source b = some (.returns r)) : source = some (.returns r) := by
  cases source with
  | none => cases b <;> simp [waitAsync] at h
  | some o => exact h

/-- A call settles on a result only once its source holds that result. -/
theorem PhaseChange.result (h : PhaseChange c s s' j a p q) {r : CommandResult}
    (hq : q.result? = some r) :
    p.result? = some r ∨ s.task j = some (.returns r) ∨ s'.task j = some (.returns r) := by
  cases h with
  | writeReturns =>
    cases hw : waitAsync (s.task j) (s.cancelled (c.token j)) with
    | none => simp [hw, Phase.result?] at hq
    | some o =>
      cases o with
      | throws e => simp [hw, Phase.result?] at hq
      | returns r' =>
        simp only [hw, Phase.result?, Option.some.injEq] at hq
        subst hq
        exact Or.inr (Or.inl (waitAsync_returns hw))
  | sourceCompleted _ o ho =>
    cases o with
    | throws e => simp [Phase.result?] at hq
    | returns r' =>
      simp only [Phase.result?, Option.some.injEq] at hq
      subst hq
      exact Or.inr (Or.inr ho)
  | resumeReturns r' => exact Or.inl hq
  | disposeRegistration o =>
    cases o with
    | throws e => simp [Phase.result?] at hq
    | returns r' => exact Or.inl hq
  | _ => simp [Phase.result?] at hq

theorem ReaderChange.found {rd : Reader ι} {r : CommandResult} {t : ι}
    (h : ReaderChange s a rd (.found r t)) : rd = .received r ∧ s.dict r.id = some t := by
  cases h with
  | lookupHits _ _ ht => exact ⟨rfl, ht⟩

theorem ReaderChange.of_removing {key : Guid} {rd : Reader ι}
    (h : ReaderChange s a (.removing key) rd) : a = .removeEntry := by
  cases h
  rfl

structure Consistent (c : Calls ι τ) (s : State ι τ) : Prop where
  entry_id : ∀ key t, s.dict key = some t → (c.command t).id = key
  entry_phase : ∀ key t, s.dict key = some t → (s.phase t).holdsEntry = true
  found_id : ∀ r t, s.reader = .found r t → (c.command t).id = r.id
  found_added : ∀ r t, s.reader = .found r t → (s.phase t).added = true
  settled : ∀ t r, (s.phase t).result? = some r → s.task t = some (.returns r)
  replied_added : ∀ t r, s.task t = some (.returns r) → (s.phase t).added = true
  replied_id : ∀ t r, s.task t = some (.returns r) → (c.command t).id = r.id
  /-- A source that holds a reply is in the table only until the reader, in the same
  iteration, removes it. -/
  leftover : ∀ t r, s.task t = some (.returns r) → s.dict (c.command t).id = some t →
    s.reader = .removing (c.command t).id ∧ s.deliveredBy t = some (s.reads - 1)

theorem Consistent.initial : Consistent c (State.initial ι τ) := by
  constructor <;> simp [State.initial, Phase.result?]

/-- Every entry belongs to a call with that Id which has not finished, or which returned a
reply whose iteration has not executed its `TryRemove` yet. -/
def EntriesAccounted (c : Calls ι τ) (s : State ι τ) : Prop :=
  ∀ key t, s.dict key = some t → (c.command t).id = key ∧
    ((s.phase t).finished = false ∨
      ((∃ r, s.task t = some (.returns r)) ∧ s.deliveredBy t = some (s.reads - 1) ∧
        s.reader = .removing key))

theorem Consistent.entriesAccounted (hi : Consistent c s) : EntriesAccounted c s := by
  intro key t ht
  have hid := hi.entry_id key t ht
  refine ⟨hid, ?_⟩
  have hp := hi.entry_phase key t ht
  cases hphase : s.phase t with
  | done o =>
    cases o with
    | throws e => simp [hphase, Phase.holdsEntry] at hp
    | returns r =>
      have htask := hi.settled t r (by rw [hphase]; rfl)
      obtain ⟨hr, hk⟩ := hi.leftover t r htask (hid ▸ ht)
      exact Or.inr ⟨⟨r, htask⟩, hk, hid ▸ hr⟩
  | _ => exact Or.inl rfl

variable [DecidableEq ι] [DecidableEq τ]

theorem Transition.added (h : Transition c s a s') (hp : (s.phase j).added = true) :
    (s'.phase j).added = true := by
  rcases h.phase_change j with heq | hch
  · rw [heq, hp]
  · exact hch.added hp

theorem Transition.added_or (h : Transition c s a s') (hp : (s'.phase j).added = true) :
    (s.phase j).added = true ∨ a = .addOrUpdate j := by
  rcases h.phase_change j with heq | hch
  · exact Or.inl (heq ▸ hp)
  · exact hch.added_or hp

theorem Transition.tryRemove_entry {i : ι} (h : Transition c s (.tryRemove i) s') :
    s'.dict (c.command i).id = none := by
  cases h
  simp

theorem Transition.addOrUpdate_phase {i : ι} (h : Transition c s (.addOrUpdate i) s') :
    s.phase i = .registered ∧ s'.phase i = .writing := by
  cases h with
  | addOrUpdate hp => exact ⟨hp, by simp⟩

theorem Transition.removeEntry_reader {key : Guid} (h : Transition c s .removeEntry s')
    (hr : s.reader = .removing key) : s'.dict key = none := by
  cases h with
  | removeEntry hr' =>
    have hk := hr.symm.trans hr'
    cases hk
    simp

theorem Transition.entry_id (h : Transition c s a s') (hi : Consistent c s) {key : Guid} {t : ι}
    (ht : s'.dict key = some t) : (c.command t).id = key := by
  rcases h.entry_change key with heq | hch
  · exact hi.entry_id key t (heq ▸ ht)
  · rw [ht] at hch
    cases hch with
    | addOrUpdate _ hid => exact hid

theorem Transition.entry_phase (h : Transition c s a s') (hi : Consistent c s) {key : Guid}
    {t : ι} (ht : s'.dict key = some t) : (s'.phase t).holdsEntry = true := by
  have hid := h.entry_id hi ht
  rcases h.entry_change key with heq | hch
  · have hold := hi.entry_phase key t (heq ▸ ht)
    rcases h.phase_change t with hp | hp
    · rw [hp, hold]
    · rcases hp.holdsEntry hold with hnew | rfl
      · exact hnew
      · rw [← hid, h.tryRemove_entry] at ht
        cases ht
  · rw [ht] at hch
    cases hch with
    | addOrUpdate _ _ =>
      rw [h.addOrUpdate_phase.2]
      rfl

theorem Transition.found (h : Transition c s a s') (hi : Consistent c s) {r : CommandResult}
    {t : ι} (hr : s'.reader = .found r t) :
    (c.command t).id = r.id ∧ (s'.phase t).added = true := by
  rcases h.reader_change with heq | hch
  · rw [heq] at hr
    exact ⟨hi.found_id r t hr, h.added (hi.found_added r t hr)⟩
  · rw [hr] at hch
    have hd := hch.found.2
    refine ⟨hi.entry_id _ t hd, h.added ?_⟩
    have hold := hi.entry_phase _ t hd
    cases hp : s.phase t <;> simp_all [Phase.added, Phase.holdsEntry]

theorem Transition.settled (h : Transition c s a s') (hi : Consistent c s) {t : ι}
    {r : CommandResult} (hr : (s'.phase t).result? = some r) : s'.task t = some (.returns r) := by
  rcases h.phase_change t with heq | hch
  · rw [heq] at hr
    exact h.task_stays (hi.settled t r hr)
  · rcases hch.result hr with hold | hold | hnew
    · exact h.task_stays (hi.settled t r hold)
    · exact h.task_stays hold
    · exact hnew

/-- A source that holds a reply got it in this step or had it before. -/
theorem Transition.replied (h : Transition c s a s') {t : ι} {r : CommandResult}
    (ht : s'.task t = some (.returns r)) :
    s.task t = some (.returns r) ∨
      (s.reader = .found r t ∧ s.task t = none ∧ s'.reader = .removing r.id ∧
        s'.deliveredBy t = some (s'.reads - 1)) := by
  rcases h.task_change t with heq | ⟨hn, o, ho, hcomp⟩
  · exact Or.inl (heq ▸ ht)
  · right
    rw [ht] at ho
    cases ho
    cases hcomp with
    | trySetResult _ hr =>
      refine ⟨hr, hn, ?_⟩
      rw [h.trySetResult_state hr]
      simp [deliver, hn]

theorem Transition.leftover (h : Transition c s a s') (hi : Consistent c s) {t : ι}
    {r : CommandResult} (ht : s'.task t = some (.returns r))
    (hd : s'.dict (c.command t).id = some t) :
    s'.reader = .removing (c.command t).id ∧ s'.deliveredBy t = some (s'.reads - 1) := by
  rcases h.replied ht with hold | ⟨hf, _, hr, hk⟩
  · rcases h.entry_change (c.command t).id with heq | hch
    · obtain ⟨hr, hk⟩ := hi.leftover t r hold (heq ▸ hd)
      have hr' : s'.reader = .removing (c.command t).id := by
        rcases h.reader_change with hsame | hch
        · rw [hsame, hr]
        · rw [hr] at hch
          have ha := hch.of_removing
          subst ha
          rw [h.removeEntry_reader hr] at hd
          cases hd
      have hreads := (h.reads_stays (by simp [hr])).1
      exact ⟨hr', by rw [h.delivered_stays hold, hreads, hk]⟩
    · rw [hd] at hch
      cases hch with
      | addOrUpdate _ _ =>
        have hadded := hi.replied_added t r hold
        rw [h.addOrUpdate_phase.1] at hadded
        cases hadded
  · rw [hi.found_id r t hf]
    exact ⟨hr, hk⟩

theorem Transition.consistent (h : Transition c s a s') (hi : Consistent c s) :
    Consistent c s' where
  entry_id _ _ ht := h.entry_id hi ht
  entry_phase _ _ ht := h.entry_phase hi ht
  found_id _ _ hr := (h.found hi hr).1
  found_added _ _ hr := (h.found hi hr).2
  settled _ _ hr := h.settled hi hr
  replied_added t r ht := by
    rcases h.replied ht with hold | ⟨hf, _⟩
    · exact h.added (hi.replied_added t r hold)
    · exact h.added (hi.found_added r t hf)
  replied_id t r ht := by
    rcases h.replied ht with hold | ⟨hf, _⟩
    · exact hi.replied_id t r hold
    · exact hi.found_id r t hf
  leftover _ _ ht hd := h.leftover hi ht hd

/-- Every reachable state is consistent. -/
theorem consistent_of_run {as : List (Action ι τ)}
    (h : Run (Steps (step c)) (State.initial ι τ) as s) : Consistent c s :=
  h.invariant Consistent.initial fun _ _ _ hi hs => (transition_of_step c hs).consistent hi

/-- In every interleaving the table only holds entries that are still to be removed, so it
is empty once every call has ended and the reader is between two iterations. -/
theorem pendingTable_never_leaks {as : List (Action ι τ)}
    (h : Run (Steps (step c)) (State.initial ι τ) as s) :
    EntriesAccounted c s ∧
      ((∀ t, s.phase t = .notStarted ∨ (s.phase t).finished = true) → s.reader = .idle →
        ∀ key, s.dict key = none) := by
  have hi := consistent_of_run h
  refine ⟨hi.entriesAccounted, fun hall hidle key => ?_⟩
  cases hd : s.dict key with
  | none => rfl
  | some t =>
    rcases (hi.entriesAccounted key t hd).2 with hf | ⟨_, _, hr⟩
    · rcases hall t with hn | hf'
      · have hp := hi.entry_phase key t hd
        simp [hn, Phase.holdsEntry] at hp
      · simp [hf] at hf'
    · simp [hidle] at hr

/-- Call `i` returns a reply that the reader has delivered but not yet cleaned up. -/
def returnsBeforeRemoval (i : ι) : List (Action ι τ) :=
  [.start i, .addOrUpdate i, .read (success ⟨0⟩), .tryGetValue, .trySetResult,
    .writeReturns i, .resume i, .disposeRegistration i]

theorem pendingTable_never_leaks_midway :
    ∃ s, exec (step (pairOfCalls fun i => ⟨i.val⟩)) (State.initial _ _)
        (returnsBeforeRemoval 0) = some s ∧
      s.dict ⟨0⟩ = some 0 ∧ (s.phase 0).finished = true ∧
      EntriesAccounted (pairOfCalls fun i => ⟨i.val⟩) s := by
  have h : exec (step (pairOfCalls fun i => ⟨i.val⟩)) (State.initial _ _)
    (returnsBeforeRemoval 0) = some _ := rfl
  exact ⟨_, h, rfl, rfl, (pendingTable_never_leaks (Run.of_exec h)).1⟩

end DriverBus.Services
