import DriverBus.Services.CallFailures
import DriverBus.Services.PendingTable

/-!
# What becomes of an accepted reply

A call waits on two cells, its source and the task `WaitAsync` made of it, and
its `WriteAsync` may throw after the driver has answered. `TrySetResult` only
looks at the source. The reply it accepts reaches the caller when the call is
still in time, and it is dropped when the call has already turned to an
exception or its write throws later. That exception is the call's own: as long
as the source holds none, nobody else can have handed one to the call.
-/

namespace DriverBus.Services

open DriverBus.Models DriverBus.Foundations

variable {ι τ : Type*}

/-- The reader is about to execute a `TrySetResult(r)` that returns true for call `t`. -/
def Accepts (s : State ι τ) (t : ι) (r : CommandResult) : Prop :=
  s.reader = .found r t ∧ s.task t = none

/-- `WriteAsync` is awaited, or the `WaitAsync` task is still pending. -/
def InTime (s : State ι τ) (t : ι) : Prop :=
  s.phase t = .writing ∨ s.phase t = .waiting none

/-- What the run records of cancelled tokens, and of the exception of any call whose source
holds none. -/
structure FailuresRecorded (c : Calls ι τ) (as : List (Action ι τ)) (s : State ι τ) : Prop where
  token : ∀ k, s.cancelled k = true → .cancel k ∈ as
  own : ∀ t, (∀ e, s.task t ≠ some (.throws e)) →
    ∀ e, (s.phase t).failure? = some e → OwnFailure c as t e

/-- The steps with which a call returns the result its source holds. -/
def finishing (t : ι) : List (Action ι τ) :=
  [.writeReturns t, .resume t, .disposeRegistration t]

/-- A call with an accepted reply `r` that will return it unless its write throws. -/
def OnWay (s : State ι τ) (t : ι) (r : CommandResult) : Prop :=
  s.task t = some (.returns r) ∧ (s.phase t = .writing ∨ (s.phase t).result? = some r)

variable {c : Calls ι τ} {s s' s₁ s₂ : State ι τ} {a : Action ι τ}
  {as before after : List (Action ι τ)} {t j : ι} {r : CommandResult} {e : Failure}

theorem PhaseChange.failure_stays {p q : Phase ι} (h : PhaseChange c s s' j a p q)
    (hp : p.failure? = some e) : q.failure? = some e := by
  cases h with
  | disposeRegistration o => cases o <;> simp_all [Phase.failure?]
  | _ => simp_all [Phase.failure?]

theorem PhaseChange.result_stays {p q : Phase ι} (h : PhaseChange c s s' j a p q)
    (hp : p.result? = some r) : q.result? = some r := by
  cases h with
  | disposeRegistration o => cases o <;> simp_all [Phase.result?]
  | _ => simp_all [Phase.result?]

/-- While `WriteAsync` is awaited, only its outcome moves the call on. -/
theorem PhaseChange.of_writing {q : Phase ι} (h : PhaseChange c s s' j a .writing q) :
    q = .waiting (waitAsync (s.task j) (s.cancelled (c.token j))) ∨ ∃ x, a = .writeThrows j x := by
  cases h with
  | writeReturns => exact Or.inl rfl
  | writeThrows x => exact Or.inr ⟨x, rfl⟩

theorem failure?_of_result (p : Phase ι) (hp : p.result? = some r) : p.failure? = none := by
  unfold Phase.result? at hp
  split at hp <;> simp_all [Phase.failure?]

/-- A call whose source is found while pending is in time or has turned to an exception. -/
theorem Consistent.inTime_or_failure (hi : Consistent c s) (ha : Accepts s t r) :
    InTime s t ∨ ∃ e, (s.phase t).failure? = some e := by
  obtain ⟨hf, hn⟩ := ha
  have hadded := hi.found_added r t hf
  have hno : ∀ r', (s.phase t).result? ≠ some r' := by
    intro r' hr
    have htask := hi.settled t r' hr
    rw [hn] at htask
    cases htask
  cases hp : s.phase t with
  | notStarted => simp [hp, Phase.added] at hadded
  | registered => simp [hp, Phase.added] at hadded
  | writing => exact Or.inl (Or.inl hp)
  | waiting w =>
    rcases w with _ | (r' | e)
    · exact Or.inl (Or.inr hp)
    · exact absurd (by rw [hp]; rfl) (hno r')
    · exact Or.inr ⟨e, rfl⟩
  | catching e => exact Or.inr ⟨e, rfl⟩
  | faulting e removed => exact Or.inr ⟨e, rfl⟩
  | leaving o =>
    rcases o with r' | e
    · exact absurd (by rw [hp]; rfl) (hno r')
    · exact Or.inr ⟨e, rfl⟩
  | done o =>
    rcases o with r' | e
    · exact absurd (by rw [hp]; rfl) (hno r')
    · exact Or.inr ⟨e, rfl⟩

theorem outcome_of_failure {o : Outcome} (hp : s.phase t = .done o)
    (hf : (s.phase t).failure? = some e) : o = .throws e := by
  cases o with
  | returns r => simp [hp, Phase.failure?] at hf
  | throws x =>
    have hx : x = e := by simpa [hp, Phase.failure?] using hf
    rw [hx]

theorem FailuresRecorded.initial : FailuresRecorded c [] (State.initial ι τ) := by
  constructor <;> simp [State.initial, Phase.failure?]

variable [DecidableEq ι] [DecidableEq τ]

theorem Transition.failure_stays (h : Transition c s a s') (hp : (s.phase t).failure? = some e) :
    (s'.phase t).failure? = some e := by
  rcases h.phase_change t with heq | hch
  · rw [heq, hp]
  · exact hch.failure_stays hp

/-- A call that has turned to an exception keeps it. -/
theorem failure_of_run (h : Run (Steps (step c)) s as s') (hp : (s.phase t).failure? = some e) :
    (s'.phase t).failure? = some e :=
  h.invariant (P := fun u => (u.phase t).failure? = some e) hp fun _ _ _ hu hs =>
    (transition_of_step c hs).failure_stays hu

/-- A call whose write throws keeps that exception. -/
theorem failure_of_writeThrows {x : Exn} (h : Run (Steps (step c)) s as s') :
    .writeThrows t x ∈ as → (s'.phase t).failure? = some (.write x) := by
  refine h.history (P := fun as u => .writeThrows t x ∈ as →
    (u.phase t).failure? = some (.write x)) (by simp) ?_
  intro as u a v ih hs hx
  have hstep := transition_of_step c hs
  rcases List.mem_append.mp hx with hold | hnew
  · exact hstep.failure_stays (ih hold)
  · have ha := List.mem_singleton.mp hnew
    subst ha
    cases hstep with
    | writeThrows hp => simp [Phase.failure?]

theorem Transition.failuresRecorded (h : Transition c s a s') (hi : FailuresRecorded c as s) :
    FailuresRecorded c (as ++ [a]) s' := by
  refine ⟨h.token_recorded hi.token, fun t hsource e he => ?_⟩
  have hbefore : ∀ e, s.task t ≠ some (.throws e) := fun x hx => hsource x (h.task_stays hx)
  have hkept : (s.phase t).failure? = some e → OwnFailure c (as ++ [a]) t e := by
    intro hp
    exact (hi.own t hbefore e hp).mono (List.subset_append_left _ _)
  rcases h.phase_change t with heq | hch
  · rw [heq] at he
    exact hkept he
  · rcases hch.failure_source he with hold | hnew | ⟨rfl, hc⟩ | hs | hs'
    · exact hkept hold
    · exact hnew.mono (List.subset_append_right _ _)
    · exact List.mem_append_left _ (hi.token _ hc)
    · exact absurd hs (hbefore e)
    · exact absurd hs' (hsource e)

theorem failuresRecorded_of_run (h : Run (Steps (step c)) (State.initial ι τ) as s) :
    FailuresRecorded c as s :=
  h.history .initial fun _ _ _ _ hi hs => (transition_of_step c hs).failuresRecorded hi

theorem Transition.onWay (h : Transition c s a s') (hw : OnWay s t r)
    (hno : ∀ x, a ≠ .writeThrows t x) : OnWay s' t r := by
  obtain ⟨htask, hphase⟩ := hw
  refine ⟨h.task_stays htask, ?_⟩
  rcases h.phase_change t with heq | hch
  · rw [heq]
    exact hphase
  · rcases hphase with hwr | hres
    · rw [hwr] at hch
      rcases hch.of_writing with hq | ⟨x, hx⟩
      · right
        rw [hq, htask]
        rfl
      · exact absurd hx (hno x)
    · exact Or.inr (hch.result_stays hres)

/-- Accepting a reply in time puts the call on its way. -/
theorem Transition.accepted (h : Transition c s .trySetResult s') (ha : Accepts s t r)
    (hin : InTime s t) : OnWay s' t r := by
  obtain ⟨hf, hn⟩ := ha
  rw [h.trySetResult_state hf]
  rcases hin with hp | hp
  · simp [OnWay, deliver, hn, hp, Phase.sourceCompleted]
  · simp [OnWay, deliver, hn, hp, Phase.sourceCompleted, Phase.result?]

theorem onWay_of_run (h : Run (Steps (step c)) s as s') (hw : OnWay s t r) :
    (∀ x, .writeThrows t x ∉ as) → OnWay s' t r := by
  refine h.history (P := fun as u => (∀ x, .writeThrows t x ∉ as) → OnWay u t r)
    (fun _ => hw) ?_
  intro as u a v ih hs hno
  refine (transition_of_step c hs).onWay (ih fun x hx => hno x (by simp [hx])) ?_
  rintro x rfl
  exact hno x (by simp)

theorem exec_dispose {o : Outcome} (hp : s.phase t = .leaving o) :
    exec (step c) s [.disposeRegistration t] = some (s.setPhase t (.done o)) := by
  simp [step, hp]

theorem exec_resume (hp : s.phase t = .waiting (some (.returns r))) :
    ∃ s', exec (step c) s [.resume t, .disposeRegistration t] = some s' ∧
      s'.phase t = .done (.returns r) := by
  have hstep : step c s (.resume t) = some (s.setPhase t (.leaving (.returns r))) := by
    simp [step, hp]
  refine ⟨(s.setPhase t (.leaving (.returns r))).setPhase t (.done (.returns r)), ?_, by simp⟩
  rw [exec_cons, hstep]
  exact exec_dispose (by simp)

/-- A call on its way returns the result by steps of its own. -/
theorem OnWay.finishes (hw : OnWay s t r) : ∃ as s', as <:+ finishing t ∧
    exec (step c) s as = some s' ∧ s'.phase t = .done (.returns r) := by
  obtain ⟨htask, hp | hp⟩ := hw
  · have hstep : step c s (.writeReturns t) =
        some (s.setPhase t (.waiting (some (.returns r)))) := by
      simp [step, hp, htask, waitAsync]
    obtain ⟨s', hexec, hdone⟩ :=
      exec_resume (c := c) (s := s.setPhase t (.waiting (some (.returns r)))) (t := t) (r := r)
        (by simp)
    refine ⟨finishing t, s', List.suffix_rfl, ?_, hdone⟩
    rw [finishing, exec_cons, hstep]
    exact hexec
  · cases hphase : s.phase t with
    | waiting w =>
      rw [hphase] at hp
      rcases w with _ | (r' | e) <;> simp [Phase.result?] at hp
      subst hp
      obtain ⟨s', hexec, hdone⟩ := exec_resume (c := c) hphase
      exact ⟨_, s', ⟨[.writeReturns t], rfl⟩, hexec, hdone⟩
    | leaving o =>
      rw [hphase] at hp
      rcases o with r' | e <;> simp [Phase.result?] at hp
      subst hp
      exact ⟨_, _, ⟨[.writeReturns t, .resume t], rfl⟩, exec_dispose hphase, by simp⟩
    | done o =>
      rw [hphase] at hp
      rcases o with r' | e <;> simp [Phase.result?] at hp
      subst hp
      exact ⟨[], s, List.nil_suffix, rfl, hphase⟩
    | _ => simp [hphase, Phase.result?] at hp

/-- Whenever a `TrySetResult(r)` returns true for a call, the call ends by returning `r`. -/
def AcceptedRepliesReturned (c : Calls ι τ) : Prop :=
  ∀ before after s₁ s₂ t r, Run (Steps (step c)) (State.initial ι τ) before s₁ →
    Accepts s₁ t r → Run (Steps (step c)) s₁ (.trySetResult :: after) s₂ →
      ∀ o, s₂.phase t = .done o → o = .returns r

/-- What becomes of call `t` after a `TrySetResult(r)` for it in `s₁` that led to `s₂`. -/
structure ReplyReachesInTimeCall (c : Calls ι τ) (before after : List (Action ι τ))
    (s₁ s₂ : State ι τ) (t : ι) (r : CommandResult) : Prop where
  /-- It ends by returning `r` if and only if it was in time and its write does not throw. -/
  returns_iff : ∀ o, s₂.phase t = .done o →
    (o = .returns r ↔ InTime s₁ t ∧ ∀ x, .writeThrows t x ∉ after)
  /-- In that case it cannot be kept from returning `r`. -/
  finishes : InTime s₁ t → (∀ x, .writeThrows t x ∉ after) → (s₂.phase t).failure? = none ∧
    ∃ as s₃, as <:+ finishing t ∧ exec (step c) s₂ as = some s₃ ∧ s₃.phase t = .done (.returns r)
  /-- A call that was late rethrows its own exception, which it had before the reply. -/
  late : ¬ InTime s₁ t → ∀ o, s₂.phase t = .done o → ∃ e, o = .throws e ∧ OwnFailure c before t e
  /-- A call whose write throws afterwards rethrows the exception of that write. -/
  writeThrows : ∀ x, .writeThrows t x ∈ after → ∀ o, s₂.phase t = .done o → o = .throws (.write x)

/-- A run that begins with an accepted reply, split at that step. -/
theorem run_after_accept (h : Run (Steps (step c)) s₁ (.trySetResult :: after) s₂) :
    ∃ s, Transition c s₁ .trySetResult s ∧ Run (Steps (step c)) s after s₂ := by
  obtain ⟨s, hs, hrest⟩ := Option.bind_eq_some_iff.mp h.exec_eq
  exact ⟨s, transition_of_step c hs, Run.of_exec hrest⟩

/-- A call that is late when its reply is accepted has an exception, and keeps it. -/
theorem late_failure (h : Run (Steps (step c)) (State.initial ι τ) before s₁)
    (ha : Accepts s₁ t r) (h' : Run (Steps (step c)) s₁ (.trySetResult :: after) s₂)
    (hlate : ¬ InTime s₁ t) :
    ∃ e, (s₂.phase t).failure? = some e ∧ OwnFailure c before t e := by
  obtain ⟨e, he⟩ := ((consistent_of_run h).inTime_or_failure ha).resolve_left hlate
  have hpending : ∀ x, s₁.task t ≠ some (.throws x) := by
    rw [ha.2]
    simp
  exact ⟨e, failure_of_run h' he, (failuresRecorded_of_run h).own t hpending e he⟩

/-- In every interleaving, an accepted reply reaches its caller when the call still awaits its
write or its `WaitAsync` task and the write does not throw later, and otherwise the call rethrows
an exception of its own. -/
theorem accepted_reply_reaches_caller (h : Run (Steps (step c)) (State.initial ι τ) before s₁)
    (ha : Accepts s₁ t r) (h' : Run (Steps (step c)) s₁ (.trySetResult :: after) s₂) :
    ReplyReachesInTimeCall c before after s₁ s₂ t r := by
  obtain ⟨s, hs, hrest⟩ := run_after_accept h'
  have hway : InTime s₁ t → (∀ x, .writeThrows t x ∉ after) → OnWay s₂ t r := by
    intro hin hno
    exact onWay_of_run hrest (hs.accepted ha hin) hno
  constructor
  case returns_iff =>
    intro o ho
    constructor
    · rintro rfl
      constructor
      · by_contra hlate
        obtain ⟨e, he, _⟩ := late_failure h ha h' hlate
        cases outcome_of_failure ho he
      · intro x hx
        cases outcome_of_failure ho (failure_of_writeThrows hrest hx)
    · rintro ⟨hin, hno⟩
      obtain ⟨_, hw | hres⟩ := hway hin hno
      · rw [ho] at hw
        cases hw
      · rw [ho] at hres
        rcases o with r' | e <;> simp [Phase.result?] at hres
        rw [hres]
  case finishes =>
    intro hin hno
    have hw := hway hin hno
    refine ⟨?_, hw.finishes⟩
    obtain ⟨_, hp | hp⟩ := hw
    · rw [hp]
      rfl
    · exact failure?_of_result _ hp
  case late =>
    intro hlate o ho
    obtain ⟨e, he, hown⟩ := late_failure h ha h' hlate
    exact ⟨e, outcome_of_failure ho he, hown⟩
  case writeThrows =>
    intro x hx o ho
    exact outcome_of_failure ho (failure_of_writeThrows hrest hx)

/-- The reader looks up the source of call `i`, and the timeout fires before it sets the result. -/
def timesOutBeforeReply (i : ι) : List (Action ι τ) :=
  [.start i, .addOrUpdate i, .writeReturns i, .read (success ⟨0⟩), .tryGetValue, .waitTimesOut i]

def throwsAfterReply (i : ι) : List (Action ι τ) :=
  [.removeEntry, .resume i, .tryRemove i, .trySetException i, .disposeRegistration i]

theorem accepted_reply_lost :
    Function.Injective (fun i => ((pairOfCalls fun i => ⟨i.val⟩).command i).id) ∧
      ¬ AcceptedRepliesReturned (pairOfCalls fun i => ⟨i.val⟩) := by
  have h : exec (step (pairOfCalls fun i => ⟨i.val⟩)) (State.initial _ _) (timesOutBeforeReply 0) =
    some _ := rfl
  refine ⟨by decide, fun hclaim => ?_⟩
  have hr := hclaim _ (throwsAfterReply 0) _ _ 0 (success ⟨0⟩) (Run.of_exec h) ⟨rfl, rfl⟩
    (Run.of_exec rfl) (.throws .timeout) rfl
  cases hr

/-- The reply arrives while the write is awaited; the call returns it. -/
def repliesDuringWrite (i : ι) : List (Action ι τ) :=
  [.start i, .addOrUpdate i, .read (success ⟨0⟩), .tryGetValue]

theorem accepted_reply_reaches_caller_early : ∃ s₁ s₂,
    exec (step (pairOfCalls fun i => ⟨i.val⟩)) (State.initial _ _) (repliesDuringWrite 0) =
        some s₁ ∧
      exec (step (pairOfCalls fun i => ⟨i.val⟩)) s₁
        [.trySetResult, .cancel 0, .writeReturns 0, .resume 0, .disposeRegistration 0] = some s₂ ∧
      s₂.phase 0 = .done (.returns (success ⟨0⟩)) ∧
      ReplyReachesInTimeCall (pairOfCalls fun i => ⟨i.val⟩) (repliesDuringWrite 0)
        [.cancel 0, .writeReturns 0, .resume 0, .disposeRegistration 0] s₁ s₂ 0 (success ⟨0⟩) := by
  have h : exec (step (pairOfCalls fun i => ⟨i.val⟩)) (State.initial _ _) (repliesDuringWrite 0) =
    some _ := rfl
  exact ⟨_, _, h, rfl, rfl,
    accepted_reply_reaches_caller (Run.of_exec h) ⟨rfl, rfl⟩ (Run.of_exec rfl)⟩

end DriverBus.Services
