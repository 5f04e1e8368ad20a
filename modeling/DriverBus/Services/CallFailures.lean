import DriverBus.Services.CommandTransitions

/-!
# Why a call fails

The catch block removes by key and faults whatever source it took out. When a
second call has replaced the entry of a first one under the same Id, the first
one's failure is handed to the second. The runs in which this cannot happen
are those where no catch block takes out a pending source of another call; in
them every exception a call throws has its cause in that call.
-/

namespace DriverBus.Services

open DriverBus.Models DriverBus.Foundations

variable {ι τ : Type*}

/-- The call that takes a step; the reader and the owners of tokens take the others. -/
def Action.caller : Action ι τ → Option ι
  | .start i | .addOrUpdate i | .writeReturns i | .writeThrows i _ | .waitTimesOut i
  | .waitCanceled i | .resume i | .tryRemove i | .trySetException i | .disposeRegistration i
  | .cancelCallback i => some i
  | .cancel _ | .read _ | .readThrows | .tryGetValue | .trySetResult | .removeEntry => none

/-- The write of call `t` threw, its timeout elapsed, or its token was cancelled. -/
def OwnReason (c : Calls ι τ) (as : List (Action ι τ)) (t : ι) : Prop :=
  (∃ e, .writeThrows t e ∈ as) ∨ .waitTimesOut t ∈ as ∨ .cancel (c.token t) ∈ as

/-- The run threw `e` in the write of call `t`, or by its timeout, or by cancelling its token. -/
def OwnFailure (c : Calls ι τ) (as : List (Action ι τ)) (t : ι) : Failure → Prop
  | .write x => .writeThrows t x ∈ as
  | .timeout => .waitTimesOut t ∈ as
  | .canceled => .cancel (c.token t) ∈ as

/-- The catch block does not take the pending source of another call out of the table. -/
def TakesNoPendingSource (c : Calls ι τ) (s : State ι τ) (a : Action ι τ) : Prop :=
  ∀ i, a = .tryRemove i → ∀ u, s.dict (c.command i).id = some u → u = i ∨ s.task u ≠ none

instance [Fintype ι] [DecidableEq ι] [DecidableEq τ] (c : Calls ι τ) (s : State ι τ)
    (a : Action ι τ) : Decidable (TakesNoPendingSource c s a) :=
  inferInstanceAs (Decidable (∀ i, a = .tryRemove i → ∀ u, s.dict (c.command i).id = some u →
    u = i ∨ s.task u ≠ none))

/-- The exception a call is about to throw, or has thrown. -/
def Phase.failure? : Phase ι → Option Failure
  | .waiting (some (.throws e)) | .catching e | .faulting e _ | .leaving (.throws e)
  | .done (.throws e) => some e
  | _ => none

variable {c : Calls ι τ} {s s' : State ι τ} {a : Action ι τ} {as : List (Action ι τ)} {t j : ι}
  {e : Failure}

theorem OwnReason.snoc (h : OwnReason c as t) : OwnReason c (as ++ [a]) t := by
  rcases h with ⟨e, he⟩ | ht | hc
  · exact Or.inl ⟨e, List.mem_append_left _ he⟩
  · exact Or.inr (Or.inl (List.mem_append_left _ ht))
  · exact Or.inr (Or.inr (List.mem_append_left _ hc))

theorem OwnFailure.mono {bs : List (Action ι τ)} (h : OwnFailure c as t e) (hsub : as ⊆ bs) :
    OwnFailure c bs t e := by
  cases e with
  | write x => exact hsub h
  | timeout => exact hsub h
  | canceled => exact hsub h

theorem OwnFailure.reason (h : OwnFailure c as t e) : OwnReason c as t := by
  cases e with
  | write x => exact Or.inl ⟨x, h⟩
  | timeout => exact Or.inr (Or.inl h)
  | canceled => exact Or.inr (Or.inr h)

/-- A call turns to an exception by a step of its own that says which one it is, on finding its
token cancelled, or because its source holds the exception. -/
theorem PhaseChange.failure_source {p q : Phase ι} (h : PhaseChange c s s' j a p q)
    (hq : q.failure? = some e) :
    p.failure? = some e ∨ OwnFailure c [a] j e ∨
      (e = .canceled ∧ s.cancelled (c.token j) = true) ∨
      s.task j = some (.throws e) ∨ s'.task j = some (.throws e) := by
  cases h with
  | writeReturns =>
    cases htask : s.task j with
    | some o =>
      cases o with
      | returns r => simp [htask, waitAsync, Phase.failure?] at hq
      | throws x =>
        have hx : x = e := by simpa [htask, waitAsync, Phase.failure?] using hq
        rw [hx]
        simp
    | none =>
      -- `WaitAsync` looks at the token only when the source is still pending.
      cases hb : s.cancelled (c.token j) with
      | false => simp [htask, hb, waitAsync, Phase.failure?] at hq
      | true =>
        have he : .canceled = e := by simpa [htask, hb, waitAsync, Phase.failure?] using hq
        exact .inr (.inr (.inl ⟨he.symm, rfl⟩))
  | writeThrows x =>
    have he : .write x = e := by simpa [Phase.failure?] using hq
    subst he
    exact .inr (.inl (by simp [OwnFailure]))
  | waitTimesOut =>
    have he : .timeout = e := by simpa [Phase.failure?] using hq
    subst he
    exact .inr (.inl (by simp [OwnFailure]))
  | waitCanceled hc =>
    have he : .canceled = e := by simpa [Phase.failure?] using hq
    exact .inr (.inr (.inl ⟨he.symm, hc⟩))
  | sourceCompleted _ o ho =>
    cases o with
    | returns r => simp [Phase.failure?] at hq
    | throws x =>
      have hx : x = e := by simpa [Phase.failure?] using hq
      rw [hx] at ho
      exact .inr (.inr (.inr (.inr ho)))
  | disposeRegistration o =>
    cases o with
    | returns r => simp [Phase.failure?] at hq
    | throws x => exact .inl hq
  | resumeThrows x => exact .inl hq
  | tryRemove x => exact .inl hq
  | trySetException x removed => exact .inl hq
  | _ => simp [Phase.failure?] at hq

theorem PhaseChange.faulting {p : Phase ι} {e : Failure} {removed : Option ι}
    (h : PhaseChange c s s' j a p (.faulting e removed)) :
    a = .tryRemove j ∧ removed = s.dict (c.command j).id := by
  cases h
  exact ⟨rfl, rfl⟩

/-- A source that a catch block has removed and may still complete is its own. -/
def FaultsOwnSource (s : State ι τ) : Prop :=
  ∀ i e t, s.phase i = .faulting e (some t) → t = i ∨ s.task t ≠ none

/-- The causes recorded by the run explain every exception in the state. -/
structure Explained (c : Calls ι τ) (as : List (Action ι τ)) (s : State ι τ) : Prop where
  own : FaultsOwnSource s
  token : ∀ k, s.cancelled k = true → .cancel k ∈ as
  phase : ∀ t e, (s.phase t).failure? = some e → OwnReason c as t
  task : ∀ t e, s.task t = some (.throws e) → OwnReason c as t

theorem Explained.of_cancelled (he : Explained c as s) (hc : s.cancelled (c.token t) = true) :
    OwnReason c as t :=
  Or.inr (Or.inr (he.token _ hc))

theorem Explained.initial : Explained c [] (State.initial ι τ) := by
  constructor <;> simp [State.initial, FaultsOwnSource, Phase.failure?]

variable [DecidableEq ι] [DecidableEq τ]

theorem Transition.cancelled_change (h : Transition c s a s') {k : τ}
    (hk : s'.cancelled k = true) : s.cancelled k = true ∨ a = .cancel k := by
  cases h with
  | @cancel k' =>
    by_cases hkk : k = k'
    · exact Or.inr (by rw [hkk])
    · exact Or.inl (by simpa [Function.update_apply, hkk] using hk)
  | start hp =>
    left
    unfold startCall at hk
    split_ifs at hk <;> simpa using hk
  | @trySetException i e removed hp =>
    left
    cases removed <;> simpa [faultRemoved] using hk
  | trySetResult hr => exact Or.inl (by simpa [deliver] using hk)
  | _ => exact Or.inl (by simpa using hk)

/-- A token that is cancelled after a step has been cancelled by a step of the run. -/
theorem Transition.token_recorded (h : Transition c s a s')
    (htoken : ∀ k, s.cancelled k = true → .cancel k ∈ as) :
    ∀ k, s'.cancelled k = true → .cancel k ∈ as ++ [a] := by
  intro k hk
  rcases h.cancelled_change hk with hold | rfl
  · exact List.mem_append_left _ (htoken k hold)
  · simp

theorem Transition.faultsOwnSource (h : Transition c s a s') (hown : FaultsOwnSource s)
    (hg : TakesNoPendingSource c s a) : FaultsOwnSource s' := by
  intro i e t hp
  have hkept : s.task t ≠ none → s'.task t ≠ none := by
    intro hne
    obtain ⟨o, ho⟩ := Option.ne_none_iff_exists'.mp hne
    simp [h.task_stays ho]
  rcases h.phase_change i with heq | hch
  · exact (hown i e t (heq ▸ hp)).imp_right hkept
  · rw [hp] at hch
    obtain ⟨ha, hd⟩ := hch.faulting
    exact (hg i ha t hd.symm).imp_right hkept

/-- A source is completed with an exception by a step of the call that owns it. -/
theorem Transition.throws_by_caller (h : Transition c s a s') (hown : FaultsOwnSource s)
    {e : Failure} (hn : s.task t = none) (ht : s'.task t = some (.throws e)) :
    a.caller = some t := by
  rcases h.task_change t with heq | ⟨_, o, ho, hcomp⟩
  · rw [heq, hn] at ht
    cases ht
  · rw [ht] at ho
    cases ho
    cases hcomp with
    | start _ => rfl
    | cancelCallback _ => rfl
    | trySetException i _ hp =>
      rw [(hown i e t hp).resolve_right (not_not_intro hn)]
      rfl

theorem Transition.explained (h : Transition c s a s') (he : Explained c as s)
    (hg : TakesNoPendingSource c s a) : Explained c (as ++ [a]) s' := by
  have htask : ∀ t e, s'.task t = some (.throws e) → OwnReason c (as ++ [a]) t := by
    intro t e ht
    rcases h.task_change t with heq | ⟨hn, o, ho, hcomp⟩
    · exact (he.task t e (heq ▸ ht)).snoc
    · rw [ht] at ho
      cases ho
      cases hcomp with
      | start hc => exact (he.of_cancelled hc).snoc
      | cancelCallback hc => exact (he.of_cancelled hc).snoc
      | trySetException i _ hp =>
        have hti := (he.own i e t hp).resolve_right (not_not_intro hn)
        subst hti
        exact (he.phase t e (by rw [hp]; rfl)).snoc
  refine ⟨h.faultsOwnSource he.own hg, h.token_recorded he.token, ?_, htask⟩
  intro t e hp
  rcases h.phase_change t with heq | hch
  · exact (he.phase t e (heq ▸ hp)).snoc
  · rcases hch.failure_source hp with hold | hnew | ⟨-, hc⟩ | hs | hs'
    · exact (he.phase t e hold).snoc
    · exact (hnew.mono (List.subset_append_right as [a])).reason
    · exact (he.of_cancelled hc).snoc
    · exact (he.task t e hs).snoc
    · exact htask t e hs'

/-- Whoever has thrown had a reason of its own, and no step of another call completes a
source with an exception. -/
def FailsForOwnReasons (c : Calls ι τ) (as : List (Action ι τ)) (s : State ι τ) : Prop :=
  (∀ t e, s.phase t = .done (.throws e) → OwnReason c as t) ∧
    ∀ a s', step c s a = some s' → ∀ t e, s.task t = none → s'.task t = some (.throws e) →
      a.caller = some t

/-- In any run whose catch blocks take out no pending source of another call, every call
fails only for its own reasons. -/
theorem call_fails_for_own_reasons
    (h : Run (Guarded (TakesNoPendingSource c) (Steps (step c))) (State.initial ι τ) as s) :
    FailsForOwnReasons c as s := by
  have he : Explained c as s := h.history Explained.initial fun _ _ _ _ he hs =>
    (transition_of_step c hs.2).explained he hs.1
  refine ⟨fun t e hp => he.phase t e (by rw [hp]; rfl), fun a s' hs t e hn ht => ?_⟩
  exact (transition_of_step c hs).throws_by_caller he.own hn ht

/-- Call `j` replaces the entry of call `i` under the same Id; call `i` times out and faults the
source of call `j`. -/
def faultsReplacedEntry (i j : ι) : List (Action ι τ) :=
  [.start i, .addOrUpdate i, .start j, .addOrUpdate j, .writeReturns i, .writeReturns j,
    .waitTimesOut i, .resume i, .tryRemove i, .trySetException i, .resume j, .tryRemove j,
    .trySetException j, .disposeRegistration j]

theorem call_fails_for_another : ∃ s,
    Run (Steps (step (pairOfCalls fun _ => ⟨7⟩))) (State.initial _ _) (faultsReplacedEntry 0 1) s ∧
      ¬ FailsForOwnReasons (pairOfCalls fun _ => ⟨7⟩) (faultsReplacedEntry 0 1) s := by
  have h : exec (step (pairOfCalls fun _ => ⟨7⟩)) (State.initial _ _) (faultsReplacedEntry 0 1) =
    some _ := rfl
  refine ⟨_, Run.of_exec h, fun hf => ?_⟩
  have hreason := hf.1 1 .timeout rfl
  simp [OwnReason, faultsReplacedEntry, pairOfCalls] at hreason

/-- The same two calls, with the timeout striking the one that owns the entry. -/
def faultsOwnEntry (i j : ι) : List (Action ι τ) :=
  [.start i, .addOrUpdate i, .start j, .addOrUpdate j, .writeReturns i, .writeReturns j,
    .waitTimesOut j, .resume j, .tryRemove j, .trySetException j, .disposeRegistration j]

theorem call_fails_for_own_reasons_timeout : ∃ s,
    exec (step (pairOfCalls fun _ => ⟨7⟩)) (State.initial _ _) (faultsOwnEntry 0 1) = some s ∧
      s.phase 1 = .done (.throws .timeout) ∧
      FailsForOwnReasons (pairOfCalls fun _ => ⟨7⟩) (faultsOwnEntry 0 1) s := by
  have h : exec (guardStep (TakesNoPendingSource (pairOfCalls fun _ => ⟨7⟩))
    (step (pairOfCalls fun _ => ⟨7⟩))) (State.initial _ _) (faultsOwnEntry 0 1) = some _ := rfl
  exact ⟨_, rfl, rfl, call_fails_for_own_reasons (Run.of_exec_guarded h)⟩

end DriverBus.Services
