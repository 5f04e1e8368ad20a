import DriverBus.Pipe.StreamField

/-!
# Reconnects that fail

Callbacks that run one after another, with failures from outside. A failed
creation leaves nothing behind. A failed wait for the driver leaves the new
instance: it is neither assigned to the field nor disposed, and since at most
one instance of the name may exist, every later creation fails because of it.
-/

namespace DriverBus.Pipe.Reconnect

open DriverBus.Foundations

variable {s s' : State Unit} {a : Action Unit} {as : List (Action Unit)}

/-- What the one callback in progress and the field know about the instances, whatever fails. -/
structure Sequential (s : State Unit) : Prop where
  fresh : ∀ n, s.next ≤ n → s.status n = .absent
  settled : s.status s.field ≠ .absent ∧ s.status s.field ≠ .listening
  current : ∀ c, (s.callback ()).stream? = some c → c = s.field
  closed : (s.callback ()).reconnecting = true → s.status s.field = .disposed
  owned : ∀ n, (s.callback ()).owned? = some n → (s.status n).undisposed = true
  arrived : ∀ n, s.callback () = .assigning n → s.status n ≠ .listening

/-- Every undisposed instance is the field's, or the callback in progress will assign it. -/
def NoOrphan (s : State Unit) : Prop :=
  ∀ n, (s.status n).undisposed = true → n = s.field ∨ (s.callback ()).owned? = some n

theorem Sequential.initial : Sequential (State.initial Unit) := by
  constructor
  · intro n hn
    have hpos : n ≠ 0 := by
      have hone : 1 ≤ n := hn
      omega
    simp [State.initial, hpos]
  all_goals simp [State.initial, Callback.stream?, Callback.reconnecting, Callback.owned?]

theorem NoOrphan.initial : NoOrphan (State.initial Unit) := by
  intro n hn
  left
  by_contra hne
  have hzero : n ≠ 0 := hne
  simp [State.initial, hzero, Status.undisposed] at hn

theorem Sequential.setCallback (h : Sequential s) {p : Callback}
    (hcurrent : ∀ c, p.stream? = some c → c = s.field)
    (hclosed : p.reconnecting = true → s.status s.field = .disposed)
    (howned : ∀ n, p.owned? = some n → (s.status n).undisposed = true)
    (harrived : ∀ n, p = .assigning n → s.status n ≠ .listening) :
    Sequential (s.setCallback () p) := by
  refine ⟨h.fresh, h.settled, ?_, ?_, ?_, ?_⟩ <;> simpa

theorem Sequential.idle (h : Sequential s) : Sequential (s.setCallback () .idle) := by
  apply h.setCallback <;> simp [Callback.stream?, Callback.reconnecting, Callback.owned?]

/-- The driver connects or drops: the instance stays undisposed. -/
theorem Sequential.setStatus (h : Sequential s) {n : ℕ} {st : Status}
    (hold : (s.status n).undisposed = true) (hst : st = .connected ∨ st = .broken) :
    Sequential (s.setStatus n st) := by
  have hnew : st ≠ .absent ∧ st ≠ .listening ∧ st ≠ .disposed ∧ st.undisposed = true := by
    rcases hst with rfl | rfl <;> simp [Status.undisposed]
  refine ⟨?_, ?_, h.current, ?_, ?_, ?_⟩
  · intro m hm
    have hmn : m ≠ n := by
      rintro rfl
      simp [h.fresh m hm, Status.undisposed] at hold
    simpa [hmn] using h.fresh m hm
  · by_cases hf : s.field = n
    · simp [hf, hnew]
    · simpa [hf] using h.settled
  · intro hr
    have hd := h.closed hr
    have hf : s.field ≠ n := by
      intro hf
      rw [hf] at hd
      simp [hd, Status.undisposed] at hold
    simpa [hf] using hd
  · intro m hm
    by_cases hmn : m = n
    · simp [hmn, hnew]
    · simpa [hmn] using h.owned m hm
  · intro m hm
    by_cases hmn : m = n
    · simp [hmn, hnew]
    · simpa [hmn] using h.arrived m hm

theorem Sequential.dispose (h : Sequential s) {x : ℕ} (hp : s.callback () = .disposing x) :
    Sequential ((s.setStatus x .disposed).setCallback () .creating) := by
  have hx : x = s.field := h.current x (by rw [hp]; rfl)
  constructor
  · intro m hm
    have hmx : m ≠ x := by
      rintro rfl
      exact h.settled.1 (hx ▸ h.fresh m hm)
    simpa [hmx] using h.fresh m hm
  all_goals simp [hx, Callback.stream?, Callback.owned?]

theorem Sequential.create (h : Sequential s) (hp : s.callback () = .creating) :
    Sequential { (s.setStatus s.next .listening).setCallback () (.awaiting s.next) with
      next := s.next + 1 } := by
  have hclosed := h.closed (by rw [hp]; rfl)
  have hf : s.field ≠ s.next := by
    intro hf
    have habsent := h.fresh s.field (by omega)
    rw [hclosed] at habsent
    cases habsent
  constructor
  · intro m hm
    have hle : s.next + 1 ≤ m := hm
    have hmn : m ≠ s.next := by omega
    simpa [hmn] using h.fresh m (by omega)
  · simp [hf, hclosed]
  · simp [Callback.stream?]
  · simp [hf, hclosed]
  · simp [Callback.owned?, Status.undisposed]
  · simp

theorem Sequential.assignNew (h : Sequential s) {n : ℕ} (hp : s.callback () = .assigning n) :
    Sequential { s.setCallback () .idle with field := n } := by
  have howned := h.owned n (by rw [hp]; rfl)
  have hsettled : s.status n ≠ .absent := by
    intro habsent
    simp [habsent, Status.undisposed] at howned
  constructor
  · exact h.fresh
  · exact ⟨hsettled, h.arrived n hp⟩
  all_goals simp [Callback.stream?, Callback.reconnecting, Callback.owned?]

theorem Transition.sequential (h : Transition s a s') (hs : Sequential s) : Sequential s' := by
  cases h with
  | capture hp =>
    apply hs.setCallback
    · intro c hc
      exact (Option.some.inj hc).symm
    all_goals simp [Callback.reconnecting, Callback.owned?]
  | testKeeps hp hst =>
    apply hs.setCallback
    · intro d hd
      apply hs.current d
      rw [hp]
      exact hd
    all_goals simp [Callback.reconnecting, Callback.owned?]
  | testFails hp hst =>
    apply hs.setCallback <;> simp [Callback.stream?, Callback.reconnecting, Callback.owned?]
  | reread hp =>
    apply hs.setCallback
    · intro c hc
      exact (Option.some.inj hc).symm
    all_goals simp [Callback.reconnecting, Callback.owned?]
  | dispose hp => exact hs.dispose hp
  | create hp hfree => exact hs.create hp
  | createRefused | createThrows | waitThrows => exact hs.idle
  | waitReturns hp hst =>
    apply hs.setCallback
    · simp [Callback.stream?]
    · intro _
      exact hs.closed (by rw [hp]; rfl)
    · intro m hm
      apply hs.owned m
      rw [hp]
      exact hm
    · intro m hm
      cases hm
      rcases hst with hst | hst <;> simp [hst]
  | assignKept hp =>
    have hc := hs.current _ (by rw [hp]; rfl)
    rw [hc]
    exact hs.idle
  | assignNew hp => exact hs.assignNew hp
  | connect hst => exact hs.setStatus (by rw [hst]; rfl) (.inl rfl)
  | drop hst => exact hs.setStatus (by rw [hst]; rfl) (.inr rfl)

theorem NoOrphan.setCallback (h : NoOrphan s) {p : Callback}
    (hp : ∀ n, (s.callback ()).owned? = some n → p.owned? = some n) :
    NoOrphan (s.setCallback () p) := by
  intro n hn
  rcases h n hn with hfield | howned
  · exact .inl hfield
  · right
    simpa using hp n howned

theorem NoOrphan.setStatus (h : NoOrphan s) {n : ℕ} {st : Status}
    (hold : (s.status n).undisposed = true) : NoOrphan (s.setStatus n st) := by
  intro m hm
  by_cases hmn : m = n
  · rw [hmn]
    exact h n hold
  · apply h m
    simpa [hmn] using hm

/-- Nothing but a failed wait leaves an instance behind. -/
theorem Transition.noOrphan (h : Transition s a s') (hs : Sequential s) (hn : NoOrphan s)
    (ha : a ≠ .waitThrows ()) : NoOrphan s' := by
  cases h with
  | capture hp | testKeeps hp | testFails hp | reread hp | createRefused hp | createThrows hp =>
    apply hn.setCallback
    rw [hp]
    simp [Callback.owned?]
  | @dispose _ x hp =>
    intro n hundisposed
    have hx : x = s.field := hs.current x (by rw [hp]; rfl)
    have hnx : n ≠ x := by
      rintro rfl
      simp [Status.undisposed] at hundisposed
    rcases hn n (by simpa [hnx] using hundisposed) with hfield | howned
    · exact absurd (hfield.trans hx.symm) hnx
    · rw [hp] at howned
      cases howned
  | create hp hfree =>
    intro n hundisposed
    by_cases hnext : n = s.next
    · right
      simp [hnext, Callback.owned?]
    · exfalso
      have hold : (s.status n).undisposed = true := by simpa [hnext] using hundisposed
      apply hfree
      refine ⟨n, ?_, hold⟩
      by_contra hle
      simp [hs.fresh n (by omega), Status.undisposed] at hold
  | waitReturns hp =>
    apply hn.setCallback
    rw [hp]
    intro n howned
    exact howned
  | waitThrows => exact absurd rfl ha
  | assignKept hp =>
    have hc := hs.current _ (by rw [hp]; rfl)
    rw [hc]
    apply hn.setCallback
    rw [hp]
    simp [Callback.owned?]
  | assignNew hp =>
    intro m hm
    left
    rcases hn m hm with hfield | howned
    · have hclosed := hs.closed (by rw [hp]; rfl)
      rw [← hfield] at hclosed
      have hm' : (s.status m).undisposed = true := hm
      simp [hclosed, Status.undisposed] at hm'
    · rw [hp] at howned
      exact (Option.some.inj howned).symm
  | connect hst => exact hn.setStatus (by rw [hst]; rfl)
  | drop hst => exact hn.setStatus (by rw [hst]; rfl)

/-- After a failed wait the new instance is there, and the field refers to another one. -/
theorem Transition.orphan (h : Transition s (.waitThrows ()) s') (hs : Sequential s) :
    AtRest s' ∧ ∃ n, (s'.status n).undisposed = true ∧ n ≠ s'.field := by
  cases h with
  | @waitThrows _ n hp =>
    have howned := hs.owned n (by rw [hp]; rfl)
    have hclosed := hs.closed (by rw [hp]; rfl)
    constructor
    · intro i
      simp
    · refine ⟨n, howned, ?_⟩
      intro hfield
      rw [State.setCallback_field] at hfield
      rw [hfield, hclosed] at howned
      cases howned

/-- After each execution every undisposed instance is the field's, and a reconnect about to
create an instance finds none of the name. -/
structure FieldOwnsInstances (as : List (Action Unit)) : Prop where
  afterEach : ∀ before after t, as = before ++ after →
    Run (Steps step) (State.initial Unit) before t → AtRest t →
    ∀ n, (t.status n).undisposed = true → n = t.field
  beforeCreation : ∀ before after t, as = before ++ after →
    Run (Steps step) (State.initial Unit) before t → t.callback () = .creating →
    ¬ ∃ n < t.next, (t.status n).undisposed = true

theorem sequential_of_run (h : Run (Steps step) (State.initial Unit) as s) : Sequential s :=
  h.invariant Sequential.initial fun _ _ _ hs hstep => (transition_of_step hstep).sequential hs

theorem noOrphan_of_run (h : Run (Steps step) (State.initial Unit) as s)
    (hwait : ∀ a ∈ as, a ≠ .waitThrows ()) : NoOrphan s := by
  have hboth : (∀ a ∈ as, a ≠ .waitThrows ()) → Sequential s ∧ NoOrphan s := by
    apply h.history (P := fun as s => (∀ a ∈ as, a ≠ .waitThrows ()) → Sequential s ∧ NoOrphan s)
    · intro _
      exact ⟨Sequential.initial, NoOrphan.initial⟩
    · intro as t a u ih hstep hall
      obtain ⟨hs, hn⟩ := ih fun b hb => hall b (List.mem_append_left _ hb)
      have htrans := transition_of_step hstep
      exact ⟨htrans.sequential hs, htrans.noOrphan hs hn (hall a (by simp))⟩
  exact (hboth hwait).2

/-- The field accounts for every instance, and no reconnect fails because of one left over,
exactly when no wait for the driver throws. -/
theorem fieldOwnsInstances_iff (h : Run (Steps step) (State.initial Unit) as s) :
    FieldOwnsInstances as ↔ ∀ a ∈ as, a ≠ .waitThrows () := by
  constructor
  · rintro hown a ha rfl
    obtain ⟨before, after, rfl⟩ := List.append_of_mem ha
    have hsplit : Run (Steps step) (State.initial Unit)
        (before ++ [.waitThrows ()] ++ after) s := by
      simpa using h
    obtain ⟨t, hfront, -⟩ := hsplit.split
    obtain ⟨u, hbefore, hstep⟩ := hfront.last
    obtain ⟨hrest, n, hn, hne⟩ := (transition_of_step hstep).orphan (sequential_of_run hbefore)
    exact hne (hown.afterEach _ after t (by simp) hfront hrest n hn)
  · intro hwait
    constructor
    · intro before after t heq hrun hrest n hn
      have hnone := noOrphan_of_run hrun fun a ha =>
        hwait a (by rw [heq]; exact List.mem_append_left _ ha)
      rcases hnone n hn with hfield | howned
      · exact hfield
      · rw [hrest ()] at howned
        cases howned
    · rintro before after t heq hrun hp ⟨n, -, hn⟩
      have hnone := noOrphan_of_run hrun fun a ha =>
        hwait a (by rw [heq]; exact List.mem_append_left _ ha)
      have hclosed := (sequential_of_run hrun).closed (by rw [hp]; rfl)
      rcases hnone n hn with hfield | howned
      · rw [hfield, hclosed] at hn
        cases hn
      · rw [hp] at howned
        cases howned

/-- One execution of the callback up to the creation of the new instance. -/
def untilCreation : List (Action Unit) := [.capture (), .test (), .reread (), .dispose ()]

/-- The driver connects and closes at once, and the wait throws. -/
def failedWait : List (Action Unit) := .drop 0 :: untilCreation ++ [.create (), .waitThrows ()]

/-- Instance 1 is left over, and the next execution cannot create another one. -/
theorem failed_wait_leaves_instance : ∃ s t u,
    Run (Steps step) (State.initial Unit) failedWait s ∧ AtRest s ∧
      (s.status 1).undisposed = true ∧ s.field = 0 ∧ ¬ FieldOwnsInstances failedWait ∧
      Run (Steps step) s untilCreation t ∧ step t (.create ()) = some u ∧
      AtRest u ∧ u.next = t.next ∧ u.status u.field = .disposed := by
  have h : exec step (State.initial Unit) failedWait = some _ := rfl
  refine ⟨_, _, _, Run.of_exec h, fun _ => rfl, rfl, rfl, ?_, Run.of_exec rfl, rfl, fun _ => rfl,
    rfl, rfl⟩
  intro hown
  have hfield := hown.afterEach failedWait [] _ (List.append_nil _).symm (Run.of_exec h)
    (fun _ => rfl) 1 rfl
  cases hfield

/-- A creation fails for an outside reason, and the next execution reconnects. -/
theorem fieldOwnsInstances_retried :
    FieldOwnsInstances (.drop 0 :: untilCreation ++ .createThrows () :: untilCreation ++
      [.create (), .connect 1, .waitReturns (), .assign ()]) := by
  have h : exec step (State.initial Unit) (.drop 0 :: untilCreation ++ .createThrows () ::
    untilCreation ++ [.create (), .connect 1, .waitReturns (), .assign ()]) = some _ := rfl
  rw [fieldOwnsInstances_iff (Run.of_exec h)]
  decide

end DriverBus.Pipe.Reconnect
