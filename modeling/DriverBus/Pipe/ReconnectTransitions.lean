import DriverBus.Pipe.Reconnect

/-!
# The transitions of the retry callback

`Transition` lists the steps of the callbacks and of the driver with the state
each one leads to. The invariants of the next modules are derived from it and
never unfold `step`.
-/

namespace DriverBus.Pipe.Reconnect

variable {ι : Type*}

section Updates

variable (s : State ι) (i j : ι) (p : Callback) (n m : ℕ) (st : Status)

@[simp] theorem State.setStatus_status :
    (s.setStatus n st).status m = if m = n then st else s.status m := by
  simp [State.setStatus, Function.update_apply]

@[simp] theorem State.setStatus_callback : (s.setStatus n st).callback = s.callback := rfl

@[simp] theorem State.setStatus_field : (s.setStatus n st).field = s.field := rfl

@[simp] theorem State.setStatus_next : (s.setStatus n st).next = s.next := rfl

variable [DecidableEq ι]

@[simp] theorem State.setCallback_callback :
    (s.setCallback i p).callback j = if j = i then p else s.callback j := by
  simp [State.setCallback, Function.update_apply]

@[simp] theorem State.setCallback_status : (s.setCallback i p).status = s.status := rfl

@[simp] theorem State.setCallback_field : (s.setCallback i p).field = s.field := rfl

@[simp] theorem State.setCallback_next : (s.setCallback i p).next = s.next := rfl

end Updates

variable [DecidableEq ι] {s s' : State ι} {a : Action ι}

/-- The steps of a callback and of the driver, with the states they lead to. -/
inductive Transition (s : State ι) : Action ι → State ι → Prop
  | capture {i} (hp : s.callback i = .idle) :
      Transition s (.capture i) (s.setCallback i (.captured s.field))
  | testKeeps {i c} (hp : s.callback i = .captured c) (hst : s.status s.field = .connected) :
      Transition s (.test i) (s.setCallback i (.keeping c))
  | testFails {i c} (hp : s.callback i = .captured c) (hst : s.status s.field ≠ .connected) :
      Transition s (.test i) (s.setCallback i .rereading)
  | reread {i} (hp : s.callback i = .rereading) :
      Transition s (.reread i) (s.setCallback i (.disposing s.field))
  | dispose {i x} (hp : s.callback i = .disposing x) :
      Transition s (.dispose i) ((s.setStatus x .disposed).setCallback i .creating)
  | create {i} (hp : s.callback i = .creating)
      (hfree : ¬ ∃ n < s.next, (s.status n).undisposed = true) :
      Transition s (.create i)
        { (s.setStatus s.next .listening).setCallback i (.awaiting s.next) with
          next := s.next + 1 }
  | createRefused {i} (hp : s.callback i = .creating)
      (hbusy : ∃ n < s.next, (s.status n).undisposed = true) :
      Transition s (.create i) (s.setCallback i .idle)
  | createThrows {i} (hp : s.callback i = .creating) :
      Transition s (.createThrows i) (s.setCallback i .idle)
  | waitReturns {i n} (hp : s.callback i = .awaiting n)
      (hst : s.status n = .connected ∨ s.status n = .broken) :
      Transition s (.waitReturns i) (s.setCallback i (.assigning n))
  | waitThrows {i n} (hp : s.callback i = .awaiting n) :
      Transition s (.waitThrows i) (s.setCallback i .idle)
  | assignKept {i c} (hp : s.callback i = .keeping c) :
      Transition s (.assign i) { s.setCallback i .idle with field := c }
  | assignNew {i n} (hp : s.callback i = .assigning n) :
      Transition s (.assign i) { s.setCallback i .idle with field := n }
  | connect {n} (hst : s.status n = .listening) :
      Transition s (.connect n) (s.setStatus n .connected)
  | drop {n} (hst : s.status n = .connected) : Transition s (.drop n) (s.setStatus n .broken)

theorem transition_of_step (h : step s a = some s') : Transition s a s' := by
  cases a with
  | capture i =>
    cases hp : s.callback i <;> simp only [step, hp, reduceCtorEq] at h
    cases h
    exact .capture hp
  | test i =>
    cases hp : s.callback i <;> simp only [step, hp, reduceCtorEq] at h
    cases h
    split_ifs with hst
    · exact .testKeeps hp hst
    · exact .testFails hp hst
  | reread i =>
    cases hp : s.callback i <;> simp only [step, hp, reduceCtorEq] at h
    cases h
    exact .reread hp
  | dispose i =>
    cases hp : s.callback i <;> simp only [step, hp, reduceCtorEq] at h
    cases h
    exact .dispose hp
  | create i =>
    cases hp : s.callback i <;> simp only [step, hp, reduceCtorEq] at h
    cases h
    unfold State.getNewStream
    split_ifs with hbusy
    · exact .createRefused hp hbusy
    · exact .create hp hbusy
  | createThrows i =>
    cases hp : s.callback i <;> simp only [step, hp, reduceCtorEq] at h
    cases h
    exact .createThrows hp
  | waitReturns i =>
    cases hp : s.callback i <;> simp only [step, hp, reduceCtorEq] at h
    split_ifs at h with hst
    cases h
    exact .waitReturns hp hst
  | waitThrows i =>
    cases hp : s.callback i <;> simp only [step, hp, reduceCtorEq] at h
    cases h
    exact .waitThrows hp
  | assign i =>
    cases hp : s.callback i <;> simp only [step, hp, reduceCtorEq] at h
    · cases h
      exact .assignKept hp
    · cases h
      exact .assignNew hp
  | connect n =>
    cases hst : s.status n <;> simp only [step, hst, reduceCtorEq] at h
    cases h
    exact .connect hst
  | drop n =>
    cases hst : s.status n <;> simp only [step, hst, reduceCtorEq] at h
    cases h
    exact .drop hst

end DriverBus.Pipe.Reconnect
