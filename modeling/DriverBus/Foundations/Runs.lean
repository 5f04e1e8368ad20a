import Mathlib.Data.List.Basic
import Mathlib.Data.List.Induction
import Mathlib.Data.List.Lemmas
import Mathlib.Logic.Function.Basic

/-!
# Runs of labelled transition systems

A system is a relation `R s a t`: the label `a` leads from `s` to `t`. A run
records every label it took, oldest first, so a statement can speak about
what happened before a state as well as about the state itself.

`exec` evaluates a deterministic step function along a list of labels. It is
how a concrete run is exhibited: `Run.of_exec` turns its result into a run.
-/

namespace DriverBus.Foundations

variable {σ α : Type*}

/-- `Run R s as t`: the labels `as`, in this order, lead from `s` to `t`. -/
inductive Run (R : σ → α → σ → Prop) (s : σ) : List α → σ → Prop
  | nil : Run R s [] s
  | snoc {as a t u} : Run R s as t → R t a u → Run R s (as ++ [a]) u

/-- The transitions of a step function that refuses a label with `none`. -/
def Steps (step : σ → α → Option σ) (s : σ) (a : α) (t : σ) : Prop := step s a = some t

/-- The transitions of `R` that are taken in a state admitting the label. -/
def Guarded (g : σ → α → Prop) (R : σ → α → σ → Prop) (s : σ) (a : α) (t : σ) : Prop :=
  g s a ∧ R s a t

namespace Run

variable {R : σ → α → σ → Prop} {s t u : σ} {as bs : List α}

theorem single {a : α} (h : R s a t) : Run R s [a] t := by
  simpa using (Run.nil (R := R) (s := s)).snoc h

theorem append (h : Run R s as t) (k : Run R t bs u) : Run R s (as ++ bs) u := by
  induction k with
  | nil => simpa using h
  | @snoc bs b t u _ hb ih => simpa [List.append_assoc] using ih.snoc hb

theorem cons {a : α} (h : R s a t) (k : Run R t as u) : Run R s (a :: as) u :=
  (single h).append k

theorem last {a : α} (h : Run R s (as ++ [a]) u) : ∃ t, Run R s as t ∧ R t a u := by
  generalize hbs : as ++ [a] = bs at h
  cases h with
  | nil => simp at hbs
  | snoc hrun hstep =>
    obtain ⟨rfl, hlast⟩ := List.append_inj' hbs rfl
    cases hlast
    exact ⟨_, hrun, hstep⟩

theorem split (h : Run R s (as ++ bs) u) : ∃ t, Run R s as t ∧ Run R t bs u := by
  induction bs using List.reverseRecOn generalizing u with
  | nil => exact ⟨u, by simpa using h, .nil⟩
  | append_singleton bs b ih =>
    rw [← List.append_assoc] at h
    obtain ⟨v, hrun, hstep⟩ := h.last
    obtain ⟨t, hfront, hback⟩ := ih hrun
    exact ⟨t, hfront, hback.snoc hstep⟩

/-- A predicate that every transition keeps holds at the end of a run. -/
theorem invariant {P : σ → Prop} (h : Run R s as t) (h0 : P s)
    (hstep : ∀ t a u, P t → R t a u → P u) : P t := by
  induction h with
  | nil => exact h0
  | snoc _ hs ih => exact hstep _ _ _ ih hs

/-- The same for a predicate that also reads the labels taken so far. -/
theorem history {P : List α → σ → Prop} (h : Run R s as t) (h0 : P [] s)
    (hstep : ∀ as t a u, P as t → R t a u → P (as ++ [a]) u) : P as t := by
  induction h with
  | nil => exact h0
  | snoc _ hs ih => exact hstep _ _ _ _ ih hs

theorem mono {R' : σ → α → σ → Prop} (hle : ∀ s a t, R s a t → R' s a t)
    (h : Run R s as t) : Run R' s as t := by
  induction h with
  | nil => exact .nil
  | snoc _ hs ih => exact ih.snoc (hle _ _ _ hs)

end Run

/-- Evaluate a step function along a list of labels. -/
def exec (step : σ → α → Option σ) : σ → List α → Option σ
  | s, [] => some s
  | s, a :: as => (step s a).bind fun t => exec step t as

/-- The step function that also refuses a label its guard does not admit. -/
def guardStep (g : σ → α → Prop) [∀ s a, Decidable (g s a)] (step : σ → α → Option σ)
    (s : σ) (a : α) : Option σ :=
  if g s a then step s a else none

variable {step : σ → α → Option σ} {s t : σ} {as bs : List α}

@[simp] theorem exec_nil : exec step s [] = some s := rfl

@[simp] theorem exec_cons (a : α) :
    exec step s (a :: as) = (step s a).bind fun t => exec step t as := rfl

theorem exec_append : exec step s (as ++ bs) = (exec step s as).bind fun t => exec step t bs := by
  induction as generalizing s with
  | nil => rfl
  | cons a as ih => cases h : step s a <;> simp [h, ih]

theorem Run.of_exec (h : exec step s as = some t) : Run (Steps step) s as t := by
  induction as generalizing s with
  | nil =>
    cases h
    exact .nil
  | cons a as ih =>
    obtain ⟨u, hu, hrest⟩ := Option.bind_eq_some_iff.mp h
    exact .cons hu (ih hrest)

theorem Run.exec_eq (h : Run (Steps step) s as t) : exec step s as = some t := by
  induction h with
  | nil => rfl
  | @snoc as a t u _ hs ih =>
    have hs' : step t a = some u := hs
    simp [exec_append, ih, hs']

theorem Run.of_exec_guarded {g : σ → α → Prop} [∀ s a, Decidable (g s a)]
    (h : exec (guardStep g step) s as = some t) : Run (Guarded g (Steps step)) s as t := by
  refine (Run.of_exec h).mono fun s a t hs => ?_
  unfold Steps guardStep at hs
  split_ifs at hs with hg
  exact ⟨hg, hs⟩

end DriverBus.Foundations
