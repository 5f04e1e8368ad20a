import Mathlib.Data.List.Pairwise

/-!
# Actions under a retry policy

A policy that waits and retries executes an action, and again after a callback
as long as the action fails and retries are left. The last failure is the
caller's. The action and the callback share a state that the callback may
change, so what an attempt is depends on its number and on the callbacks before
it, and its being made on the failures before it.
-/

namespace DriverBus.Foundations

variable {σ α : Type*}

/-- One execution under the policy: the attempts in order, and whether the last one succeeded,
so that the caller gets its result and not its failure. -/
structure Execution (α : Type*) where
  attempts : List α
  returns : Bool
  deriving DecidableEq, Repr

/-- The execution from attempt `k` in state `s` on, with `retries` left. -/
def waitAndRetry (attempt : ℕ → σ → α) (succeeds : α → Bool) (onRetry : ℕ → σ → σ) :
    (retries k : ℕ) → (s : σ) → Execution α
  | 0, k, s => ⟨[attempt k s], succeeds (attempt k s)⟩
  | retries + 1, k, s =>
    if succeeds (attempt k s) then ⟨[attempt k s], true⟩
    else
      let rest := waitAndRetry attempt succeeds onRetry retries (k + 1) (onRetry k s)
      ⟨attempt k s :: rest.attempts, rest.returns⟩

/-- The state that attempt `k` finds when all attempts before it fail. -/
def stateAt (onRetry : ℕ → σ → σ) (s : σ) : ℕ → σ
  | 0 => s
  | k + 1 => onRetry k (stateAt onRetry s k)

/-- Attempt `k`, if it comes to that. -/
def attemptAt (attempt : ℕ → σ → α) (onRetry : ℕ → σ → σ) (s : σ) (k : ℕ) : α :=
  attempt k (stateAt onRetry s k)

variable {attempt : ℕ → σ → α} {succeeds : α → Bool} {onRetry : ℕ → σ → σ} {s : σ}
  {retries k i : ℕ} {a : α} {l : List α} {R : α → α → Prop}

/-- The caller gets a result exactly when an attempt succeeds. -/
theorem waitAndRetry_returns_iff :
    (waitAndRetry attempt succeeds onRetry retries k s).returns = true ↔
      ∃ a ∈ (waitAndRetry attempt succeeds onRetry retries k s).attempts, succeeds a = true := by
  induction retries generalizing k s with
  | zero => simp [waitAndRetry]
  | succ retries ih =>
    by_cases hok : succeeds (attempt k s) = true
    · simp [waitAndRetry, hok]
    · simp [waitAndRetry, hok, ih]

/-- The attempts an execution makes: those within the retries that follow failures only. -/
theorem waitAndRetry_getElem?_eq_some :
    (waitAndRetry attempt succeeds onRetry retries k (stateAt onRetry s k)).attempts[i]? = some a ↔
      i ≤ retries ∧ (∀ m < i, succeeds (attemptAt attempt onRetry s (k + m)) = false) ∧
        attemptAt attempt onRetry s (k + i) = a := by
  induction retries generalizing k i with
  | zero =>
    cases i with
    | zero => simp [waitAndRetry, attemptAt]
    | succ i => simp [waitAndRetry]
  | succ retries ih =>
    cases i with
    | zero =>
      by_cases hok : succeeds (attempt k (stateAt onRetry s k)) = true <;>
        simp [waitAndRetry, attemptAt, hok]
    | succ i =>
      by_cases hok : succeeds (attempt k (stateAt onRetry s k)) = true
      · have hlast : waitAndRetry attempt succeeds onRetry (retries + 1) k (stateAt onRetry s k) =
          ⟨[attempt k (stateAt onRetry s k)], true⟩ := if_pos hok
        rw [hlast, List.getElem?_cons_succ, List.getElem?_nil]
        constructor
        · intro hnone
          cases hnone
        · rintro ⟨-, hall, -⟩
          have hzero := hall 0 (Nat.succ_pos i)
          rw [Nat.add_zero, attemptAt, hok] at hzero
          cases hzero
      · have hstate : onRetry k (stateAt onRetry s k) = stateAt onRetry s (k + 1) := rfl
        simp only [waitAndRetry, if_neg hok, List.getElem?_cons_succ, hstate, ih,
          Nat.forall_lt_succ_left, Nat.add_zero, Nat.succ_le_succ_iff]
        simp [attemptAt, hok, Nat.add_assoc, Nat.add_comm 1]

/-- A relation between earlier and later attempts holds in an execution when it holds between
those that are made. -/
theorem waitAndRetry_pairwise_iff :
    (waitAndRetry attempt succeeds onRetry retries 0 s).attempts.Pairwise R ↔
      ∀ i j, i < j → j ≤ retries →
        (∀ m < j, succeeds (attemptAt attempt onRetry s m) = false) →
        R (attemptAt attempt onRetry s i) (attemptAt attempt onRetry s j) := by
  have hget (i : ℕ) (a : α) :
      (waitAndRetry attempt succeeds onRetry retries 0 s).attempts[i]? = some a ↔
        i ≤ retries ∧ (∀ m < i, succeeds (attemptAt attempt onRetry s m) = false) ∧
          attemptAt attempt onRetry s i = a := by
    simpa [stateAt] using waitAndRetry_getElem?_eq_some (k := 0) (s := s) (i := i) (a := a)
  rw [List.pairwise_iff_getElem]
  constructor
  · intro h i j hij hj hfail
    obtain ⟨hlj, haj⟩ := List.getElem?_eq_some_iff.mp ((hget j _).mpr ⟨hj, hfail, rfl⟩)
    obtain ⟨hli, hai⟩ := List.getElem?_eq_some_iff.mp
      ((hget i _).mpr ⟨by omega, fun m hm => hfail m (by omega), rfl⟩)
    rw [← hai, ← haj]
    exact h i j hli hlj hij
  · intro h i j hli hlj hij
    obtain ⟨-, -, hai⟩ := (hget i _).mp (List.getElem?_eq_getElem hli)
    obtain ⟨hj, hfail, haj⟩ := (hget j _).mp (List.getElem?_eq_getElem hlj)
    rw [← hai, ← haj]
    exact h i j hij hj hfail

/-- A relation holds pairwise when it holds between any two entries the list can be split at. -/
theorem pairwise_iff_split : l.Pairwise R ↔
    ∀ before a between b after, l = before ++ a :: (between ++ b :: after) → R a b := by
  constructor
  · rintro h before a between b after rfl
    have htail := (List.pairwise_append.mp h).2.1
    exact List.rel_of_pairwise_cons htail (by simp)
  · intro h
    induction l with
    | nil => exact .nil
    | cons a l ih =>
      refine List.pairwise_cons.mpr ⟨fun b hb => ?_, ?_⟩
      · obtain ⟨between, after, rfl⟩ := List.append_of_mem hb
        exact h [] a between b after rfl
      · refine ih fun before x between y after heq => ?_
        exact h (a :: before) x between y after (by simp [heq])

/-- At most one entry counts when no two of them do. -/
theorem countP_le_one_iff {p : α → Bool} :
    l.countP p ≤ 1 ↔ l.Pairwise fun a b => p a = true → p b = false := by
  induction l with
  | nil => simp
  | cons a l ih =>
    rw [List.pairwise_cons, ← ih]
    by_cases ha : p a = true
    · have hnone : l.countP p = 0 ↔ ∀ b ∈ l, p b = false := by
        simp [List.countP_eq_zero]
      rw [List.countP_cons_of_pos ha]
      constructor
      · intro hle
        have hzero : l.countP p = 0 := by omega
        exact ⟨fun b hb _ => hnone.mp hzero b hb, by omega⟩
      · rintro ⟨hrest, -⟩
        have hzero := hnone.mpr fun b hb => hrest b hb ha
        omega
    · simp [ha]

end DriverBus.Foundations
