import Mathlib.Data.List.Basic

/-!
# Computations that may throw

A sequence or a mapped computation returns when each part of it returns.
-/

namespace DriverBus.Foundations

universe u v

variable {ε : Type u} {α β : Type v} {x : Except ε α} {b : β}

theorem bind_eq_ok_iff {f : α → Except ε β} :
    x >>= f = .ok b ↔ ∃ a, x = .ok a ∧ f a = .ok b := by
  cases x with
  | error e => simp [bind, Except.bind]
  | ok a => simp [bind, Except.bind]

theorem map_eq_ok_iff {f : α → β} : x.map f = .ok b ↔ ∃ a, x = .ok a ∧ f a = b := by
  cases x with
  | error e => simp [Except.map]
  | ok a => simp [Except.map]

end DriverBus.Foundations
