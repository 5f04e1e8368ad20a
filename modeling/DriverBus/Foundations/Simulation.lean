import DriverBus.Foundations.Runs

/-!
# Runs with some of their steps deleted

A map from labels to labels that may drop a label, and that may look at what
happened before it, turns a run of one system into a list of labels of another.
When every step is either dropped without effect on the second system or
matched by a step of it, that list labels a run of the second system.
-/

namespace DriverBus.Foundations

variable {σ τ α β : Type*} {keep : List α → α → Option β}

/-- The labels that `keep` keeps, each seen together with the labels before it. -/
def kept (keep : List α → α → Option β) (before : List α) : List α → List β
  | [] => []
  | a :: as => (keep before a).toList ++ kept keep (before ++ [a]) as

theorem kept_append (before as bs : List α) :
    kept keep before (as ++ bs) = kept keep before as ++ kept keep (before ++ as) bs := by
  induction as generalizing before with
  | nil => simp [kept]
  | cons a as ih => simp [kept, ih]

theorem kept_snoc (as : List α) (a : α) :
    kept keep [] (as ++ [a]) = kept keep [] as ++ (keep as a).toList := by
  rw [kept_append]
  simp [kept]

/-- A step of the first system from `s`, after the labels `as`, is dropped or matched. -/
def Matches (keep : List α → α → Option β) (R' : τ → β → τ → Prop) (Rel : List α → σ → τ → Prop)
    (as : List α) (a : α) (s' : σ) (t : τ) : Prop :=
  (keep as a = none ∧ Rel (as ++ [a]) s' t) ∨
    ∃ b t', keep as a = some b ∧ R' t b t' ∧ Rel (as ++ [a]) s' t'

theorem Run.simulate {R : σ → α → σ → Prop} {R' : τ → β → τ → Prop}
    {Rel : List α → σ → τ → Prop} {s s' : σ} {t : τ} {as : List α} (h : Run R s as s')
    (h0 : Rel [] s t)
    (hstep : ∀ as s a s' t, Rel as s t → R s a s' → Matches keep R' Rel as a s' t) :
    ∃ t', Run R' t (kept keep [] as) t' ∧ Rel as s' t' := by
  induction h with
  | nil => exact ⟨t, .nil, h0⟩
  | @snoc as a u v _ hs ih =>
    obtain ⟨w, hrun, hrel⟩ := ih
    rw [kept_snoc]
    rcases hstep as u a v w hrel hs with ⟨hnone, hrel'⟩ | ⟨b, w', hsome, hs', hrel'⟩
    · exact ⟨w, by simpa [hnone] using hrun, hrel'⟩
    · exact ⟨w', by simpa [hsome] using hrun.snoc hs', hrel'⟩

end DriverBus.Foundations
