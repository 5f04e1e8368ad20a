import Mathlib.Data.List.Forall2
import Mathlib.Logic.Relation

/-!
# Lists matched with a part of another

`SublistForall₂ R as bs` matches every element of `as` with an element of `bs`
of its own, in the order of both. Matchings compose, and what a partial
function makes of a list is matched with it.
-/

namespace DriverBus.Foundations

open List

variable {α β γ : Type*} {R : α → β → Prop} {S : β → γ → Prop} {as : List α} {bs : List β}
  {cs : List γ}

theorem sublistForall₂_comp (h : SublistForall₂ R as bs) (k : SublistForall₂ S bs cs) :
    SublistForall₂ (Relation.Comp R S) as cs := by
  induction k generalizing as with
  | nil =>
    cases h
    exact .nil
  | cons hS _ ih =>
    cases h with
    | nil => exact .nil
    | cons hR h => exact .cons ⟨_, hR, hS⟩ (ih h)
    | cons_right h => exact .cons_right (ih h)
  | cons_right _ ih => exact .cons_right (ih h)

theorem sublistForall₂_mono {R' : α → β → Prop} (hle : ∀ a b, R a b → R' a b)
    (h : SublistForall₂ R as bs) : SublistForall₂ R' as bs := by
  obtain ⟨kept, hkept, hsublist⟩ := sublistForall₂_iff.mp h
  exact sublistForall₂_iff.mpr ⟨kept, hkept.imp hle, hsublist⟩

theorem sublistForall₂_mem (h : SublistForall₂ R as bs) :
    SublistForall₂ (fun a b => R a b ∧ b ∈ bs) as bs := by
  induction h with
  | nil => exact .nil
  | @cons a b as bs hR _ ih =>
    apply SublistForall₂.cons ⟨hR, List.mem_cons_self⟩
    exact sublistForall₂_mono (fun _ _ hab => ⟨hab.1, List.mem_cons_of_mem b hab.2⟩) ih
  | @cons_right b as bs _ ih =>
    apply SublistForall₂.cons_right
    exact sublistForall₂_mono (fun _ _ hab => ⟨hab.1, List.mem_cons_of_mem b hab.2⟩) ih

theorem sublistForall₂_filterMap (f : β → Option α) (bs : List β) :
    SublistForall₂ (fun a b => f b = some a) (bs.filterMap f) bs := by
  induction bs with
  | nil => exact .nil
  | cons b bs ih =>
    cases hf : f b with
    | none =>
      rw [List.filterMap_cons_none hf]
      exact .cons_right ih
    | some a =>
      rw [List.filterMap_cons_some hf]
      exact .cons hf ih

theorem sublistForall₂_of_filterMap {f : β → Option α} (h : as <+ bs.filterMap f) :
    SublistForall₂ (fun a b => f b = some a) as bs := by
  have heq : SublistForall₂ Eq as (bs.filterMap f) := h.sublistForall₂
  apply sublistForall₂_mono _ (sublistForall₂_comp heq (sublistForall₂_filterMap f bs))
  rintro a b ⟨_, rfl, hf⟩
  exact hf

end DriverBus.Foundations
