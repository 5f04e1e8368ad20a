import Mathlib.Data.List.Basic
import Mathlib.Data.List.Infix

/-!
# Copies of a terminated word in a stream

A copy of a word is counted where the stream, read from its start, has just
completed it. When the word ends with a symbol that occurs nowhere else in it,
pieces without that symbol complete nothing, whatever stands before them, and
the word itself completes exactly one copy.
-/

namespace DriverBus.Foundations

variable {α : Type*} [DecidableEq α]

/-- The copies of `word` completed by the symbols that come after `seen`. -/
def copiesAfter (word seen : List α) : List α → ℕ
  | [] => 0
  | a :: stream => (if word <:+ seen ++ [a] then 1 else 0) + copiesAfter word (seen ++ [a]) stream

/-- How often `word` occurs in the stream. -/
def copies (word stream : List α) : ℕ := copiesAfter word [] stream

variable {word body seen x y stream : List α} {e : α}

@[simp] theorem copies_nil : copies word [] = 0 := rfl

theorem copiesAfter_append :
    copiesAfter word seen (x ++ y) = copiesAfter word seen x + copiesAfter word (seen ++ x) y := by
  induction x generalizing seen with
  | nil => simp [copiesAfter]
  | cons a x ih =>
    rw [List.cons_append, copiesAfter, copiesAfter, ih, List.append_assoc, List.singleton_append]
    omega

/-- Nothing is completed without the last symbol of the word. -/
theorem copiesAfter_of_notMem (hx : e ∉ x) : copiesAfter (body ++ [e]) seen x = 0 := by
  induction x generalizing seen with
  | nil => rfl
  | cons a x ih =>
    have hno : ¬ body ++ [e] <:+ seen ++ [a] := by
      rintro ⟨front, heq⟩
      have hlast : e = a := by simpa using congrArg List.getLast? heq
      exact hx (hlast ▸ List.mem_cons_self)
    rw [copiesAfter, if_neg hno, ih]
    intro hmem
    exact hx (List.mem_cons_of_mem a hmem)

theorem copiesAfter_word (hbody : e ∉ body) :
    copiesAfter (body ++ [e]) seen (body ++ [e]) = 1 := by
  rw [copiesAfter_append, copiesAfter_of_notMem hbody]
  simp [copiesAfter]

theorem copies_append_of_notMem (hx : e ∉ x) :
    copies (body ++ [e]) (stream ++ x) = copies (body ++ [e]) stream := by
  rw [copies, copiesAfter_append, copiesAfter_of_notMem hx]
  rfl

theorem copies_append_word (hbody : e ∉ body) :
    copies (body ++ [e]) (stream ++ (body ++ [e])) = copies (body ++ [e]) stream + 1 := by
  rw [copies, copiesAfter_append, copiesAfter_word hbody]
  rfl

end DriverBus.Foundations
