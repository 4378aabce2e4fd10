import Mathlib.Data.List.Basic

/-!
# Unwinding

Users `ι` act on a shared state in turns, and each act answers its user. Where a relation between
states is kept by what the others do, and an act of `i` answers the same from related states and
leaves related states, `i` is answered as if the others had not acted.
-/

namespace Unwinding

variable {σ ι α β : Type*} (act : σ → ι → α → β × σ)

/-- The answers to the acts of a history, in order, each with its user. -/
def answers (s : σ) : List (ι × α) → List (ι × β)
  | [] => []
  | (i, a) :: history => (i, (act s i a).1) :: answers (act s i a).2 history

@[simp] theorem answers_nil (s : σ) : answers act s [] = [] := rfl

@[simp] theorem answers_cons (s : σ) (i : ι) (a : α) (history : List (ι × α)) :
    answers act s ((i, a) :: history)
      = (i, (act s i a).1) :: answers act (act s i a).2 history := rfl

variable {act} [DecidableEq ι] {i : ι} {R : σ → σ → Prop}

/-- What the history of all users answers `i` is what the history of `i` alone answers. -/
theorem filter_answers (hothers : ∀ s t j a, j ≠ i → R s t → R (act s j a).2 t)
    (hown : ∀ s t a, R s t → (act s i a).1 = (act t i a).1 ∧ R (act s i a).2 (act t i a).2)
    {s t : σ} (h : R s t) (history : List (ι × α)) :
    (answers act s history).filter (fun answer => answer.1 = i)
      = answers act t (history.filter fun entry => entry.1 = i) := by
  induction history generalizing s t with
  | nil => rfl
  | cons entry history ih =>
    obtain ⟨j, a⟩ := entry
    by_cases hj : j = i
    · subst hj
      obtain ⟨hanswer, hnext⟩ := hown s t a h
      simp [hanswer, ih hnext]
    · simpa [hj] using ih (hothers s t j a hj h)

end Unwinding
