import Mathlib.Data.List.Basic
import Mathlib.Data.List.Nodup
import Mathlib.Data.Set.Function
import Mathlib.Logic.Function.Basic

/-!
# Numbering by occurrence

Elements that share a label are told apart by counting: `number f c l` pairs each element of `l`
with one more than the number of elements of its label before it, on from the counts `c`. Which
numbers a label gets depends on how many elements carry it and not on where they stand, so
reordering `l` reorders the pairs. A label and its number, written with a separator between them,
can be told from any other such text.
-/

namespace Occurrences

variable {α κ : Type*} [DecidableEq κ]

/-- Number the elements of a list by the occurrence of their label, on from the counts `c`. -/
def number (f : α → κ) : (κ → ℕ) → List α → List (α × ℕ)
  | _, [] => []
  | c, a :: l => (a, c (f a) + 1) :: number f (Function.update c (f a) (c (f a) + 1)) l

@[simp] theorem number_nil (f : α → κ) (c : κ → ℕ) : number f c [] = [] := rfl

@[simp] theorem number_cons (f : α → κ) (c : κ → ℕ) (a : α) (l : List α) :
    number f c (a :: l)
      = (a, c (f a) + 1) :: number f (Function.update c (f a) (c (f a) + 1)) l := rfl

@[simp] theorem map_fst_number (f : α → κ) (c : κ → ℕ) (l : List α) :
    (number f c l).map Prod.fst = l := by
  induction l generalizing c with
  | nil => rfl
  | cons a l ih => rw [number_cons, List.map_cons, ih]

/-- A label is numbered from one above its count up to how often it occurs above that. -/
theorem mem_labels_number {f : α → κ} {c : κ → ℕ} {l : List α} {k : κ} {n : ℕ} :
    (∃ a, (a, n) ∈ number f c l ∧ f a = k) ↔ c k < n ∧ n ≤ c k + (l.map f).count k := by
  induction l generalizing c with
  | nil => simp
  | cons a l ih =>
    have hcons : (∃ b, (b, n) ∈ number f c (a :: l) ∧ f b = k)
        ↔ (n = c (f a) + 1 ∧ f a = k)
          ∨ ∃ b, (b, n) ∈ number f (Function.update c (f a) (c (f a) + 1)) l ∧ f b = k := by
      simp only [number_cons, List.mem_cons, Prod.mk.injEq, or_and_right, exists_or, and_assoc,
        exists_eq_left]
    rw [hcons, ih, List.map_cons, List.count_cons]
    by_cases hk : f a = k
    · subst hk
      simp
      omega
    · simp [hk, Ne.symm hk]

/-- No label is given the same number twice. -/
theorem nodup_labels_number (f : α → κ) (c : κ → ℕ) (l : List α) :
    ((number f c l).map fun e => (f e.1, e.2)).Nodup := by
  induction l generalizing c with
  | nil => exact List.nodup_nil
  | cons a l ih =>
    rw [number_cons, List.map_cons, List.nodup_cons]
    refine ⟨fun hmem => ?_, ih _⟩
    -- what follows is numbered on from the count the first one raised
    obtain ⟨⟨b, n⟩, hb, heq⟩ := List.mem_map.mp hmem
    obtain ⟨hf, hn⟩ := Prod.mk.inj heq
    have hlt := (mem_labels_number.mp ⟨b, hb, hf⟩).1
    simp only [Function.update_self] at hlt
    omega

/-- Reordering the elements reorders the numbered labels. -/
theorem labels_number_perm (f : α → κ) {c : κ → ℕ} {l l' : List α} (h : l.Perm l') :
    ((number f c l).map fun e => (f e.1, e.2)).Perm
      ((number f c l').map fun e => (f e.1, e.2)) := by
  have hmem : ∀ {l : List α} {e : κ × ℕ}, (e ∈ (number f c l).map fun e => (f e.1, e.2))
      ↔ c e.1 < e.2 ∧ e.2 ≤ c e.1 + (l.map f).count e.1 := by
    intro l e
    rw [← mem_labels_number]
    simp [Prod.ext_iff]
  rw [List.perm_ext_iff_of_nodup (nodup_labels_number f c l) (nodup_labels_number f c l')]
  intro e
  rw [hmem, hmem, (h.map f).count_eq]

/-- Where the labels tell the elements apart, the numbers of an element are those of its label. -/
theorem mem_number {f : α → κ} {c : κ → ℕ} {l : List α} (hf : Set.InjOn f {a | a ∈ l}) {a : α}
    {n : ℕ} :
    (a, n) ∈ number f c l ↔ a ∈ l ∧ c (f a) < n ∧ n ≤ c (f a) + (l.map f).count (f a) := by
  have hl : ∀ {b : α}, (b, n) ∈ number f c l → b ∈ l := fun hb => by
    rw [← map_fst_number f c l]
    exact List.mem_map_of_mem hb
  rw [← mem_labels_number]
  constructor
  · exact fun h => ⟨hl h, a, h, rfl⟩
  · rintro ⟨ha, b, hb, hfb⟩
    rwa [← hf (hl hb) ha hfb]

/-- Where the labels tell the elements apart, reordering them gives each the same numbers. -/
theorem mem_number_perm {f : α → κ} {c : κ → ℕ} {l l' : List α} (hf : Set.InjOn f {a | a ∈ l})
    (h : l.Perm l') {e : α × ℕ} : e ∈ number f c l ↔ e ∈ number f c l' := by
  have hf' : Set.InjOn f {a | a ∈ l'} := hf.mono fun a ha => h.mem_iff.mpr ha
  rw [mem_number hf, mem_number hf', h.mem_iff, (h.map f).count_eq]

/-! ## A label written with its number -/

/-- A list cut at a separator in two ways: at the same place, or at an earlier and a later one. -/
theorem append_cons_eq_append_cons {α : Type*} {a : α} {x x' z z' : List α}
    (h : x ++ a :: z = x' ++ a :: z') :
    (x = x' ∧ z = z') ∨ (∃ w, x' = x ++ a :: w ∧ z = w ++ a :: z')
      ∨ ∃ w, x = x' ++ a :: w ∧ z' = w ++ a :: z := by
  obtain ⟨w, hx, hz⟩ | ⟨w, hx, hz⟩ := List.append_eq_append_iff.mp h
  · cases w with
    | nil => exact Or.inl ⟨by simp [hx], (List.cons.inj hz).2⟩
    | cons b w =>
      obtain ⟨rfl, htail⟩ := List.cons.inj hz
      exact Or.inr (Or.inl ⟨w, hx, htail⟩)
  · cases w with
    | nil => exact Or.inl ⟨by simp [hx], (List.cons.inj hz).2.symm⟩
    | cons b w =>
      obtain ⟨rfl, htail⟩ := List.cons.inj hz
      exact Or.inr (Or.inr ⟨w, hx, htail⟩)

/-- What precedes and what follows the last separator can be read back. -/
theorem append_cons_inj_of_notMem_right {α : Type*} {a : α} {x x' z z' : List α} (hz : a ∉ z)
    (hz' : a ∉ z') (h : x ++ a :: z = x' ++ a :: z') : x = x' ∧ z = z' := by
  obtain heq | ⟨w, -, rfl⟩ | ⟨w, -, rfl⟩ := append_cons_eq_append_cons h
  · exact heq
  · exact absurd (by simp) hz
  · exact absurd (by simp) hz'

/-- A label, a separator and a number in decimal. -/
def numbered (label : String) (n : ℕ) : String := label ++ ":" ++ toString n

/-- The separator is not a digit, so the label and the number can be read back, whatever the label
is. -/
theorem numbered_inj {label label' : String} {n n' : ℕ} :
    numbered label n = numbered label' n' ↔ label = label' ∧ n = n' := by
  refine ⟨fun h => ?_, fun h => by rw [h.1, h.2]⟩
  have hcolon : ∀ m : ℕ, ':' ∉ Nat.toDigits 10 m := fun m hm =>
    absurd (Nat.isDigit_of_mem_toDigits (by decide) (by decide) hm) (by decide)
  have hlist := congrArg String.toList h
  simp only [numbered, String.toList_append, Nat.toString_eq_repr, Nat.toList_repr,
    List.append_assoc] at hlist
  obtain ⟨hlabel, hdigits⟩ := append_cons_inj_of_notMem_right (hcolon n) (hcolon n') hlist
  refine ⟨String.toList_injective hlabel, ?_⟩
  rw [← Nat.ofDigitChars_ten_toDigits (n := n), hdigits, Nat.ofDigitChars_ten_toDigits]

end Occurrences
