import Mathlib.Data.List.Sort
import Mathlib.Order.Lattice

/-!
# Sorting by a rank

`orderBy rank l` sorts `l` by the value `rank` gives each element. Where the ranks are distinct
there is one sorted order, so the sort is determined by the elements alone.
-/

variable {α β ρ : Type*} [LinearOrder ρ]

/-- The elements of `l` in increasing order of `rank`. -/
def orderBy (rank : α → ρ) (l : List α) : List α :=
  l.insertionSort fun a b => rank a ≤ rank b

theorem orderBy_perm (rank : α → ρ) (l : List α) : (orderBy rank l).Perm l :=
  List.perm_insertionSort _ l

@[simp] theorem mem_orderBy {rank : α → ρ} {l : List α} {a : α} : a ∈ orderBy rank l ↔ a ∈ l :=
  (orderBy_perm rank l).mem_iff

theorem pairwise_orderBy (rank : α → ρ) (l : List α) :
    (orderBy rank l).Pairwise fun a b => rank a ≤ rank b := by
  have : Std.Total fun a b : α => rank a ≤ rank b := ⟨fun a b => le_total _ _⟩
  have : IsTrans α fun a b => rank a ≤ rank b := ⟨fun _ _ _ => le_trans⟩
  exact List.pairwise_insertionSort _ l

/-- The only strictly increasing arrangement of a list is its sort. -/
theorem orderBy_eq_of_perm {rank : α → ρ} {l l' : List α} (hp : l.Perm l')
    (hs : l'.Pairwise fun a b => rank a < rank b) : orderBy rank l = l' := by
  have hn : (l'.map rank).Nodup := List.pairwise_map.mpr (hs.imp fun h => h.ne)
  have hle : l'.Pairwise fun a b => rank a ≤ rank b := hs.imp fun h => h.le
  have heq : ∀ a b, a ∈ orderBy rank l → b ∈ l' → rank a ≤ rank b → rank b ≤ rank a → a = b := by
    intro a b ha hb hab hba
    have ha' : a ∈ l' := hp.mem_iff.mp (mem_orderBy.mp ha)
    exact List.inj_on_of_nodup_map hn ha' hb (le_antisymm hab hba)
  exact List.Perm.eq_of_pairwise heq (pairwise_orderBy rank l) hle ((orderBy_perm rank l).trans hp)
