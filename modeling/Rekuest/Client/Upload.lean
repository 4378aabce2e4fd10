import Rekuest.Lib.Coroutine
import Rekuest.Messages

/-!
# Uploading the files among an operation's variables

`rekuest/client/upload/link.py`: `apply_recursive` puts what an asynchronous function makes of them
in the place of the media files of a nested value, and the link that is to upload an operation's
files is one use of it.
-/

namespace Rekuest

open Await

/-- A value among an operation's variables, as `apply_recursive` tells them apart; `μ` is what its
typeguard lets through. -/
inductive Variable (μ : Type)
  | dict (items : List (String × Variable μ))
  | list (items : List (Variable μ))
  | tuple (items : List (Variable μ))
  | media (file : μ)
  | other (value : Json)

section

variable {μ ε : Type}

mutual

/-- `apply_recursive`; an application of its function is named by where the file stands, and the
file. -/
def applyRecursive (path : List ℕ) :
    Variable μ → Coroutine (List ℕ × μ) ε (Variable μ) (Variable μ)
  | .dict items => (applyItems path 0 items).map .dict
  | .list items => (Coroutine.gather (applyAll path 0 items)).map .list
  | .tuple items => (Coroutine.gather (applyAll path 0 items)).map .tuple
  | .media file => Coroutine.call (path, file)
  | .other value => Coroutine.pure (.other value)

/-- The comprehension over a dictionary's items, one after the other. -/
def applyItems (path : List ℕ) (i : ℕ) : List (String × Variable μ) →
    Coroutine (List ℕ × μ) ε (Variable μ) (List (String × Variable μ))
  | [] => Coroutine.pure []
  | (k, v) :: items => (applyRecursive (path ++ [i]) v).bind fun w =>
      (applyItems path (i + 1) items).map fun ws => (k, w) :: ws

/-- What is gathered of a list or tuple. -/
def applyAll (path : List ℕ) (i : ℕ) :
    List (Variable μ) → List (Coroutine (List ℕ × μ) ε (Variable μ) (Variable μ))
  | [] => []
  | v :: vs => applyRecursive (path ++ [i]) v :: applyAll path (i + 1) vs

end

mutual

/-- The media files, and where they stand. -/
def Variable.leaves (path : List ℕ) : Variable μ → List (List ℕ × μ)
  | .dict items => leavesItems path 0 items
  | .list items => leavesAll path 0 items
  | .tuple items => leavesAll path 0 items
  | .media file => [(path, file)]
  | .other _ => []

def Variable.leavesItems (path : List ℕ) (i : ℕ) :
    List (String × Variable μ) → List (List ℕ × μ)
  | [] => []
  | (_, v) :: items => v.leaves (path ++ [i]) ++ leavesItems path (i + 1) items

def Variable.leavesAll (path : List ℕ) (i : ℕ) : List (Variable μ) → List (List ℕ × μ)
  | [] => []
  | v :: vs => v.leaves (path ++ [i]) ++ leavesAll path (i + 1) vs

end

mutual

/-- The value with each media file replaced by what was made of it. -/
def Variable.fill (made : List ℕ × μ → Variable μ) (path : List ℕ) : Variable μ → Variable μ
  | .dict items => .dict (fillItems made path 0 items)
  | .list items => .list (fillAll made path 0 items)
  | .tuple items => .tuple (fillAll made path 0 items)
  | .media file => made (path, file)
  | .other value => .other value

def Variable.fillItems (made : List ℕ × μ → Variable μ) (path : List ℕ) (i : ℕ) :
    List (String × Variable μ) → List (String × Variable μ)
  | [] => []
  | (k, v) :: items => (k, v.fill made (path ++ [i])) :: fillItems made path (i + 1) items

def Variable.fillAll (made : List ℕ × μ → Variable μ) (path : List ℕ) (i : ℕ) :
    List (Variable μ) → List (Variable μ)
  | [] => []
  | v :: vs => v.fill made (path ++ [i]) :: fillAll made path (i + 1) vs

end

namespace Variable

/-! ## Where the files stand

A file is named by its place, the indices that lead to it, so that a file given twice is two files.
-/

mutual

theorem isPrefix_of_mem_leaves {path : List ℕ} {p : List ℕ × μ} :
    ∀ v : Variable μ, p ∈ v.leaves path → path <+: p.1
  | .dict items, h => by
    obtain ⟨j, -, hj⟩ := isPrefix_of_mem_leavesItems items h
    exact (List.prefix_append path [j]).trans hj
  | .list items, h => by
    obtain ⟨j, -, hj⟩ := isPrefix_of_mem_leavesAll items h
    exact (List.prefix_append path [j]).trans hj
  | .tuple items, h => by
    obtain ⟨j, -, hj⟩ := isPrefix_of_mem_leavesAll items h
    exact (List.prefix_append path [j]).trans hj
  | .media _, h => by
    obtain rfl := List.mem_singleton.mp h
    exact List.prefix_refl _
  | .other _, h => by cases h

theorem isPrefix_of_mem_leavesItems {path : List ℕ} {p : List ℕ × μ} {i : ℕ} :
    ∀ items : List (String × Variable μ), p ∈ leavesItems path i items →
      ∃ j, i ≤ j ∧ path ++ [j] <+: p.1
  | [], h => by cases h
  | (_, v) :: items, h => by
    rcases List.mem_append.mp h with h | h
    · exact ⟨i, Nat.le_refl i, isPrefix_of_mem_leaves v h⟩
    · obtain ⟨j, hj, hp⟩ := isPrefix_of_mem_leavesItems items h
      exact ⟨j, by omega, hp⟩

theorem isPrefix_of_mem_leavesAll {path : List ℕ} {p : List ℕ × μ} {i : ℕ} :
    ∀ vs : List (Variable μ), p ∈ leavesAll path i vs → ∃ j, i ≤ j ∧ path ++ [j] <+: p.1
  | [], h => by cases h
  | v :: vs, h => by
    rcases List.mem_append.mp h with h | h
    · exact ⟨i, Nat.le_refl i, isPrefix_of_mem_leaves v h⟩
    · obtain ⟨j, hj, hp⟩ := isPrefix_of_mem_leavesAll vs h
      exact ⟨j, by omega, hp⟩

end

/-- The subtrees of a dictionary, a list or a tuple stand apart. -/
theorem disjoint_of_isPrefix {path p : List ℕ} {i j : ℕ} (hi : path ++ [i] <+: p)
    (hj : path ++ [j] <+: p) : i = j := by
  have heq := (List.prefix_of_prefix_length_le hi hj (by simp)).eq_of_length (by simp)
  exact List.singleton_inj.mp (List.append_cancel_left heq)

mutual

theorem nodup_leaves (path : List ℕ) : ∀ v : Variable μ, (v.leaves path).Nodup
  | .dict items => nodup_leavesItems path 0 items
  | .list items => nodup_leavesAll path 0 items
  | .tuple items => nodup_leavesAll path 0 items
  | .media file => List.nodup_singleton (path, file)
  | .other _ => List.nodup_nil

theorem nodup_leavesItems (path : List ℕ) (i : ℕ) :
    ∀ items : List (String × Variable μ), (leavesItems path i items).Nodup
  | [] => List.nodup_nil
  | (_, v) :: items => by
    refine List.Nodup.append (nodup_leaves _ v) (nodup_leavesItems path (i + 1) items) ?_
    intro p hp hp'
    obtain ⟨j, hj, hpre⟩ := isPrefix_of_mem_leavesItems items hp'
    have := disjoint_of_isPrefix (isPrefix_of_mem_leaves v hp) hpre
    omega

theorem nodup_leavesAll (path : List ℕ) (i : ℕ) :
    ∀ vs : List (Variable μ), (leavesAll path i vs).Nodup
  | [] => List.nodup_nil
  | v :: vs => by
    refine List.Nodup.append (nodup_leaves _ v) (nodup_leavesAll path (i + 1) vs) ?_
    intro p hp hp'
    obtain ⟨j, hj, hpre⟩ := isPrefix_of_mem_leavesAll vs hp'
    have := disjoint_of_isPrefix (isPrefix_of_mem_leaves v hp) hpre
    omega

end

/-! ## What the function is applied to -/

variable {c : List ℕ × μ → Status ε (Variable μ)}

mutual

/-- The function is applied to media files only. -/
theorem sublist_leaves (path : List ℕ) :
    ∀ v : Variable μ, ((applyRecursive path v).run c).calls.Sublist (v.leaves path)
  | .dict items => by
    rw [applyRecursive, Coroutine.calls_map]
    exact sublist_leavesItems path 0 items
  | .list items => by
    rw [applyRecursive, Coroutine.calls_map]
    exact sublist_leavesAll path 0 items
  | .tuple items => by
    rw [applyRecursive, Coroutine.calls_map]
    exact sublist_leavesAll path 0 items
  | .media _ => List.Sublist.refl _
  | .other _ => List.nil_sublist _

theorem sublist_leavesItems (path : List ℕ) (i : ℕ) : ∀ items : List (String × Variable μ),
    ((applyItems path i items).run c).calls.Sublist (leavesItems path i items)
  | [] => List.nil_sublist _
  | (k, v) :: items => by
    have hv := sublist_leaves (path ++ [i]) v
    have hitems := sublist_leavesItems path (i + 1) items
    rw [applyItems, leavesItems]
    obtain ⟨hcalls, -⟩ | ⟨w, -, hcalls⟩ := Coroutine.calls_bind (applyRecursive (path ++ [i]) v)
      (fun w => (applyItems path (i + 1) items).map fun ws => (k, w) :: ws) c
    · rw [hcalls]
      exact hv.trans (List.sublist_append_left _ _)
    · rw [hcalls, Coroutine.calls_map]
      exact hv.append hitems

theorem sublist_leavesAll (path : List ℕ) (i : ℕ) : ∀ vs : List (Variable μ),
    ((Coroutine.gather (applyAll path i vs)).run c).calls.Sublist (leavesAll path i vs)
  | [] => List.nil_sublist _
  | v :: vs => by
    rw [applyAll, Coroutine.gather, Coroutine.calls_map, leavesAll]
    exact (sublist_leaves (path ++ [i]) v).append (sublist_leavesAll path (i + 1) vs)

end

/-- What the applications that returned came with. -/
def made (c : List ℕ × μ → Status ε (Variable μ)) (p : List ℕ × μ) : Variable μ :=
  match c p with
  | .returned w => w
  | _ => .other .null

mutual

/-- What is returned is the value with something made of every media file in its place. -/
theorem fill_of_returned (path : List ℕ) : ∀ (v : Variable μ) {w : Variable μ},
    ((applyRecursive path v).run c).status = .returned w →
      w = v.fill (made c) path ∧ ((applyRecursive path v).run c).calls = v.leaves path
  | .dict items, w, h => by
    rw [applyRecursive] at h ⊢
    obtain ⟨ws, hws, rfl⟩ := Coroutine.returned_of_map h
    obtain ⟨hfill, hcalls⟩ := fillItems_of_returned path 0 items hws
    exact ⟨congrArg Variable.dict hfill, (Coroutine.calls_map _ _ c).trans hcalls⟩
  | .list items, w, h => by
    rw [applyRecursive] at h ⊢
    obtain ⟨ws, hws, rfl⟩ := Coroutine.returned_of_map h
    obtain ⟨hfill, hcalls⟩ := fillAll_of_returned path 0 items hws
    exact ⟨congrArg Variable.list hfill, (Coroutine.calls_map _ _ c).trans hcalls⟩
  | .tuple items, w, h => by
    rw [applyRecursive] at h ⊢
    obtain ⟨ws, hws, rfl⟩ := Coroutine.returned_of_map h
    obtain ⟨hfill, hcalls⟩ := fillAll_of_returned path 0 items hws
    exact ⟨congrArg Variable.tuple hfill, (Coroutine.calls_map _ _ c).trans hcalls⟩
  | .media file, w, h => by
    have hc : c (path, file) = .returned w := h
    refine ⟨?_, rfl⟩
    rw [fill, made, hc]
  | .other _, w, h => by
    rw [applyRecursive] at h ⊢
    exact ⟨(Status.returned.inj h).symm, rfl⟩

theorem fillItems_of_returned (path : List ℕ) (i : ℕ) :
    ∀ (items : List (String × Variable μ)) {ws : List (String × Variable μ)},
      ((applyItems path i items).run c).status = .returned ws →
        ws = fillItems (made c) path i items ∧
          ((applyItems path i items).run c).calls = leavesItems path i items
  | [], ws, h => by
    rw [applyItems] at h ⊢
    exact ⟨(Status.returned.inj h).symm, rfl⟩
  | (k, v) :: items, ws, h => by
    rw [applyItems] at h ⊢
    obtain ⟨w, hw, hrest, hcalls⟩ := Coroutine.returned_of_bind h
    obtain ⟨ws', hws', rfl⟩ := Coroutine.returned_of_map hrest
    obtain ⟨hfill, hv⟩ := fill_of_returned (path ++ [i]) v hw
    obtain ⟨hfills, hvs⟩ := fillItems_of_returned path (i + 1) items hws'
    refine ⟨by rw [hfill, hfills, fillItems], ?_⟩
    rw [hcalls, Coroutine.calls_map, hv, hvs, leavesItems]

theorem fillAll_of_returned (path : List ℕ) (i : ℕ) :
    ∀ (vs : List (Variable μ)) {ws : List (Variable μ)},
      ((Coroutine.gather (applyAll path i vs)).run c).status = .returned ws →
        ws = fillAll (made c) path i vs ∧
          ((Coroutine.gather (applyAll path i vs)).run c).calls = leavesAll path i vs
  | [], ws, h => by
    rw [applyAll, Coroutine.gather] at h ⊢
    exact ⟨(Status.returned.inj h).symm, rfl⟩
  | v :: vs, ws, h => by
    rw [applyAll, Coroutine.gather] at h ⊢
    obtain ⟨p, hp, rfl⟩ := Coroutine.returned_of_map h
    obtain ⟨hw, hws⟩ := Status.both_eq_returned hp
    obtain ⟨hfill, hv⟩ := fill_of_returned (path ++ [i]) v hw
    obtain ⟨hfills, hvs⟩ := fillAll_of_returned path (i + 1) vs hws
    refine ⟨by rw [hfill, hfills, fillAll], ?_⟩
    rw [Coroutine.calls_map, leavesAll, ← hv, ← hvs]
    rfl

end

/-! ## One item of a dictionary after the other -/

/-- The value at a place. -/
def get? : List ℕ → Variable μ → Option (Variable μ)
  | [], v => some v
  | i :: path, .dict items => items[i]?.bind fun item => get? path item.2
  | i :: path, .list items => items[i]?.bind fun item => get? path item
  | i :: path, .tuple items => items[i]?.bind fun item => get? path item
  | _ :: _, _ => none

theorem isPrefix_of_mem_calls {path : List ℕ} {p : List ℕ × μ} {v : Variable μ}
    (hp : p ∈ ((applyRecursive path v).run c).calls) : path <+: p.1 :=
  isPrefix_of_mem_leaves v ((sublist_leaves path v).subset hp)

/-- An application below an item of a dictionary belongs to that item. -/
theorem mem_calls_of_items {path : List ℕ} {p : List ℕ × μ} {items : List (String × Variable μ)}
    {i j : ℕ} {item : String × Variable μ} (hp : p ∈ ((applyItems path i items).run c).calls)
    (hpre : path ++ [i + j] <+: p.1) (hitem : items[j]? = some item) :
    p ∈ ((applyRecursive (path ++ [i + j]) item.2).run c).calls := by
  induction items generalizing i j with
  | nil => cases hitem
  | cons head items ih =>
    have hhead : p ∈ ((applyRecursive (path ++ [i]) head.2).run c).calls →
        p ∈ ((applyRecursive (path ++ [i + j]) item.2).run c).calls := by
      intro hp
      obtain rfl : j = 0 := by
        have := disjoint_of_isPrefix (isPrefix_of_mem_calls hp) hpre
        omega
      obtain rfl := Option.some.inj hitem
      exact hp
    rw [applyItems] at hp
    obtain ⟨hcalls, -⟩ | ⟨w, -, hcalls⟩ := Coroutine.calls_bind
      (applyRecursive (path ++ [i]) head.2)
      (fun w => (applyItems path (i + 1) items).map fun ws => (head.1, w) :: ws) c
    · rw [hcalls] at hp
      exact hhead hp
    · rw [hcalls, Coroutine.calls_map] at hp
      rcases List.mem_append.mp hp with hp | hp
      · exact hhead hp
      · obtain ⟨m, hm, hpm⟩ :=
          isPrefix_of_mem_leavesItems items ((sublist_leavesItems path (i + 1) items).subset hp)
        have hmj := disjoint_of_isPrefix hpm hpre
        obtain ⟨j, rfl⟩ : ∃ j', j = j' + 1 := ⟨j - 1, by omega⟩
        rw [show i + (j + 1) = i + 1 + j by omega] at hpre ⊢
        exact ih hp hpre hitem

/-- An application below an element of a list or tuple belongs to that element. -/
theorem mem_calls_of_all {path : List ℕ} {p : List ℕ × μ} {vs : List (Variable μ)} {i j : ℕ}
    {v : Variable μ} (hp : p ∈ ((Coroutine.gather (applyAll path i vs)).run c).calls)
    (hpre : path ++ [i + j] <+: p.1) (hv : vs[j]? = some v) :
    p ∈ ((applyRecursive (path ++ [i + j]) v).run c).calls := by
  induction vs generalizing i j with
  | nil => cases hv
  | cons head vs ih =>
    rw [applyAll, Coroutine.gather, Coroutine.calls_map] at hp
    rcases List.mem_append.mp hp with hp | hp
    · obtain rfl : j = 0 := by
        have := disjoint_of_isPrefix (isPrefix_of_mem_calls hp) hpre
        omega
      obtain rfl := Option.some.inj hv
      exact hp
    · obtain ⟨m, hm, hpm⟩ :=
        isPrefix_of_mem_leavesAll vs ((sublist_leavesAll path (i + 1) vs).subset hp)
      have hmj := disjoint_of_isPrefix hpm hpre
      obtain ⟨j, rfl⟩ : ∃ j', j = j' + 1 := ⟨j - 1, by omega⟩
      rw [show i + (j + 1) = i + 1 + j by omega] at hpre ⊢
      exact ih hp hpre hv

/-- An application below a place belongs to the value there. -/
theorem mem_calls_of_get? {place path : List ℕ} {p : List ℕ × μ} {v u : Variable μ}
    (hp : p ∈ ((applyRecursive path v).run c).calls) (hpre : path ++ place <+: p.1)
    (hu : v.get? place = some u) : p ∈ ((applyRecursive (path ++ place) u).run c).calls := by
  induction place generalizing path v with
  | nil =>
    obtain rfl := Option.some.inj hu
    rw [List.append_nil]
    exact hp
  | cons i place ih =>
    rw [show path ++ i :: place = path ++ [i] ++ place by simp] at hpre ⊢
    have hi : path ++ [0 + i] <+: p.1 := by
      rw [Nat.zero_add]
      exact (List.prefix_append _ _).trans hpre
    cases v with
    | dict items =>
      obtain ⟨item, hitem, hu⟩ := Option.bind_eq_some_iff.mp hu
      rw [applyRecursive, Coroutine.calls_map] at hp
      have hmem := mem_calls_of_items hp hi hitem
      rw [Nat.zero_add] at hmem
      exact ih hmem hpre hu
    | list items =>
      obtain ⟨item, hitem, hu⟩ := Option.bind_eq_some_iff.mp hu
      rw [applyRecursive, Coroutine.calls_map] at hp
      have hmem := mem_calls_of_all hp hi hitem
      rw [Nat.zero_add] at hmem
      exact ih hmem hpre hu
    | tuple items =>
      obtain ⟨item, hitem, hu⟩ := Option.bind_eq_some_iff.mp hu
      rw [applyRecursive, Coroutine.calls_map] at hp
      have hmem := mem_calls_of_all hp hi hitem
      rw [Nat.zero_add] at hmem
      exact ih hmem hpre hu
    | media file => cases hu
    | other value => cases hu

/-- Before an application below a later item, those of an earlier item returned. -/
theorem returned_of_later {path : List ℕ} {q : List ℕ × μ} {items : List (String × Variable μ)}
    {n i j : ℕ} {item : String × Variable μ} (hq : q ∈ ((applyItems path n items).run c).calls)
    (hpre : path ++ [n + j] <+: q.1) (hij : i < j) (hitem : items[i]? = some item)
    {p : List ℕ × μ} (hp : p ∈ item.2.leaves (path ++ [n + i])) :
    ∃ w, c p = .returned w := by
  induction items generalizing n i j with
  | nil => cases hitem
  | cons head items ih =>
    have hnot : q ∉ ((applyRecursive (path ++ [n]) head.2).run c).calls := by
      intro hq
      have := disjoint_of_isPrefix (isPrefix_of_mem_calls hq) hpre
      omega
    rw [applyItems] at hq
    obtain ⟨hcalls, -⟩ | ⟨w, hw, hcalls⟩ := Coroutine.calls_bind
      (applyRecursive (path ++ [n]) head.2)
      (fun w => (applyItems path (n + 1) items).map fun ws => (head.1, w) :: ws) c
    · rw [hcalls] at hq
      exact absurd hq hnot
    · rw [hcalls, Coroutine.calls_map] at hq
      replace hq := (List.mem_append.mp hq).resolve_left hnot
      cases i with
      | zero =>
        obtain rfl := Option.some.inj hitem
        rw [Nat.add_zero, ← (fill_of_returned _ _ hw).2] at hp
        exact ((applyRecursive (path ++ [n]) head.2).judged c).returned w hw p hp
      | succ i =>
        obtain ⟨j, rfl⟩ : ∃ j', j = j' + 1 := ⟨j - 1, by omega⟩
        rw [show n + (j + 1) = n + 1 + j by omega] at hpre
        rw [show n + (i + 1) = n + 1 + i by omega] at hp
        exact ih hq hpre (by omega) hitem hp

end Variable

/-! ## The applications end in any order

What the function comes to for a file is given, and the applications that are under way end in any
order.
-/

section

variable [DecidableEq μ]

/-- `apply_recursive` over a value, when the applications of `order` have ended, in that order. -/
def applying (func : List ℕ × μ → Except ε (Variable μ)) (obj : Variable μ)
    (order : List (List ℕ × μ)) : Progress (List ℕ × μ) ε (Variable μ) :=
  (applyRecursive [] obj).run (Coroutine.ended func order)

/-- One of the applications under way ends. -/
def applyStep (func : List ℕ × μ → Except ε (Variable μ)) (obj : Variable μ)
    (order : List (List ℕ × μ)) (p : List ℕ × μ) : Option (List (List ℕ × μ)) :=
  Coroutine.finish func (applyRecursive [] obj) order p

/-- What the function makes of a file where it does not raise. -/
def madeOf (func : List ℕ × μ → Except ε (Variable μ)) (p : List ℕ × μ) : Variable μ :=
  Variable.made (fun p => Coroutine.ofResult 0 (func p)) p

variable {func : List ℕ × μ → Except ε (Variable μ)} {obj : Variable μ}
  {acts order : List (List ℕ × μ)}

/-- `apply_recursive` returns only when the function returned for every file. -/
theorem leaves_of_returned {w : Variable μ} (h : (applying func obj order).status = .returned w) :
    (∀ p ∈ obj.leaves [], p ∈ order ∧ ∃ u, func p = .ok u) ∧ w = obj.fill (madeOf func) [] := by
  obtain ⟨-, hcalls⟩ := Variable.fill_of_returned [] obj h
  have hjudged := (applyRecursive [] obj).judged (Coroutine.ended func order)
  have hended : ∀ p ∈ obj.leaves [], p ∈ order ∧ ∃ u, func p = .ok u := by
    intro p hp
    rw [← hcalls] at hp
    obtain ⟨u, hu⟩ := hjudged.returned w h p hp
    obtain ⟨hmem, hok⟩ := Coroutine.ended_eq_returned hu
    exact ⟨hmem, u, hok⟩
  refine ⟨hended, ?_⟩
  -- the order the applications ended in does not matter for what they returned
  have hcalled : ∀ p ∈ ((applyRecursive [] obj).run (Coroutine.ended func order)).calls,
      p ∈ order :=
    fun p hp => (hended p ((Variable.sublist_leaves [] obj).subset hp)).1
  obtain ⟨-, hlike⟩ := Coroutine.outcome_of_ended hcalled
  replace h : ((applyRecursive [] obj).run (Coroutine.ended func order)).status = .returned w := h
  rw [h] at hlike
  exact (Variable.fill_of_returned [] obj hlike.eq_returned).1

/-- Only media files are passed to the function, and each at most once. -/
theorem order_of_applying (hrun : Runs.exec (applyStep func obj) [] acts = some order) :
    order.Nodup ∧ order ⊆ obj.leaves [] := by
  obtain ⟨hnodup, hmade⟩ := Coroutine.finish_run (x := applyRecursive [] obj) hrun
  exact ⟨hnodup, List.Subset.trans hmade (Variable.sublist_leaves [] obj).subset⟩

/-- `apply_recursive` returns exactly when the function returned for every file. -/
theorem returned_iff (hrun : Runs.exec (applyStep func obj) [] acts = some order)
    (w : Variable μ) : (applying func obj order).status = .returned w ↔
      (∀ p ∈ obj.leaves [], p ∈ order ∧ ∃ u, func p = .ok u) ∧
        w = obj.fill (madeOf func) [] := by
  refine ⟨leaves_of_returned, ?_⟩
  rintro ⟨hended, rfl⟩
  have hleaves := (order_of_applying hrun).2
  have hok : ∀ p ∈ order, ∃ u, func p = .ok u := fun p hp => (hended p (hleaves hp)).2
  cases hstatus : (applying func obj order).status with
  | pending =>
    obtain ⟨p, hp, hnot⟩ := (Coroutine.pending_iff_of_ok hok).mp hstatus
    exact absurd (hended p ((Variable.sublist_leaves [] obj).subset hp)).1 hnot
  | raised t e =>
    obtain ⟨⟨p, -, hraised⟩, -⟩ :=
      ((applyRecursive [] obj).judged (Coroutine.ended func order)).raised t e hstatus
    obtain ⟨hmem, -, herror⟩ := Coroutine.ended_eq_raised hraised
    obtain ⟨u, hu⟩ := hok p hmem
    rw [hu] at herror
    cases herror
  | returned w =>
    obtain ⟨-, rfl⟩ := leaves_of_returned hstatus
    rfl

/-- The first application to raise is what `apply_recursive` raises. -/
theorem raised_first (hrun : Runs.exec (applyStep func obj) [] acts = some order)
    {p : List ℕ × μ} (hp : p ∈ order) {e : ε} (he : func p = .error e) :
    ∃ before first after t e₀, order = before ++ first :: after ∧ func first = .error e₀ ∧
      (∀ q ∈ before, ∃ u, func q = .ok u) ∧ (applying func obj order).status = .raised t e₀ :=
  Coroutine.raised_of_finish (x := applyRecursive [] obj) hrun hp he

/-- A list of a file and of a dictionary with two. -/
def nestedFiles : Variable String :=
  .dict [("input", .list [.media "a.png", .dict [("a", .media "b.png"), ("b", .media "c.png")]])]

/-- Every file becomes a store of its name, but those of `missing`, for which it raises. -/
def storesBut (missing : List String) (p : List ℕ × String) : Except String (Variable String) :=
  if p.2 ∈ missing then .error ("no " ++ p.2) else .ok (.other (.str ("store of " ++ p.2)))

/-- An application below a later item of a dictionary is made when those below an earlier one have
ended. -/
theorem earlier_of_later {place : List ℕ} {items : List (String × Variable μ)}
    (hplace : obj.get? place = some (.dict items)) {i j : ℕ} (hij : i < j)
    {item : String × Variable μ} (hitem : items[i]? = some item) {q : List ℕ × μ}
    (hq : q ∈ (applying func obj order).calls) (hlater : place ++ [j] <+: q.1) {p : List ℕ × μ}
    (hp : p ∈ item.2.leaves (place ++ [i])) : p ∈ order ∧ ∃ u, func p = .ok u := by
  have hdict := Variable.mem_calls_of_get? hq ((List.prefix_append place [j]).trans hlater) hplace
  rw [List.nil_append, applyRecursive, Coroutine.calls_map] at hdict
  obtain ⟨u, hu⟩ := Variable.returned_of_later (n := 0) hdict
    (by rw [Nat.zero_add]; exact hlater) hij hitem (by rw [Nat.zero_add]; exact hp)
  obtain ⟨hmem, hok⟩ := Coroutine.ended_eq_returned hu
  exact ⟨hmem, u, hok⟩

/-- In every order of ends: the function is applied to no file below an item of a dictionary before
it returned for every file below the items ahead of it, wherever in the value the dictionary
stands. -/
theorem items_applied_in_order (func : List ℕ × μ → Except ε (Variable μ)) (obj : Variable μ)
    (acts order : List (List ℕ × μ))
    (hrun : Runs.exec (applyStep func obj) [] acts = some order) (place : List ℕ)
    (items : List (String × Variable μ)) (hplace : obj.get? place = some (.dict items)) (i j : ℕ)
    (hij : i < j) (item : String × Variable μ) (hitem : items[i]? = some item) (q : List ℕ × μ)
    (hq : q ∈ (applying func obj order).calls) (hlater : place ++ [j] <+: q.1)
    (p : List ℕ × μ) (hp : p ∈ item.2.leaves (place ++ [i])) :
    (∃ u, func p = .ok u) ∧ ∃ before after, order = before ++ p :: after ∧ q ∉ before := by
  obtain ⟨hmem, hok⟩ := earlier_of_later hplace hij hitem hq hlater hp
  refine ⟨hok, ?_⟩
  obtain ⟨before, after, horder, hnew⟩ := List.eq_append_cons_of_mem hmem
  refine ⟨before, after, horder, fun hqbefore => ?_⟩
  -- when `q` ended, `p` had
  obtain ⟨hacts, hmade⟩ := Coroutine.made_before_end (x := applyRecursive [] obj) hrun
  obtain ⟨b, b', rfl⟩ := List.append_of_mem hqbefore
  have hcall := hmade b q (b' ++ p :: after) (by rw [← List.nil_append acts, ← hacts, horder]; simp)
  have hearlier := (earlier_of_later hplace hij hitem hcall hlater hp).1
  exact hnew (List.mem_append_left _ hearlier)

/-- The dictionary's second file, after its first. -/
theorem items_applied_in_order_nestedFiles :
    ∃ before after, [([0, 1, 0], "b.png"), ([0, 0], "a.png")]
      = before ++ ([0, 1, 0], "b.png") :: after ∧ ([0, 1, 1], "c.png") ∉ before :=
  (items_applied_in_order (storesBut []) nestedFiles [([0, 1, 0], "b.png"), ([0, 0], "a.png")]
    [([0, 1, 0], "b.png"), ([0, 0], "a.png")] rfl [0, 1]
    [("a", .media "b.png"), ("b", .media "c.png")] rfl 0 1 (by decide) ("a", .media "b.png") rfl
    ([0, 1, 1], "c.png") (List.mem_of_elem_eq_true rfl) (List.prefix_refl _)
    ([0, 1, 0], "b.png") List.mem_cons_self).2

end

end

/-! ## The link

The input of the request for a grant requires the size of the file, and the link does not give it,
so every upload raises before anything is requested: an operation is sent on exactly if there is no
media file among its variables, and then as it is.
-/

/-- `MediaLike`; its key is its name. -/
structure MediaLike where
  fileName : String
deriving DecidableEq

/-- `RequestMediaUploadInput`. -/
structure RequestMediaUploadInput where
  originalFileName : String
  fileSize : ℤ
  contentType : Option String

/-- The names of the required fields that were not given. -/
def RequestMediaUploadInput.missing (originalFileName : Option String) (fileSize : Option ℤ) :
    List String :=
  (if originalFileName.isNone then ["original_file_name"] else []) ++
    (if fileSize.isNone then ["file_size"] else [])

/-- The model built of keyword arguments, or the required fields that pydantic misses. -/
def RequestMediaUploadInput.validate (originalFileName : Option String) (fileSize : Option ℤ)
    (contentType : Option String) : Except (List String) RequestMediaUploadInput :=
  match originalFileName, fileSize with
  | some name, some size => .ok ⟨name, size, contentType⟩
  | name, size => .error (missing name size)

/-- What an upload raises. -/
inductive UploadFault
  | valueError (text : String)
  /-- A `ValidationError`: the fields that are missing. -/
  | validationError (missing : List String)
  /-- The link that the operation for the grant goes to raised. -/
  | link (text : String)
  | uploadError (text : String)
deriving DecidableEq

/-- `MediaUploadGrant`: where a file is to be put. -/
structure MediaUploadGrant where
  bucket : String
  key : String
  store : String

/-- `UploadLink`, with what the next link answers to a request for a grant, in order, and whether
the file at a place can be put into the datalayer. -/
structure UploadLink where
  endpointUrl : String
  next : Option (List ℕ → RequestMediaUploadInput → List (Except String MediaUploadGrant))
  put : List ℕ → Bool

namespace UploadLink

/-- `aget_media_upload_credentials`. -/
def agetMediaUploadCredentials (link : UploadLink) (place : List ℕ) (file : MediaLike) :
    Except UploadFault MediaUploadGrant :=
  match link.next with
  | none => .error (.valueError "No next link found. Please set the next link.")
  | some aexecute =>
    match RequestMediaUploadInput.validate (some file.fileName) none none with
    | .error missing => .error (.validationError missing)
    | .ok input =>
      match aexecute place input with
      | [] => .error (.valueError "No result found for mesh upload credentials")
      | .error text :: _ => .error (.link text)
      | .ok grant :: _ => .ok grant

/-- `astore_media_file`. -/
def astoreMediaFile (link : UploadLink) (place : List ℕ) (credentials : MediaUploadGrant) :
    Except UploadFault String :=
  if link.put place then .ok credentials.store
  else .error (.uploadError
    s!"Error while uploading to s3://{credentials.bucket}/{credentials.key} on {link.endpointUrl}")

/-- `aupload_mediafile`. -/
def auploadMediafile (link : UploadLink) (p : List ℕ × MediaLike) :
    Except UploadFault (Variable MediaLike) := do
  let credentials ← link.agetMediaUploadCredentials p.1 p.2
  let store ← link.astoreMediaFile p.1 credentials
  return .other (.str store)

end UploadLink

/-- An operation; `vars` is `operation.variables`. -/
structure Operation where
  document : String
  vars : Variable MediaLike

/-- `UploadLink.aparse`, when the uploads of `order` have ended: nothing while it waits, and an
operation only if it returns. -/
def UploadLink.aparse (link : UploadLink) (operation : Operation)
    (order : List (List ℕ × MediaLike)) : Option (Except UploadFault Operation) :=
  match (applying link.auploadMediafile operation.vars order).status with
  | .pending => none
  | .returned vars => some (.ok { operation with vars := vars })
  | .raised _ e => some (.error e)

namespace UploadLink

/-- Every upload raises, for the size of the file or for the lack of a next link. -/
theorem auploadMediafile_error (link : UploadLink) (p : List ℕ × MediaLike) :
    ∃ e, link.auploadMediafile p = .error e ∧
      (link.next.isSome → e = .validationError ["file_size"]) := by
  unfold auploadMediafile agetMediaUploadCredentials
  cases hnext : link.next with
  | none =>
    refine ⟨_, rfl, ?_⟩
    rintro ⟨⟩
  | some aexecute => exact ⟨_, rfl, fun _ => rfl⟩

end UploadLink

mutual

/-- A value without media files is what `apply_recursive` fills it to. -/
theorem Variable.fill_of_leaves_eq_nil {μ : Type} (made : List ℕ × μ → Variable μ)
    (path : List ℕ) : ∀ v : Variable μ, v.leaves path = [] → v.fill made path = v
  | .dict items, h => congrArg Variable.dict (fillItems_of_leaves_eq_nil made path 0 items h)
  | .list items, h => congrArg Variable.list (fillAll_of_leaves_eq_nil made path 0 items h)
  | .tuple items, h => congrArg Variable.tuple (fillAll_of_leaves_eq_nil made path 0 items h)
  | .other _, _ => rfl

theorem Variable.fillItems_of_leaves_eq_nil {μ : Type} (made : List ℕ × μ → Variable μ)
    (path : List ℕ) (i : ℕ) : ∀ items : List (String × Variable μ),
      leavesItems path i items = [] → fillItems made path i items = items
  | [], _ => rfl
  | (k, v) :: items, h => by
    obtain ⟨hv, hitems⟩ := List.append_eq_nil_iff.mp h
    rw [fillItems, fill_of_leaves_eq_nil made _ v hv,
      fillItems_of_leaves_eq_nil made path (i + 1) items hitems]

theorem Variable.fillAll_of_leaves_eq_nil {μ : Type} (made : List ℕ × μ → Variable μ)
    (path : List ℕ) (i : ℕ) : ∀ vs : List (Variable μ),
      leavesAll path i vs = [] → fillAll made path i vs = vs
  | [], _ => rfl
  | v :: vs, h => by
    obtain ⟨hv, hvs⟩ := List.append_eq_nil_iff.mp h
    rw [fillAll, fill_of_leaves_eq_nil made _ v hv,
      fillAll_of_leaves_eq_nil made path (i + 1) vs hvs]

end

namespace UploadLink

/-- An operation is sent on exactly if no media file is among its variables, and then as it is; as
soon as an upload ended, the link raises. -/
theorem aparse_iff_no_media (link : UploadLink) (operation : Operation)
    {acts order : List (List ℕ × MediaLike)}
    (hrun : Runs.exec (applyStep link.auploadMediafile operation.vars) [] acts = some order) :
    (∀ sent, link.aparse operation order = some (.ok sent) ↔
      operation.vars.leaves [] = [] ∧ sent = operation) ∧
    (order ≠ [] → ∃ e, link.aparse operation order = some (.error e) ∧
      (link.next.isSome → e = .validationError ["file_size"])) := by
  have hreturned := returned_iff hrun
  have hleaves : ∀ {w}, (applying link.auploadMediafile operation.vars order).status = .returned w →
      operation.vars.leaves [] = [] ∧ w = operation.vars := by
    intro w hw
    obtain ⟨hended, rfl⟩ := (hreturned w).mp hw
    have hnil : operation.vars.leaves [] = [] := by
      refine List.eq_nil_iff_forall_not_mem.mpr fun p hp => ?_
      obtain ⟨-, u, hu⟩ := hended p hp
      obtain ⟨e, he, -⟩ := link.auploadMediafile_error p
      rw [hu] at he
      cases he
    exact ⟨hnil, Variable.fill_of_leaves_eq_nil _ _ _ hnil⟩
  refine ⟨fun sent => ⟨fun h => ?_, ?_⟩, fun hne => ?_⟩
  · unfold aparse at h
    cases hstatus : (applying link.auploadMediafile operation.vars order).status with
    | pending => rw [hstatus] at h; cases h
    | raised t e => rw [hstatus] at h; cases h
    | returned w =>
      rw [hstatus] at h
      obtain ⟨hnil, rfl⟩ := hleaves hstatus
      exact ⟨hnil, (Except.ok.inj (Option.some.inj h)).symm⟩
  · rintro ⟨hnil, rfl⟩
    have hw := (hreturned (sent.vars.fill (madeOf link.auploadMediafile) [])).mpr
      ⟨by rw [hnil]; rintro p ⟨⟩, rfl⟩
    unfold aparse
    rw [hw, (hleaves hw).2]
  · obtain ⟨p, hp⟩ := List.exists_mem_of_ne_nil order hne
    obtain ⟨e, he, -⟩ := link.auploadMediafile_error p
    obtain ⟨-, first, -, t, e₀, -, hfirst, -, hstatus⟩ := raised_first hrun hp he
    obtain ⟨e', he', hmissing⟩ := link.auploadMediafile_error first
    obtain rfl := Except.error.inj (hfirst.symm.trans he')
    refine ⟨e₀, ?_, hmissing⟩
    unfold aparse
    rw [hstatus]

end UploadLink

end Rekuest
