import Mathlib.Data.Finset.Insert
import Mathlib.Data.List.Basic
import Mathlib.Data.List.Nodup

/-!
# Merging a history into a queue

A queue holds items, some under a key and some under none, and is consumed from the front. A
history of keyed entries is read, which may be behind what the queue was given, and may have what
is long consumed. `merge` puts the entries that were not consumed in front, in the order of the
history, and leaves behind them what waits and was not read. `routed` are the keys that ever went
into the queue: a key that is routed and does not wait was consumed.

The merge is stable, it loses and repeats nothing, and once merged, a history has nothing to add to
the queue or to what is left of it.
-/

namespace StableMerge

variable {α β κ : Type*} {key : α → κ} {key? : β → Option κ} {wrap : α → β}
  {routed : Finset κ} {waiting : List β} {history : List α} {k : κ} {b : β}

/-- The keys of the items that have one. -/
def keys (key? : β → Option κ) (items : List β) : List κ := items.filterMap key?

theorem mem_keys {items : List β} : k ∈ keys key? items ↔ ∃ b ∈ items, key? b = some k := by
  unfold keys
  rw [List.mem_filterMap]

theorem keys_append (items items' : List β) :
    keys key? (items ++ items') = keys key? items ++ keys key? items' := by
  unfold keys
  apply List.filterMap_append

theorem keys_sublist {items items' : List β} (h : items.Sublist items') :
    (keys key? items).Sublist (keys key? items') := by
  unfold keys
  exact h.filterMap key?

theorem keys_map_wrap (hwrap : ∀ a, key? (wrap a) = some (key a)) (as : List α) :
    keys key? (as.map wrap) = as.map key := by
  unfold keys
  induction as with
  | nil => rfl
  | cons a as ih => rw [List.map_cons, List.filterMap_cons, hwrap, List.map_cons, ih]

variable [DecidableEq κ]

/-- The entries of a history that wait, or were never routed. -/
def fresh (key : α → κ) (key? : β → Option κ) (routed : Finset κ) (waiting : List β)
    (history : List α) : List α :=
  history.filter fun a => key a ∈ keys key? waiting ∨ key a ∉ routed

/-- The items that wait and are not in a history. -/
def behind (key : α → κ) (key? : β → Option κ) (history : List α) (waiting : List β) : List β :=
  waiting.filter fun b => ∀ k ∈ key? b, k ∉ history.map key

/-- A history in front of what waits. -/
def merge (key : α → κ) (key? : β → Option κ) (wrap : α → β) (routed : Finset κ)
    (waiting : List β) (history : List α) : List β :=
  (fresh key key? routed waiting history).map wrap ++ behind key key? history waiting

theorem fresh_sublist (key : α → κ) (key? : β → Option κ) (routed : Finset κ) (waiting : List β)
    (history : List α) : (fresh key key? routed waiting history).Sublist history := by
  unfold fresh
  apply List.filter_sublist

theorem behind_sublist (key : α → κ) (key? : β → Option κ) (history : List α) (waiting : List β) :
    (behind key key? history waiting).Sublist waiting := by
  unfold behind
  apply List.filter_sublist

/-! ## Keys -/

/-- What is behind a history shares no key with it. -/
theorem not_mem_history_of_mem_behind (h : k ∈ keys key? (behind key key? history waiting)) :
    k ∉ history.map key := by
  obtain ⟨b, hb, hkey⟩ := mem_keys.mp h
  have hall := of_decide_eq_true (List.mem_filter.mp hb).2
  exact hall k hkey

/-- What waits under a key that was not read stays behind. -/
theorem mem_keys_behind : k ∈ keys key? (behind key key? history waiting) ↔
    k ∈ keys key? waiting ∧ k ∉ history.map key := by
  constructor
  · intro h
    exact ⟨(keys_sublist (behind_sublist key key? history waiting)).subset h,
      not_mem_history_of_mem_behind h⟩
  · intro h
    obtain ⟨b, hb, hkey⟩ := mem_keys.mp h.1
    refine mem_keys.mpr ⟨b, List.mem_filter.mpr ⟨hb, decide_eq_true fun k' hk' => ?_⟩, hkey⟩
    rw [Option.mem_def, hkey] at hk'
    rw [← Option.some.inj hk']
    exact h.2

theorem mem_map_fresh : k ∈ (fresh key key? routed waiting history).map key ↔
    k ∈ history.map key ∧ (k ∈ keys key? waiting ∨ k ∉ routed) := by
  unfold fresh
  constructor
  · intro h
    obtain ⟨a, ha, rfl⟩ := List.mem_map.mp h
    obtain ⟨ha, hfresh⟩ := List.mem_filter.mp ha
    exact ⟨List.mem_map_of_mem ha, of_decide_eq_true hfresh⟩
  · intro h
    obtain ⟨⟨a, ha, rfl⟩, hfresh⟩ := And.imp_left List.mem_map.mp h
    exact List.mem_map_of_mem (List.mem_filter.mpr ⟨ha, decide_eq_true hfresh⟩)

/-! ## Merging -/

/-- What stays behind has all that is seen only of items without a key. -/
theorem filterMap_behind {γ : Type*} {f : β → Option γ}
    (hf : ∀ b k, key? b = some k → f b = none) :
    (behind key key? history waiting).filterMap f = waiting.filterMap f := by
  unfold behind
  rw [List.filterMap_filter]
  apply List.filterMap_congr
  intro b _
  cases hkey : key? b with
  | none => simp
  | some k => rw [hf b k hkey, ite_self]

/-- An item that waits is still there, or there is what was read under its key. -/
theorem mem_merge_of_mem (h : b ∈ waiting) :
    b ∈ merge key key? wrap routed waiting history ∨
      ∃ a ∈ history, key? b = some (key a) ∧
        wrap a ∈ merge key key? wrap routed waiting history := by
  by_cases hread : ∀ k ∈ key? b, k ∉ history.map key
  · exact Or.inl (List.mem_append_right _ (List.mem_filter.mpr ⟨h, decide_eq_true hread⟩))
  · simp only [not_forall, not_not] at hread
    obtain ⟨k, hkey, hread⟩ := hread
    obtain ⟨a, ha, rfl⟩ := List.mem_map.mp hread
    refine Or.inr ⟨a, ha, hkey, List.mem_append_left _ (List.mem_map_of_mem ?_)⟩
    exact List.mem_filter.mpr ⟨ha, decide_eq_true (Or.inl (mem_keys.mpr ⟨b, h, hkey⟩))⟩

section Merge

-- The items that are made of entries have the keys of these.
variable (hwrap : ∀ a, key? (wrap a) = some (key a))

include hwrap

theorem keys_merge : keys key? (merge key key? wrap routed waiting history)
    = (fresh key key? routed waiting history).map key
      ++ keys key? (behind key key? history waiting) := by
  unfold merge
  rw [keys_append, keys_map_wrap hwrap]

/-- A merged queue has what waited, and what was read and never routed. -/
theorem mem_keys_merge : k ∈ keys key? (merge key key? wrap routed waiting history) ↔
    k ∈ keys key? waiting ∨ k ∈ history.map key ∧ k ∉ routed := by
  rw [keys_merge hwrap, List.mem_append, mem_map_fresh, mem_keys_behind]
  by_cases hread : k ∈ history.map key <;> by_cases hwaits : k ∈ keys key? waiting <;>
    simp only [hread, hwaits, true_and, false_and, and_true, and_false, true_or, or_true, or_false,
      false_or, not_true_eq_false, not_false_eq_true]

/-- No key is in a merged queue twice. -/
theorem nodup_keys_merge (hwaiting : (keys key? waiting).Nodup)
    (hhistory : (history.map key).Nodup) :
    (keys key? (merge key key? wrap routed waiting history)).Nodup := by
  rw [keys_merge hwrap]
  apply List.Nodup.append
  · exact hhistory.sublist ((fresh_sublist key key? routed waiting history).map key)
  · exact hwaiting.sublist (keys_sublist (behind_sublist key key? history waiting))
  · intro k hfresh hbehind
    exact not_mem_history_of_mem_behind hbehind (mem_map_fresh.mp hfresh).1

/-- What was consumed stays so. -/
theorem not_mem_keys_merge (hrouted : k ∈ routed) (hwaiting : k ∉ keys key? waiting) :
    k ∉ keys key? (merge key key? wrap routed waiting history) := by
  rw [mem_keys_merge hwrap]
  exact fun h => h.elim hwaiting fun h => h.2 hrouted

/-- Whatever is seen only of items without a key stays as it was. -/
theorem filterMap_merge {γ : Type*} {f : β → Option γ} (hf : ∀ b k, key? b = some k → f b = none) :
    (merge key key? wrap routed waiting history).filterMap f = waiting.filterMap f := by
  have hfresh : ((fresh key key? routed waiting history).map wrap).filterMap f = [] := by
    apply List.filterMap_eq_nil_iff.mpr
    intro b hb
    obtain ⟨a, -, rfl⟩ := List.mem_map.mp hb
    exact hf _ _ (hwrap a)
  unfold merge
  rw [List.filterMap_append, hfresh, List.nil_append, filterMap_behind hf]

/-- The items without a key stay, in their order. -/
theorem filter_unkeyed_merge :
    (merge key key? wrap routed waiting history).filter (fun b => key? b = none)
      = waiting.filter fun b => key? b = none := by
  rw [← List.filterMap_eq_filter]
  apply filterMap_merge hwrap
  intro b k hkey
  simp [Option.guard, hkey]

end Merge

/-! ## Merging again -/

/-- Entries are picked out of a list by the keys of some of them. -/
theorem filter_mem_keys_of_sublist {as bs : List α} (h : as.Sublist bs)
    (hnodup : (bs.map key).Nodup) : bs.filter (fun b => key b ∈ as.map key) = as := by
  induction h with
  | slnil => rfl
  | @cons as bs b hsub ih =>
    -- the first entry is not among those picked, and neither is its key
    rw [List.map_cons, List.nodup_cons] at hnodup
    have hb : key b ∉ as.map key := fun hin => hnodup.1 ((hsub.map key).subset hin)
    rw [List.filter_cons_of_neg (by simpa using hb)]
    exact ih hnodup.2
  | @cons_cons as bs b hsub ih =>
    rw [List.map_cons, List.nodup_cons] at hnodup
    rw [List.filter_cons_of_pos (by simp)]
    congr 1
    calc bs.filter (fun b' => key b' ∈ (b :: as).map key)
        = bs.filter (fun b' => key b' ∈ as.map key) := by
          apply List.filter_congr
          intro b' hb'
          have hne : key b' ≠ key b := fun heq => hnodup.1 (heq ▸ List.mem_map_of_mem hb')
          simp only [List.map_cons, List.mem_cons, hne, false_or]
      _ = as := ih hnodup.2

variable (hwrap : ∀ a, key? (wrap a) = some (key a))

include hwrap

theorem behind_map_wrap {as : List α} (h : as.Sublist history) :
    behind key key? history (as.map wrap) = [] := by
  unfold behind
  apply List.filter_eq_nil_iff.mpr
  intro b hb hnot
  obtain ⟨a, ha, rfl⟩ := List.mem_map.mp hb
  exact of_decide_eq_true hnot (key a) (hwrap a) (List.mem_map_of_mem (h.subset ha))

/-- Whatever is left of a merged queue, its history has nothing to add to it. -/
theorem merge_of_sublist {routed' : Finset κ} {rest : List β} (hhistory : (history.map key).Nodup)
    (hrouted : ∀ a ∈ history, key a ∈ routed')
    (hrest : rest.Sublist (merge key key? wrap routed waiting history)) :
    merge key key? wrap routed' rest history = rest := by
  unfold merge at hrest
  obtain ⟨front, back, rfl, hfront, hback⟩ := List.sublist_append_iff.mp hrest
  obtain ⟨as, has, rfl⟩ := List.sublist_map_iff.mp hfront
  have hsub : as.Sublist history := has.trans (fresh_sublist key key? routed waiting history)
  have hkeys : keys key? (as.map wrap ++ back) = as.map key ++ keys key? back := by
    rw [keys_append, keys_map_wrap hwrap]
  have hfresh : fresh key key? routed' (as.map wrap ++ back) history = as := by
    -- of the read, only what is left waits, and all is routed
    refine Eq.trans ?_ (filter_mem_keys_of_sublist hsub hhistory)
    unfold fresh
    apply List.filter_congr
    intro a ha
    have hback' : key a ∉ keys key? back := fun hin =>
      not_mem_history_of_mem_behind ((keys_sublist hback).subset hin) (List.mem_map_of_mem ha)
    apply decide_eq_decide.mpr
    rw [hkeys, List.mem_append]
    simp only [hback', hrouted a ha, or_false, not_true_eq_false]
  have hbehind : behind key key? history (as.map wrap ++ back) = back := by
    have hself : behind key key? history back = back := by
      apply List.filter_eq_self.mpr
      intro b hb
      exact (List.mem_filter.mp (hback.subset hb)).2
    unfold behind at hself ⊢
    rw [List.filter_append, hself]
    show behind key key? history (as.map wrap) ++ back = back
    rw [behind_map_wrap hwrap hsub, List.nil_append]
  unfold merge
  rw [hfresh, hbehind]

end StableMerge
