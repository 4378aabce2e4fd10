import Mathlib.Data.List.Nodup
import Mathlib.Data.List.Basic

/-!
# Insertion-ordered dictionaries

A `Dict` is a finite map that remembers the order in which its keys were first set, as a Python
`dict` does: setting a present key keeps its place, setting a new one appends it. The keys are
distinct by construction, so a lookup and membership of an entry say the same thing.
-/

/-- A finite map with its keys in insertion order. -/
structure Dict (κ ν : Type*) where
  entries : List (κ × ν)
  nodup : (entries.map Prod.fst).Nodup

namespace Dict

variable {κ ν : Type*}

/-- The dictionary without entries. -/
def empty : Dict κ ν := ⟨[], List.nodup_nil⟩

instance : EmptyCollection (Dict κ ν) := ⟨empty⟩

/-- The keys, in insertion order. -/
def keys (d : Dict κ ν) : List κ := d.entries.map Prod.fst

/-- The values, in the order of their keys. -/
def values (d : Dict κ ν) : List ν := d.entries.map Prod.snd

theorem nodup_keys (d : Dict κ ν) : d.keys.Nodup := d.nodup

/-- Keep the entries whose key satisfies `p`. -/
def filterKeys (d : Dict κ ν) (p : κ → Bool) : Dict κ ν :=
  ⟨d.entries.filter fun e => p e.1,
    d.nodup.sublist (List.filter_sublist.map Prod.fst)⟩

theorem mem_entries_filterKeys {d : Dict κ ν} {p : κ → Bool} {e : κ × ν} :
    e ∈ (d.filterKeys p).entries ↔ e ∈ d.entries ∧ p e.1 = true :=
  List.mem_filter

variable [DecidableEq κ]

/-- The value under `k`, if any. -/
def get? (d : Dict κ ν) (k : κ) : Option ν :=
  (d.entries.find? fun e => e.1 = k).map Prod.snd

/-- Set `k` to `v`: in place when `k` is present, at the end otherwise. -/
def set (d : Dict κ ν) (k : κ) (v : ν) : Dict κ ν where
  entries :=
    if k ∈ d.keys then d.entries.map fun e => if e.1 = k then (k, v) else e
    else d.entries ++ [(k, v)]
  nodup := by
    split
    · have hfst : (d.entries.map fun e => if e.1 = k then (k, v) else e).map Prod.fst
          = d.entries.map Prod.fst := by
        rw [List.map_map]
        refine List.map_congr_left fun e _ => ?_
        by_cases hk : e.1 = k <;> simp [hk]
      rw [hfst]
      exact d.nodup
    · rename_i hk
      rw [List.map_append, List.nodup_append]
      refine ⟨d.nodup, by simp, ?_⟩
      rintro a ha b hb rfl
      obtain rfl : a = k := by simpa using hb
      exact hk ha

/-- Set `k` to `v` only where `k` is absent. -/
def setdefault (d : Dict κ ν) (k : κ) (v : ν) : Dict κ ν :=
  if (d.get? k).isSome then d else d.set k v

/-- Drop the entry under `k`, if any. -/
def erase (d : Dict κ ν) (k : κ) : Dict κ ν := d.filterKeys fun k' => k' ≠ k

/-- A lookup finds exactly the entries. -/
theorem get?_eq_some {d : Dict κ ν} {k : κ} {v : ν} :
    d.get? k = some v ↔ (k, v) ∈ d.entries := by
  constructor
  · intro h
    obtain ⟨e, he, rfl⟩ := Option.map_eq_some_iff.mp h
    obtain rfl : e.1 = k := by simpa using List.find?_some he
    exact List.mem_of_find?_eq_some he
  · intro h
    obtain ⟨e, he⟩ : ∃ e, (d.entries.find? fun e => e.1 = k) = some e := by
      rw [← Option.isSome_iff_exists, List.find?_isSome]
      exact ⟨(k, v), h, by simp⟩
    have hk : e.1 = k := by simpa using List.find?_some he
    have heq : e = (k, v) :=
      List.inj_on_of_nodup_map d.nodup (List.mem_of_find?_eq_some he) h hk
    simp [get?, he, heq]

theorem mem_keys {d : Dict κ ν} {k : κ} : k ∈ d.keys ↔ ∃ v, d.get? k = some v := by
  simp [keys, get?_eq_some]

@[simp] theorem get?_empty (k : κ) : (∅ : Dict κ ν).get? k = none := rfl

/-- A dictionary in which nothing is found is empty. -/
theorem eq_empty_of_get? {d : Dict κ ν} (h : ∀ k, d.get? k = none) : d = ∅ := by
  obtain ⟨entries, nodup⟩ := d
  cases entries with
  | nil => rfl
  | cons e entries =>
    have hfound : get? ⟨e :: entries, nodup⟩ e.1 = some e.2 :=
      get?_eq_some.mpr List.mem_cons_self
    rw [h] at hfound
    cases hfound

theorem mem_values {d : Dict κ ν} {v : ν} : v ∈ d.values ↔ ∃ k, d.get? k = some v := by
  simp [values, get?_eq_some]

/-- The entries after a `set`: the new one, and every old one under another key. -/
theorem mem_entries_set {d : Dict κ ν} {k : κ} {v : ν} {e : κ × ν} :
    e ∈ (d.set k v).entries ↔ e = (k, v) ∨ (e ∈ d.entries ∧ e.1 ≠ k) := by
  simp only [set]
  split
  · rename_i hk
    obtain ⟨w, hw⟩ : ∃ w, (k, w) ∈ d.entries := by simpa [keys] using hk
    simp only [List.mem_map]
    constructor
    · rintro ⟨e', he', rfl⟩
      by_cases h : e'.1 = k
      · simp [h]
      · exact Or.inr ⟨by simpa [h] using he', by simp [h]⟩
    · rintro (rfl | ⟨he, hne⟩)
      · exact ⟨(k, w), hw, by simp⟩
      · exact ⟨e, he, by simp [hne]⟩
  · rename_i hk
    simp only [List.mem_append, List.mem_singleton]
    constructor
    · rintro (he | rfl)
      · refine Or.inr ⟨he, fun h => hk ?_⟩
        exact List.mem_map.mpr ⟨e, he, h⟩
      · exact Or.inl rfl
    · rintro (rfl | ⟨he, -⟩)
      · exact Or.inr rfl
      · exact Or.inl he

@[simp] theorem get?_set (d : Dict κ ν) (k k' : κ) (v : ν) :
    (d.set k v).get? k' = if k' = k then some v else d.get? k' := by
  ext w
  rw [get?_eq_some, mem_entries_set]
  by_cases h : k' = k
  · simp [h, eq_comm]
  · simp [h, get?_eq_some]

@[simp] theorem get?_filterKeys (d : Dict κ ν) (p : κ → Bool) (k : κ) :
    (d.filterKeys p).get? k = if p k then d.get? k else none := by
  ext w
  rw [get?_eq_some, mem_entries_filterKeys]
  by_cases h : p k <;> simp [h, get?_eq_some]

@[simp] theorem get?_erase (d : Dict κ ν) (k k' : κ) :
    (d.erase k).get? k' = if k' = k then none else d.get? k' := by
  by_cases h : k' = k <;> simp [erase, h]

/-- What is found after a key was set: the new value, or what another key had. -/
theorem get?_set_eq_some {d : Dict κ ν} {k k' : κ} {v v' : ν} :
    (d.set k v).get? k' = some v' ↔ k' = k ∧ v' = v ∨ k' ≠ k ∧ d.get? k' = some v' := by
  rw [get?_set]
  by_cases h : k' = k <;> simp [h, eq_comm]

/-- Setting a new key keeps what is found under the others. -/
theorem get?_set_of_new {d : Dict κ ν} {k k' : κ} {v' : ν} (hnew : d.get? k = none) (v : ν)
    (h : d.get? k' = some v') : (d.set k v).get? k' = some v' := by
  refine get?_set_eq_some.mpr (Or.inr ⟨?_, h⟩)
  rintro rfl
  rw [hnew] at h
  cases h

/-- Setting a key drops none. -/
theorem isSome_get?_set {d : Dict κ ν} {k k' : κ} (h : (d.get? k').isSome) (v : ν) :
    ((d.set k v).get? k').isSome := by
  rw [get?_set]
  split
  · rfl
  · exact h

/-- What is found after a key was erased was found before, under another key. -/
theorem get?_erase_eq_some {d : Dict κ ν} {k k' : κ} {v : ν} :
    (d.erase k).get? k' = some v ↔ k' ≠ k ∧ d.get? k' = some v := by
  rw [get?_erase]
  by_cases h : k' = k <;> simp [h]

@[simp] theorem get?_setdefault (d : Dict κ ν) (k k' : κ) (v : ν) :
    (d.setdefault k v).get? k' = if k' = k then some ((d.get? k).getD v) else d.get? k' := by
  simp only [setdefault]
  cases hk : d.get? k with
  | none => simp
  | some w =>
    by_cases h : k' = k
    · subst h; simp [hk]
    · simp [h]

/-- Setting a key to the value it has changes nothing. -/
theorem set_of_get?_eq_some {d : Dict κ ν} {k : κ} {v : ν} (h : d.get? k = some v) :
    d.set k v = d := by
  obtain ⟨entries, nodup⟩ := d
  have hk : k ∈ keys ⟨entries, nodup⟩ := mem_keys.mpr ⟨v, h⟩
  simp only [set, if_pos hk, mk.injEq]
  refine (List.map_congr_left fun e he => ?_).trans (List.map_id entries)
  split
  · rename_i hek
    exact List.inj_on_of_nodup_map nodup (get?_eq_some.mp h) he hek.symm
  · rfl

end Dict
