import Mathlib.Data.List.Nodup
import Mathlib.Data.List.Basic

/-!
# Tables with a primary key

A `Table key` is a list of rows with pairwise distinct keys, and the statements below are those
of SQL on it: `INSERT OR IGNORE`, `INSERT OR REPLACE`, `DELETE … WHERE`, `UPDATE … SET … WHERE`
and a lookup by key. Each keeps the keys distinct, and each is described by its rows.
-/

/-- Rows with pairwise distinct keys. -/
structure Table {ρ κ : Type*} (key : ρ → κ) where
  rows : List ρ
  nodup : (rows.map key).Nodup

namespace Table

variable {ρ κ : Type*} {key : ρ → κ}

/-- The table without rows. -/
def empty : Table key := ⟨[], List.nodup_nil⟩

theorem eq_of_key_eq (t : Table key) {r r' : ρ} (hr : r ∈ t.rows) (hr' : r' ∈ t.rows)
    (h : key r = key r') : r = r' :=
  List.inj_on_of_nodup_map t.nodup hr hr' h

theorem nodup_rows (t : Table key) : t.rows.Nodup := t.nodup.of_map

/-- `DELETE FROM t WHERE p`. -/
def deleteWhere (t : Table key) (p : ρ → Bool) : Table key :=
  ⟨t.rows.filter fun r => !p r, t.nodup.sublist (List.filter_sublist.map key)⟩

@[simp] theorem mem_deleteWhere {t : Table key} {p : ρ → Bool} {r : ρ} :
    r ∈ (t.deleteWhere p).rows ↔ r ∈ t.rows ∧ p r = false := by
  simp [deleteWhere]

/-- `UPDATE t SET f WHERE p`, where `f` leaves the key alone. -/
def updateWhere (t : Table key) (p : ρ → Bool) (f : ρ → ρ) (hf : ∀ r, key (f r) = key r) :
    Table key where
  rows := t.rows.map fun r => if p r then f r else r
  nodup := by
    have hkey : (t.rows.map fun r => if p r then f r else r).map key = t.rows.map key := by
      rw [List.map_map]
      refine List.map_congr_left fun r _ => ?_
      by_cases hp : p r <;> simp [hp, hf]
    rw [hkey]
    exact t.nodup

theorem mem_updateWhere {t : Table key} {p : ρ → Bool} {f : ρ → ρ}
    (hf : ∀ r, key (f r) = key r) {r : ρ} :
    r ∈ (t.updateWhere p f hf).rows ↔ ∃ r' ∈ t.rows, (if p r' then f r' else r') = r := by
  simp [updateWhere]

/-! ## The rows of a scope -/

section

theorem ext {t t' : Table key} (h : t.rows = t'.rows) : t = t' := by
  cases t
  cases t'
  obtain rfl := h
  rfl

/-- The table of the rows that meet `p`. -/
def scope (t : Table key) (p : ρ → Bool) : Table key :=
  ⟨t.rows.filter p, t.nodup.sublist (List.filter_sublist.map key)⟩

variable {t : Table key} {p q : ρ → Bool} {r : ρ}

@[simp] theorem mem_scope : r ∈ (t.scope p).rows ↔ r ∈ t.rows ∧ p r := by
  simp [scope]

theorem deleteWhere_congr {q' : ρ → Bool} (h : ∀ r ∈ t.rows, q r = q' r) :
    t.deleteWhere q = t.deleteWhere q' :=
  ext (List.filter_congr fun r hr => by rw [h r hr])

theorem scope_deleteWhere (t : Table key) (p q : ρ → Bool) :
    (t.deleteWhere q).scope p = (t.scope p).deleteWhere q := by
  refine ext ?_
  simp only [scope, deleteWhere, List.filter_filter]
  exact List.filter_congr fun r _ => Bool.and_comm _ _

/-- `DELETE` outside the scope. -/
theorem scope_deleteWhere_of_not (h : ∀ r, p r → q r = false) :
    (t.deleteWhere q).scope p = t.scope p := by
  rw [scope_deleteWhere]
  refine ext (List.filter_eq_self.mpr fun r hr => ?_)
  rw [h r (mem_scope.mp hr).2]
  rfl

theorem scope_updateWhere {f : ρ → ρ} (hf : ∀ r, key (f r) = key r) (hp : ∀ r, p (f r) = p r) :
    (t.updateWhere q f hf).scope p = (t.scope p).updateWhere q f hf := by
  refine ext ?_
  simp only [scope, updateWhere, List.filter_map]
  refine congrArg _ (List.filter_congr fun r _ => ?_)
  by_cases hq : q r <;> simp [hq, hp]

/-- `UPDATE` outside the scope. -/
theorem scope_updateWhere_of_not {f : ρ → ρ} (hf : ∀ r, key (f r) = key r)
    (hp : ∀ r, p (f r) = p r) (h : ∀ r, p r → q r = false) :
    (t.updateWhere q f hf).scope p = t.scope p := by
  rw [scope_updateWhere hf hp]
  refine ext ((List.map_congr_left fun r hr => ?_).trans (List.map_id _))
  simp [h r (mem_scope.mp hr).2]

end

/-! ## Lookups and insertions -/

variable [DecidableEq κ]

/-- `SELECT * FROM t WHERE key = k`. -/
def row? (t : Table key) (k : κ) : Option ρ := t.rows.find? fun r => key r = k

theorem row?_eq_some {t : Table key} {k : κ} {r : ρ} :
    t.row? k = some r ↔ r ∈ t.rows ∧ key r = k := by
  constructor
  · intro h
    exact ⟨List.mem_of_find?_eq_some h, by simpa using List.find?_some h⟩
  · rintro ⟨hr, rfl⟩
    obtain ⟨r', hr'⟩ : ∃ r', t.row? (key r) = some r' := by
      rw [← Option.isSome_iff_exists, row?, List.find?_isSome]
      exact ⟨r, hr, by simp⟩
    have hkey : key r' = key r := by simpa using List.find?_some hr'
    rw [hr', t.eq_of_key_eq (List.mem_of_find?_eq_some hr') hr hkey]

theorem row?_eq_none {t : Table key} {k : κ} : t.row? k = none ↔ ∀ r ∈ t.rows, key r ≠ k := by
  simp [row?, List.find?_eq_none]

/-- `INSERT OR IGNORE INTO t VALUES r`. -/
def insertOrIgnore (t : Table key) (r : ρ) : Table key where
  rows := if (t.row? (key r)).isSome then t.rows else t.rows ++ [r]
  nodup := by
    split
    · exact t.nodup
    · rename_i h
      rw [Option.not_isSome_iff_eq_none, row?_eq_none] at h
      rw [List.map_append, List.nodup_append]
      refine ⟨t.nodup, by simp, ?_⟩
      rintro a ha b hb rfl
      obtain ⟨r', hr', hkey⟩ := List.mem_map.mp ha
      exact h r' hr' (hkey.trans (by simpa using hb))

theorem mem_insertOrIgnore {t : Table key} {r r' : ρ} :
    r' ∈ (t.insertOrIgnore r).rows ↔ r' ∈ t.rows ∨ (r' = r ∧ t.row? (key r) = none) := by
  simp only [insertOrIgnore]
  cases h : t.row? (key r) <;> simp

/-- `INSERT OR REPLACE INTO t VALUES r`: a row with the same key goes, and `r` is added. -/
def insertOrReplace (t : Table key) (r : ρ) : Table key where
  rows := (t.deleteWhere fun r' => key r' = key r).rows ++ [r]
  nodup := by
    rw [List.map_append, List.nodup_append]
    refine ⟨(t.deleteWhere _).nodup, by simp, ?_⟩
    rintro a ha b hb rfl
    obtain ⟨r', hr', hkey⟩ := List.mem_map.mp ha
    obtain rfl : a = key r := by simpa using hb
    exact absurd hkey (by simpa using (mem_deleteWhere.mp hr').2)

theorem mem_insertOrReplace {t : Table key} {r r' : ρ} :
    r' ∈ (t.insertOrReplace r).rows ↔ r' = r ∨ (r' ∈ t.rows ∧ key r' ≠ key r) := by
  simp only [insertOrReplace, List.mem_append, mem_deleteWhere, List.mem_singleton]
  simp [or_comm]

/-- A lookup after `INSERT OR REPLACE` finds the new row under its key. -/
theorem row?_insertOrReplace (t : Table key) (r : ρ) (k : κ) :
    (t.insertOrReplace r).row? k = if k = key r then some r else t.row? k := by
  split
  · rename_i hk
    exact row?_eq_some.mpr ⟨mem_insertOrReplace.mpr (Or.inl rfl), hk.symm⟩
  · rename_i hk
    ext r'
    rw [row?_eq_some, row?_eq_some, mem_insertOrReplace]
    constructor
    · rintro ⟨rfl | ⟨hr', -⟩, rfl⟩
      · exact absurd rfl hk
      · exact ⟨hr', rfl⟩
    · rintro ⟨hr', rfl⟩
      exact ⟨Or.inr ⟨hr', hk⟩, rfl⟩

/-- A lookup after `UPDATE` finds the updated row. -/
theorem row?_updateWhere (t : Table key) (p : ρ → Bool) (f : ρ → ρ) (hf : ∀ r, key (f r) = key r)
    (k : κ) : (t.updateWhere p f hf).row? k = (t.row? k).map fun r => if p r then f r else r := by
  have hkey : ∀ r, key (if p r then f r else r) = key r := fun r => by split <;> simp [hf]
  ext r'
  rw [row?_eq_some, mem_updateWhere hf, Option.map_eq_some_iff]
  constructor
  · rintro ⟨⟨r, hr, rfl⟩, hk⟩
    exact ⟨r, row?_eq_some.mpr ⟨hr, (hkey r).symm.trans hk⟩, rfl⟩
  · rintro ⟨r, hr, rfl⟩
    obtain ⟨hr, hk⟩ := row?_eq_some.mp hr
    exact ⟨⟨r, hr, rfl⟩, (hkey r).trans hk⟩

/-- A lookup after `DELETE` finds the row, where it was not deleted. -/
theorem row?_deleteWhere (t : Table key) (p : ρ → Bool) (k : κ) :
    (t.deleteWhere p).row? k = (t.row? k).filter fun r => !p r := by
  ext r'
  rw [row?_eq_some, mem_deleteWhere, Option.filter_eq_some_iff, row?_eq_some]
  constructor
  · rintro ⟨⟨hr, hp⟩, hk⟩
    exact ⟨⟨hr, hk⟩, by simp [hp]⟩
  · rintro ⟨⟨hr, hk⟩, hp⟩
    exact ⟨⟨hr, by simpa using hp⟩, hk⟩

/-- `INSERT OR IGNORE` leaves the lookups of other keys. -/
theorem row?_insertOrIgnore_of_ne (t : Table key) {r : ρ} {k : κ} (h : k ≠ key r) :
    (t.insertOrIgnore r).row? k = t.row? k := by
  ext r'
  rw [row?_eq_some, row?_eq_some, mem_insertOrIgnore]
  constructor
  · rintro ⟨hr' | ⟨rfl, -⟩, rfl⟩
    · exact ⟨hr', rfl⟩
    · exact absurd rfl h
  · rintro ⟨hr', hk⟩
    exact ⟨Or.inl hr', hk⟩

/-! ## Keyed statements in a scope -/

variable {t : Table key} {p : ρ → Bool} {r : ρ}

/-- A lookup in a scope that has all rows of the key. -/
theorem row?_scope {k : κ} (h : ∀ r, key r = k → p r) : (t.scope p).row? k = t.row? k := by
  ext r
  simp only [row?_eq_some, mem_scope]
  exact ⟨fun hr => ⟨hr.1.1, hr.2⟩, fun hr => ⟨⟨hr.1, h r hr.2⟩, hr.2⟩⟩

/-- `INSERT OR REPLACE` into the scope, where it has all rows of the key. -/
theorem scope_insertOrReplace (hr : p r) :
    (t.insertOrReplace r).scope p = (t.scope p).insertOrReplace r := by
  refine ext ?_
  have hfilter := congrArg rows (scope_deleteWhere t p fun r' => key r' = key r)
  change (t.deleteWhere _).rows.filter p = _ at hfilter
  change ((t.deleteWhere _).rows ++ [r]).filter p = ((t.scope p).deleteWhere _).rows ++ [r]
  rw [List.filter_append, hfilter, List.filter_cons_of_pos hr, List.filter_nil]

/-- `INSERT OR REPLACE` outside the scope. -/
theorem scope_insertOrReplace_of_not (h : ∀ r', p r' → key r' ≠ key r) (hr : p r = false) :
    (t.insertOrReplace r).scope p = t.scope p := by
  refine ext ?_
  have hfilter := congrArg rows (scope_deleteWhere_of_not (t := t) (p := p)
    (q := fun r' => key r' = key r) fun r' hr' => by simpa using h r' hr')
  change (t.deleteWhere _).rows.filter p = _ at hfilter
  change ((t.deleteWhere _).rows ++ [r]).filter p = _
  rw [List.filter_append, hfilter, List.filter_cons_of_neg (by simp [hr]), List.filter_nil,
    List.append_nil]

/-- `INSERT OR IGNORE` into the scope, where it has all rows of the key. -/
theorem scope_insertOrIgnore (h : ∀ r', key r' = key r → p r') :
    (t.insertOrIgnore r).scope p = (t.scope p).insertOrIgnore r := by
  refine ext ?_
  simp only [insertOrIgnore, row?_scope h]
  change List.filter p _ = _
  split
  · rfl
  · rw [List.filter_append, List.filter_cons_of_pos (h r rfl), List.filter_nil]
    rfl

/-- `INSERT OR IGNORE` outside the scope. -/
theorem scope_insertOrIgnore_of_not (hr : p r = false) :
    (t.insertOrIgnore r).scope p = t.scope p := by
  refine ext ?_
  change (t.insertOrIgnore r).rows.filter p = t.rows.filter p
  rw [insertOrIgnore]
  split
  · rfl
  · rw [List.filter_append, List.filter_cons_of_neg (by simp [hr]), List.filter_nil,
      List.append_nil]

end Table
