import Mathlib.Data.List.Infix
import Mathlib.Data.List.Nodup

/-!
# Following a log by reads and a feed

A log of entries with distinct keys is followed by someone who learns it in two ways: by reads,
each of which is a prefix of the log, and by a feed that delivers every entry from some point on,
in order. What is known is a prefix of the log, unless the feed began behind its start and no read
closed the gap yet. `backfill` puts a read in front of what still waits to be taken.
-/

namespace Backfill

variable {α κ : Type*} {key : α → κ} {log known taken read waiting missed : List α}

theorem nodup_keys_of_first (hlog : (log.map key).Nodup) (h : known <+: log) :
    (known.map key).Nodup :=
  hlog.sublist (h.sublist.map key)

/-- What the feed delivers next, `entry`, is known already, or the next that is not. -/
theorem delivered_of_ordered {done pending : List α} {entry : α}
    (hlog : (log.map key).Nodup) (hnext : log = done ++ entry :: pending) (hknown : known <+: log)
    (hdone : done.length ≤ known.length) :
    (key entry ∈ known.map key → done.length < known.length) ∧
      (key entry ∉ known.map key → known = done) := by
  have hpre : done ++ [entry] <+: log := ⟨pending, by rw [hnext]; simp⟩
  have hdone' : done <+: known :=
    List.prefix_of_prefix_length_le ((List.prefix_append _ _).trans hpre) hknown hdone
  constructor
  · intro hmem
    refine lt_of_le_of_ne hdone fun heq => ?_
    obtain rfl := hdone'.eq_of_length heq
    have hnodup := nodup_keys_of_first hlog hpre
    rw [List.map_append, List.nodup_append] at hnodup
    exact hnodup.2.2 _ hmem _ (List.mem_map_of_mem (List.mem_singleton_self _)) rfl
  · intro hmem
    refine (hdone'.eq_of_length (le_antisymm hdone ?_)).symm
    by_contra hlt
    have hpre' : done ++ [entry] <+: known :=
      List.prefix_of_prefix_length_le hpre hknown (by simp; omega)
    exact hmem (List.mem_map_of_mem (hpre'.subset (by simp)))

variable [DecidableEq κ]

/-- The read, without what was taken, then what waits and was not read. -/
def backfill (key : α → κ) (taken read waiting : List α) : List α :=
  (read.filter fun a => key a ∉ taken.map key) ++ waiting.filter fun a => key a ∉ read.map key

/-- Entries kept by their key against a list they share no key with. -/
theorem filter_disjoint {as bs : List α} (h : ((as ++ bs).map key).Nodup) :
    (bs.filter fun b => key b ∉ as.map key) = bs := by
  rw [List.filter_eq_self]
  intro b hb
  rw [List.map_append, List.nodup_append] at h
  exact decide_eq_true fun ha => h.2.2 _ ha _ (List.mem_map_of_mem hb) rfl

/-- Entries of a list kept by their key against that list. -/
theorem filter_subset {as bs : List α} (h : as ⊆ bs) :
    (as.filter fun a => key a ∉ bs.map key) = [] := by
  rw [List.filter_eq_nil_iff]
  intro a ha
  simpa using ⟨a, h ha, rfl⟩

/-- Entries kept by their key against a prefix of their list. -/
theorem filter_append {as bs : List α} (h : ((as ++ bs).map key).Nodup) :
    ((as ++ bs).filter fun b => key b ∉ as.map key) = bs := by
  rw [List.filter_append, filter_subset (List.Subset.refl as), filter_disjoint h, List.nil_append]

/-- Nothing that was read, taken or waiting gets lost. -/
theorem mem_keys_backfill {k : κ} : k ∈ (taken ++ backfill key taken read waiting).map key ↔
    k ∈ taken.map key ∨ k ∈ read.map key ∨ k ∈ waiting.map key := by
  simp only [backfill, List.map_append, List.mem_append, List.mem_map, List.mem_filter,
    decide_eq_true_eq]
  constructor
  · rintro (h | ⟨a, ⟨ha, -⟩, rfl⟩ | ⟨a, ⟨ha, -⟩, rfl⟩)
    · exact Or.inl h
    · exact Or.inr (Or.inl ⟨a, ha, rfl⟩)
    · exact Or.inr (Or.inr ⟨a, ha, rfl⟩)
  · have hread : ∀ a ∈ read, (∃ b ∈ taken, key b = key a) ∨ ∃ b, (b ∈ read ∧
        ¬∃ c ∈ taken, key c = key b) ∧ key b = key a := fun a ha => by
      by_cases htaken : ∃ b ∈ taken, key b = key a
      · exact Or.inl htaken
      · exact Or.inr ⟨a, ⟨ha, htaken⟩, rfl⟩
    rintro (h | ⟨a, ha, rfl⟩ | ⟨a, ha, rfl⟩)
    · exact Or.inl h
    · exact (hread a ha).imp_right Or.inl
    · by_cases hin : ∃ b ∈ read, key b = key a
      · obtain ⟨b, hb, hba⟩ := hin
        rw [← hba]
        exact (hread b hb).imp_right Or.inl
      · exact Or.inr (Or.inr ⟨a, ⟨ha, hin⟩, rfl⟩)

/-- Where what is known is a prefix of the log, a read leaves the longer of the two. -/
theorem backfill_of_ordered (hlog : (log.map key).Nodup) (hknown : taken ++ waiting <+: log)
    (hread : read <+: log) : taken ++ backfill key taken read waiting
      = if read.length ≤ (taken ++ waiting).length then taken ++ waiting else read := by
  have hnodup := nodup_keys_of_first hlog hknown
  rw [backfill]
  rcases le_total read.length taken.length with hle | hle
  · -- everything read was taken
    have hpre : read <+: taken :=
      List.prefix_of_prefix_length_le hread ((List.prefix_append _ _).trans hknown) hle
    obtain ⟨rest, rfl⟩ := hpre
    rw [filter_subset (List.subset_append_left _ _), List.nil_append, if_pos (by simp)]
    rw [filter_disjoint]
    refine hnodup.sublist (List.Sublist.map key ?_)
    rw [List.append_assoc]
    exact (List.Sublist.refl _).append (List.sublist_append_right _ _)
  · obtain ⟨rest, rfl⟩ :=
      List.prefix_of_prefix_length_le ((List.prefix_append _ _).trans hknown) hread hle
    rw [filter_append (nodup_keys_of_first hlog hread)]
    split
    · rename_i hlen
      obtain ⟨more, hmore⟩ := List.prefix_of_prefix_length_le hread hknown hlen
      obtain rfl : rest ++ more = waiting := by simpa using hmore
      rw [← List.append_assoc] at hnodup
      rw [List.filter_append, filter_subset (List.subset_append_right _ _), List.nil_append,
        filter_disjoint hnodup]
    · rename_i hlen
      obtain ⟨more, hmore⟩ := List.prefix_of_prefix_length_le hknown hread (by omega)
      obtain rfl : waiting ++ more = rest := by simpa using hmore
      rw [filter_subset, List.append_nil]
      exact fun a ha => List.mem_append_right _ (List.mem_append_left _ ha)

/-- Where the feed began behind `missed`, and nothing was taken, a read that has at least `missed`
leaves the longer of it and of what the feed delivered, with `missed` in front. -/
theorem backfill_of_gap (hlog : (log.map key).Nodup) (hknown : missed ++ waiting <+: log)
    (hread : read <+: log) (hmissed : missed.length ≤ read.length) : backfill key [] read waiting
      = if read.length ≤ (missed ++ waiting).length then missed ++ waiting else read := by
  rw [← backfill_of_ordered hlog hknown hread, backfill, backfill]
  obtain ⟨rest, rfl⟩ :=
    List.prefix_of_prefix_length_le ((List.prefix_append _ _).trans hknown) hread hmissed
  rw [filter_append (nodup_keys_of_first hlog hread)]
  simp

end Backfill
