import Mathlib.Algebra.Order.Group.Int
import Mathlib.Data.List.Infix
import Mathlib.Logic.Function.Basic
import Mathlib.Logic.Relation

/-!
# Cumulative delivery

Numbered items of several streams are put, again and again, on any number of first-in first-out
channels, each of which may be cut. A receiver skips what it took before, takes what is above
everything it took, and acks no more than it took; what it does with an item out of turn is left
open. If an item goes on a channel only where everything numbered below it is acked or on that
channel already, then however the channels are read, what the receiver took of a stream is the
start of what was emitted in it.
-/

namespace Delivery

variable {σ ι π : Type*}

/-- The highest number in a list of numbered items, 0 if it has none. -/
def watermark (l : List (ℤ × π)) : ℤ := l.foldr (fun f m => max f.1 m) 0

/-- An item is skipped, or taken. -/
def accept (l : List (ℤ × π)) (f : ℤ × π) : List (ℤ × π) :=
  if f.1 ≤ watermark l then l else l ++ [f]

/-- The streams, the channels and the receiver. -/
structure Net (σ ι π : Type*) where
  emitted : σ → List (ℤ × π)
  /-- What was put on each channel, in order. -/
  channel : ι → List (σ × ℤ × π)
  /-- How much of each channel the receiver read. -/
  taken : ι → ℕ
  /-- What the receiver took of each stream. -/
  log : σ → List (ℤ × π)
  /-- Every ack the receiver sent. -/
  acks : List (σ × ℤ)

/-- Nothing was emitted yet. -/
def Net.start : Net σ ι π := ⟨fun _ => [], fun _ => [], fun _ => 0, fun _ => [], []⟩

/-! ## Watermarks

How far a stream was taken is the largest number taken of it. What the receiver takes next is above
that, so the numbers alone tell whether something is missing.
-/

theorem watermark_nonneg (l : List (ℤ × π)) : 0 ≤ watermark l := by
  induction l with
  | nil => exact le_refl _
  | cons f l ih => exact le_max_of_le_right ih

theorem le_watermark {l : List (ℤ × π)} {f : ℤ × π} (hf : f ∈ l) : f.1 ≤ watermark l := by
  induction l with
  | nil => cases hf
  | cons g l ih =>
    rcases List.mem_cons.mp hf with rfl | hf
    · exact le_max_left _ _
    · exact le_max_of_le_right (ih hf)

theorem watermark_append (l : List (ℤ × π)) (f : ℤ × π) :
    watermark (l ++ [f]) = max (watermark l) f.1 := by
  induction l with
  | nil =>
    show max f.1 0 = max 0 f.1
    exact max_comm _ _
  | cons g l ih =>
    show max g.1 (watermark (l ++ [f])) = max (max g.1 (watermark l)) f.1
    rw [ih, max_assoc]

/-- The watermark is below what every item is below. -/
theorem watermark_lt {l : List (ℤ × π)} {n : ℤ} (hn : 0 < n) (h : ∀ f ∈ l, f.1 < n) :
    watermark l < n := by
  induction l with
  | nil => exact hn
  | cons f l ih =>
    exact max_lt (h f List.mem_cons_self) (ih fun g hg => h g (List.mem_cons_of_mem f hg))

/-- What the items carry does not matter. -/
theorem watermark_map {ρ : Type*} (g : π → ρ) (l : List (ℤ × π)) :
    watermark (l.map fun f => (f.1, g f.2)) = watermark l := by
  induction l with
  | nil => rfl
  | cons f l ih =>
    show max f.1 (watermark (l.map fun f => (f.1, g f.2))) = max f.1 (watermark l)
    rw [ih]

theorem watermark_le {l e : List (ℤ × π)} (h : l ⊆ e) : watermark l ≤ watermark e := by
  induction l with
  | nil => exact watermark_nonneg e
  | cons f l ih =>
    exact max_le (le_watermark (h List.mem_cons_self))
      (ih fun g hg => h (List.mem_cons_of_mem f hg))

/-- Taking an item raises the watermark to its number, and skipping one means it is there. -/
theorem watermark_accept (l : List (ℤ × π)) (f : ℤ × π) :
    watermark (accept l f) = max (watermark l) f.1 := by
  unfold accept
  split
  · rename_i hle
    exact (max_eq_left hle).symm
  · exact watermark_append l f

/-- An item below which nothing is missing is skipped, or the next of its stream. -/
theorem accept_isPrefix {l e : List (ℤ × π)} (hinc : e.Pairwise fun f g => f.1 < g.1)
    (hpos : ∀ f ∈ e, 0 < f.1) (hl : l <+: e) {f : ℤ × π} (hf : f ∈ e)
    (hbelow : ∀ g ∈ e, g.1 < f.1 → g.1 ≤ watermark l) : accept l f <+: e := by
  unfold accept
  split
  · exact hl
  · rename_i hlt
    obtain ⟨rest, rfl⟩ := hl
    have hf' : f ∈ rest := by
      refine (List.mem_append.mp hf).resolve_left fun hold => ?_
      exact hlt (le_watermark hold)
    cases rest with
    | nil => cases hf'
    | cons g rest =>
      obtain ⟨-, hrest, hacross⟩ := List.pairwise_append.mp hinc
      -- the first item not taken yet is the one that arrives
      have hgf : g = f := by
        refine ((List.mem_cons.mp hf').resolve_right fun hlater => ?_).symm
        have hg : g ∈ l ++ g :: rest := List.mem_append_right _ List.mem_cons_self
        have hgt : watermark l < g.1 :=
          watermark_lt (hpos g hg) fun h hh => hacross h hh g List.mem_cons_self
        have := hbelow g hg ((List.pairwise_cons.mp hrest).1 f hlater)
        omega
      subst hgf
      exact ⟨rest, by rw [List.append_assoc]; rfl⟩

/-- What is not in a start of a stream is above its watermark. -/
theorem watermark_lt_of_not_mem {l e : List (ℤ × π)} (hinc : e.Pairwise fun f g => f.1 < g.1)
    (hpos : ∀ f ∈ e, 0 < f.1) (hl : l <+: e) {f : ℤ × π} (hf : f ∈ e) (hnot : f ∉ l) :
    watermark l < f.1 := by
  obtain ⟨rest, rfl⟩ := hl
  have hf' : f ∈ rest := (List.mem_append.mp hf).resolve_left hnot
  exact watermark_lt (hpos f hf) fun g hg => (List.pairwise_append.mp hinc).2.2 g hg f hf'

/-! ## The protocol

Emitted items go on channels, each only where nothing below it is missing. A receiver reads each
channel from its front.
-/

/-- Everything numbered below `n` in stream `s` is acked, or on channel `i`. -/
def Net.Covered (N : Net σ ι π) (i : ι) (s : σ) (n : ℤ) : Prop :=
  ∀ f ∈ N.emitted s, f.1 < n →
    (∃ a ∈ N.acks, a.1 = s ∧ f.1 ≤ a.2) ∨ ∃ g ∈ N.channel i, g.1 = s ∧ g.2.1 = f.1

/-- What the receiver does with an item of stream `s`: its log and the acks it sent are `log'` and
`acks'` after it. -/
structure Receives (log : σ → List (ℤ × π)) (acks : List (σ × ℤ)) (s : σ) (f : ℤ × π)
    (log' : σ → List (ℤ × π)) (acks' : List (σ × ℤ)) : Prop where
  skips : (∃ g ∈ log s, g.1 = f.1) → log' s = log s
  takes : 0 < f.1 → (∀ g ∈ log s, g.1 < f.1) → log' s = log s ++ [f]
  others : ∀ t, t ≠ s → log' t = log t
  keeps : acks ⊆ acks'
  bounded : ∀ a ∈ acks', a ∈ acks ∨ a.2 ≤ watermark (log' a.1)
  again : ∃ a ∈ acks', a.1 = s ∧ f.1 ≤ a.2

/-- What can happen. -/
inductive Step [DecidableEq σ] [DecidableEq ι] : Net σ ι π → Net σ ι π → Prop
  | emit {N} (s : σ) (f : ℤ × π) (hnew : watermark (N.emitted s) < f.1) :
    Step N { N with emitted := Function.update N.emitted s (N.emitted s ++ [f]) }
  | send {N} (i : ι) (s : σ) (f : ℤ × π) (hf : f ∈ N.emitted s) (hcovered : N.Covered i s f.1) :
    Step N { N with channel := Function.update N.channel i (N.channel i ++ [(s, f)]) }
  | take {N} (i : ι) (s : σ) (f : ℤ × π) (hnext : (N.channel i)[N.taken i]? = some (s, f))
    (log' : σ → List (ℤ × π)) (acks' : List (σ × ℤ))
    (hreceives : Receives N.log N.acks s f log' acks') :
    Step N { N with
      taken := Function.update N.taken i (N.taken i + 1)
      log := log'
      acks := acks' }

/-- What every run keeps. -/
structure Sound (N : Net σ ι π) : Prop where
  increasing : ∀ s, (N.emitted s).Pairwise fun f g => f.1 < g.1
  positive : ∀ s, ∀ f ∈ N.emitted s, 0 < f.1
  taken_le : ∀ i, N.taken i ≤ (N.channel i).length
  log : ∀ s, N.log s <+: N.emitted s
  acked : ∀ a ∈ N.acks, a.2 ≤ watermark (N.log a.1)
  sent : ∀ i, ∀ f ∈ N.channel i, f.2 ∈ N.emitted f.1
  covered : ∀ i k f, (N.channel i)[k]? = some f → ∀ g ∈ N.emitted f.1, g.1 < f.2.1 →
    g.1 ≤ watermark (N.log f.1) ∨ ∃ h ∈ (N.channel i).take k, h.1 = f.1 ∧ h.2.1 = g.1
  read : ∀ i, ∀ f ∈ (N.channel i).take (N.taken i),
    f.2.1 ≤ watermark (N.log f.1) ∧ ∃ a ∈ N.acks, a.1 = f.1 ∧ f.2.1 ≤ a.2

theorem sound_start : Sound (Net.start : Net σ ι π) where
  increasing _ := List.Pairwise.nil
  positive _ := by rintro f ⟨⟩
  taken_le _ := le_rfl
  log _ := List.nil_prefix
  acked := by rintro a ⟨⟩
  sent _ := by rintro f ⟨⟩
  covered _ _ _ h := by simp [Net.start] at h
  read _ := by rintro f ⟨⟩

/-- Emitting an item above all others disturbs nothing. -/
theorem Sound.emit [DecidableEq σ] {N : Net σ ι π} (h : Sound N) (s : σ) (f : ℤ × π)
    (hnew : watermark (N.emitted s) < f.1) :
    Sound { N with emitted := Function.update N.emitted s (N.emitted s ++ [f]) } := by
  have hmem : ∀ t g, g ∈ Function.update N.emitted s (N.emitted s ++ [f]) t →
      g ∈ N.emitted t ∨ t = s ∧ g = f := by
    intro t g hg
    by_cases ht : t = s
    · subst ht
      rw [Function.update_self, List.mem_append, List.mem_singleton] at hg
      exact hg.imp_right fun hgf => ⟨rfl, hgf⟩
    · rw [Function.update_of_ne ht] at hg
      exact Or.inl hg
  -- every stream keeps what it had, so logs stay starts of streams
  have hold : ∀ t, N.emitted t <+: Function.update N.emitted s (N.emitted s ++ [f]) t := by
    intro t
    by_cases ht : t = s
    · subst ht
      rw [Function.update_self]
      exact List.prefix_append _ _
    · rw [Function.update_of_ne ht]
  refine ⟨fun t => ?_, fun t g hg => ?_, h.taken_le, fun t => (h.log t).trans (hold t), h.acked,
    fun i g hg => (hold _).subset (h.sent i g hg), fun i k g hk g' hg' hlt => ?_, h.read⟩
  · by_cases ht : t = s
    · subst ht
      dsimp only
      rw [Function.update_self, List.pairwise_append]
      refine ⟨h.increasing t, List.pairwise_singleton _ _, fun g hg g' hg' => ?_⟩
      obtain rfl := List.mem_singleton.mp hg'
      exact (le_watermark hg).trans_lt hnew
    · dsimp only
      rw [Function.update_of_ne ht]
      exact h.increasing t
  · obtain hg | ⟨-, rfl⟩ := hmem t g hg
    · exact h.positive t g hg
    · exact (watermark_nonneg _).trans_lt hnew
  · obtain hg' | ⟨ht, rfl⟩ := hmem _ g' hg'
    · exact h.covered i k g hk g' hg' hlt
    · -- what is on a channel was emitted before, so it is not above the new item
      have hg := le_watermark (h.sent i g (List.mem_of_getElem? hk))
      rw [ht] at hg
      omega

/-- Putting a covered item on a channel. -/
theorem Sound.send [DecidableEq ι] {N : Net σ ι π} (h : Sound N) (i : ι) (s : σ) (f : ℤ × π)
    (hf : f ∈ N.emitted s) (hcovered : N.Covered i s f.1) :
    Sound { N with channel := Function.update N.channel i (N.channel i ++ [(s, f)]) } := by
  refine ⟨h.increasing, h.positive, fun j => ?_, h.log, h.acked, fun j g hg => ?_,
    fun j k g hk g' hg' hlt => ?_, fun j g hg => ?_⟩
  all_goals
    dsimp only at *
    by_cases hj : j = i
    -- the other channels are what they were
    case neg =>
      simp only [Function.update_of_ne hj] at *
      first
        | exact h.taken_le j
        | exact h.sent j g hg
        | exact h.covered j k g hk g' hg' hlt
        | exact h.read j g hg
    subst hj
    simp only [Function.update_self] at *
  · rw [List.length_append]
    exact Nat.le_add_right_of_le (h.taken_le j)
  · rcases List.mem_append.mp hg with hg | hg
    · exact h.sent j g hg
    · obtain rfl := List.mem_singleton.mp hg
      exact hf
  · rcases Nat.lt_or_ge k (N.channel j).length with hlen | hlen
    · rw [List.getElem?_append_left hlen] at hk
      rw [List.take_append_of_le_length hlen.le]
      exact h.covered j k g hk g' hg' hlt
    · -- the item put there now
      obtain rfl : k = (N.channel j).length := by
        have := (List.getElem?_eq_some_iff.mp hk).1
        rw [List.length_append, List.length_singleton] at this
        omega
      rw [List.getElem?_concat_length] at hk
      obtain rfl := Option.some.inj hk
      rw [List.take_left]
      refine (hcovered g' hg' hlt).imp_left ?_
      rintro ⟨a, ha, has, hle⟩
      have := h.acked a ha
      rw [has] at this
      exact hle.trans this
  · rw [List.take_append_of_le_length (h.taken_le j)] at hg
    exact h.read j g hg

/-- Of a stream whose start was taken, no item is out of turn. -/
theorem Receives.log_eq [DecidableEq σ] {N : Net σ ι π} (h : Sound N) {s : σ} {f : ℤ × π}
    (hf : f ∈ N.emitted s) {log' : σ → List (ℤ × π)} {acks' : List (σ × ℤ)}
    (hr : Receives N.log N.acks s f log' acks') :
    log' = Function.update N.log s (accept (N.log s) f) := by
  funext t
  by_cases ht : t = s
  · subst ht
    rw [Function.update_self]
    unfold accept
    split
    · rename_i hle
      apply hr.skips
      -- below the watermark and not taken: then something after it was taken before it
      by_contra hnone
      have hnot : f ∉ N.log t := fun hold => hnone ⟨f, hold, rfl⟩
      exact not_lt.mpr hle
        (watermark_lt_of_not_mem (h.increasing t) (h.positive t) (h.log t) hf hnot)
    · rename_i hlt
      apply hr.takes (h.positive t f hf)
      intro g hg
      exact (le_watermark hg).trans_lt (not_le.mp hlt)
  · rw [Function.update_of_ne ht]
    exact hr.others t ht

/-- Reading the next item of a channel. -/
theorem Sound.take [DecidableEq σ] [DecidableEq ι] {N : Net σ ι π} (h : Sound N) (i : ι) (s : σ)
    (f : ℤ × π) (hnext : (N.channel i)[N.taken i]? = some (s, f)) {log' : σ → List (ℤ × π)}
    {acks' : List (σ × ℤ)} (hr : Receives N.log N.acks s f log' acks') :
    Sound { N with
      taken := Function.update N.taken i (N.taken i + 1)
      log := log'
      acks := acks' } := by
  have hf : f ∈ N.emitted s := h.sent i (s, f) (List.mem_of_getElem? hnext)
  obtain rfl := hr.log_eq h hf
  have hmark : ∀ t, watermark (N.log t)
      ≤ watermark (Function.update N.log s (accept (N.log s) f) t) := by
    intro t
    by_cases ht : t = s
    · subst ht
      rw [Function.update_self, watermark_accept]
      exact le_max_left _ _
    · rw [Function.update_of_ne ht]
  -- skipped or taken, the watermark is at least at the item
  have htook : f.1 ≤ watermark (Function.update N.log s (accept (N.log s) f) s) := by
    rw [Function.update_self, watermark_accept]
    exact le_max_right _ _
  refine ⟨h.increasing, h.positive, fun j => ?_, fun t => ?_, fun a ha => ?_, h.sent,
    fun j k g hk g' hg' hlt => ?_, fun j g hg => ?_⟩
  · dsimp only
    by_cases hj : j = i
    · subst hj
      rw [Function.update_self]
      exact (List.getElem?_eq_some_iff.mp hnext).1
    · rw [Function.update_of_ne hj]
      exact h.taken_le j
  · dsimp only
    by_cases ht : t = s
    · subst ht
      rw [Function.update_self]
      -- what is below the item is acked, or was read from this channel before it
      refine accept_isPrefix (h.increasing t) (h.positive t) (h.log t) hf fun g hg hlt => ?_
      refine (h.covered i _ (t, f) hnext g hg hlt).elim id ?_
      rintro ⟨g', hg', hs, hn⟩
      have := (h.read i g' hg').1
      rw [hs, hn] at this
      exact this
    · rw [Function.update_of_ne ht]
      exact h.log t
  · exact (hr.bounded a ha).elim (fun hold => (h.acked a hold).trans (hmark a.1)) id
  · exact (h.covered j k g hk g' hg' hlt).imp_left fun hle => hle.trans (hmark g.1)
  · have hread : ∀ g ∈ (N.channel j).take (N.taken j),
        g.2.1 ≤ watermark (Function.update N.log s (accept (N.log s) f) g.1)
          ∧ ∃ a ∈ acks', a.1 = g.1 ∧ g.2.1 ≤ a.2 := by
      intro g hg
      obtain ⟨hle, a, ha, hrest⟩ := h.read j g hg
      exact ⟨hle.trans (hmark g.1), a, hr.keeps ha, hrest⟩
    dsimp only at hg ⊢
    by_cases hj : j = i
    · subst hj
      rw [Function.update_self, List.take_add_one, hnext, Option.toList_some] at hg
      rcases List.mem_append.mp hg with hg | hg
      · exact hread g hg
      · obtain rfl := List.mem_singleton.mp hg
        exact ⟨htook, hr.again⟩
    · rw [Function.update_of_ne hj] at hg
      exact hread g hg

theorem Sound.step [DecidableEq σ] [DecidableEq ι] {N N' : Net σ ι π} (h : Sound N)
    (hs : Step N N') : Sound N' := by
  cases hs with
  | emit s f hnew => exact h.emit s f hnew
  | send i s f hf hcovered => exact h.send i s f hf hcovered
  | take i s f hnext log' acks' hreceives => exact h.take i s f hnext hreceives

/-- However the channels are read. -/
theorem Sound.steps [DecidableEq σ] [DecidableEq ι] {N N' : Net σ ι π} (h : Sound N)
    (hs : Relation.ReflTransGen Step N N') : Sound N' := by
  induction hs with
  | refl => exact h
  | tail _ hs ih => exact ih.step hs

/-- What the receiver did not take, no ack covers. -/
theorem Sound.ack_lt {N : Net σ ι π} (h : Sound N) {s : σ} {f : ℤ × π} (hf : f ∈ N.emitted s)
    (hnot : f ∉ N.log s) {a : σ × ℤ} (ha : a ∈ N.acks) (has : a.1 = s) : a.2 < f.1 := by
  have hle := h.acked a ha
  rw [has] at hle
  exact hle.trans_lt
    (watermark_lt_of_not_mem (h.increasing s) (h.positive s) (h.log s) hf hnot)

/-- Once a channel was read to its end that carries all that is not acked, nothing is missing. -/
theorem Sound.complete {N : Net σ ι π} (h : Sound N) {i : ι}
    (hread : N.taken i = (N.channel i).length) {s : σ}
    (hcarries : ∀ f ∈ N.emitted s, (∃ a ∈ N.acks, a.1 = s ∧ f.1 ≤ a.2)
      ∨ ∃ g ∈ N.channel i, g.1 = s ∧ g.2.1 = f.1) :
    N.log s = N.emitted s ∧ ∀ f ∈ N.emitted s, ∃ a ∈ N.acks, a.1 = s ∧ f.1 ≤ a.2 := by
  have hacked : ∀ f ∈ N.emitted s, ∃ a ∈ N.acks, a.1 = s ∧ f.1 ≤ a.2 := by
    intro f hf
    refine (hcarries f hf).elim id ?_
    rintro ⟨g, hg, hs, hn⟩
    rw [← List.take_length (l := N.channel i), ← hread] at hg
    obtain ⟨-, a, ha, has, hle⟩ := h.read i g hg
    exact ⟨a, ha, has.trans hs, hn ▸ hle⟩
  refine ⟨?_, hacked⟩
  obtain ⟨rest, hrest⟩ := h.log s
  cases rest with
  | nil => rw [← hrest, List.append_nil]
  | cons f rest =>
    have hf : f ∈ N.emitted s := hrest ▸ List.mem_append_right _ List.mem_cons_self
    have hnot : f ∉ N.log s := by
      intro hin
      have hinc := h.increasing s
      rw [← hrest, List.pairwise_append] at hinc
      exact lt_irrefl _ (hinc.2.2 f hin f List.mem_cons_self)
    obtain ⟨a, ha, has, hle⟩ := hacked f hf
    exact absurd (h.ack_lt hf hnot ha has) (not_lt.mpr hle)

end Delivery
