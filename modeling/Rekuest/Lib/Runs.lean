import Mathlib.Data.List.Induction

/-!
# Runs of a partial step function

A step function `step : σ → α → Option σ` answers `none` where the action is not possible.
`exec` takes a list of actions in order. The rules below carry a property along a whole run from
what one step preserves, also where every step is required to meet a condition (`Meets`), and
simulate the runs of one step function by those of another.
-/

namespace Runs

variable {σ τ α : Type*} {step : σ → α → Option σ}

/-- Take the steps `as` from `s`, in order; `none` if one of them is not possible. -/
def exec (step : σ → α → Option σ) (s : σ) (as : List α) : Option σ := as.foldlM step s

@[simp] theorem exec_nil (s : σ) : exec step s [] = some s := rfl

@[simp] theorem exec_cons (s : σ) (a : α) (as : List α) :
    exec step s (a :: as) = (step s a).bind fun t => exec step t as := rfl

theorem exec_append (s : σ) (as bs : List α) :
    exec step s (as ++ bs) = (exec step s as).bind fun t => exec step t bs :=
  List.foldlM_append

theorem exec_concat (s : σ) (as : List α) (a : α) :
    exec step s (as ++ [a]) = (exec step s as).bind fun t => step t a := by
  rw [exec_append]
  congr 1
  funext t
  simp

/-- A run one step longer: a run, then the step. -/
theorem exec_concat_eq_some {s u : σ} {as : List α} {a : α} :
    exec step s (as ++ [a]) = some u ↔ ∃ t, exec step s as = some t ∧ step t a = some u := by
  rw [exec_concat, Option.bind_eq_some_iff]

/-- Induction over a run, from its start: what holds before any step and is preserved by the last
one holds of every run. -/
theorem exec_induction {s₀ : σ} {P : List α → σ → Prop} (hnil : P [] s₀)
    (hstep : ∀ as s a t, exec step s₀ as = some s → P as s → step s a = some t → P (as ++ [a]) t) :
    ∀ {as s}, exec step s₀ as = some s → P as s := by
  intro as
  induction as using List.reverseRecOn with
  | nil =>
    intro s h
    obtain rfl : s₀ = s := by simpa using h
    exact hnil
  | append_singleton as a ih =>
    intro u h
    obtain ⟨t, ht, hu⟩ := exec_concat_eq_some.mp h
    exact hstep as t a u ht (ih ht) hu

/-- An invariant of the step function holds at the end of every run. -/
theorem exec_invariant {s₀ : σ} {I : σ → Prop} (hnil : I s₀)
    (hstep : ∀ s a t, I s → step s a = some t → I t) {as : List α} {s : σ}
    (h : exec step s₀ as = some s) : I s :=
  exec_induction (P := fun _ s => I s) hnil (fun _ s a t _ hi ht => hstep s a t hi ht) h

/-- Every step of the run `as` from `s` is taken where `C` allows it. -/
def Meets (step : σ → α → Option σ) (C : σ → α → Prop) (s : σ) (as : List α) : Prop :=
  ∀ pre a post t, as = pre ++ a :: post → exec step s pre = some t → C t a

@[simp] theorem meets_nil {C : σ → α → Prop} (s : σ) : Meets step C s [] := by
  intro pre a post t has
  simp at has

/-- A run of actions that meet `C` wherever they are taken meets it. -/
theorem meets_of_forall {C : σ → α → Prop} {s : σ} {as : List α} (h : ∀ a ∈ as, ∀ t, C t a) :
    Meets step C s as := by
  rintro pre a post t rfl -
  exact h a (by simp) t

/-- A run meets `C` if its first step does and what follows does from wherever that leads. -/
theorem meets_cons {C : σ → α → Prop} {s : σ} {a : α} {as : List α} (ha : C s a)
    (has : ∀ t, step s a = some t → Meets step C t as) : Meets step C s (a :: as) := by
  intro pre b post t heq ht
  cases pre with
  | nil =>
    obtain ⟨rfl, -⟩ := List.cons.inj heq
    obtain rfl : s = t := by simpa using ht
    exact ha
  | cons c pre =>
    obtain ⟨rfl, rfl⟩ := List.cons.inj heq
    obtain ⟨u, hu, ht⟩ := Option.bind_eq_some_iff.mp ht
    exact has u hu pre b post t rfl ht

theorem meets_concat {C : σ → α → Prop} {s : σ} {as : List α} {a : α}
    (h : Meets step C s (as ++ [a])) :
    Meets step C s as ∧ ∀ t, exec step s as = some t → C t a :=
  ⟨fun pre b post t has ht => h pre b (post ++ [a]) t (by simp [has]) ht,
    fun t ht => h as a [] t rfl ht⟩

/-- Where a run can be taken, so can each start of it. -/
theorem exec_of_prefix {s t : σ} {pre as : List α} (h : exec step s as = some t)
    (hpre : pre <+: as) : ∃ u, exec step s pre = some u := by
  obtain ⟨post, rfl⟩ := hpre
  rw [exec_append] at h
  obtain ⟨u, hu, -⟩ := Option.bind_eq_some_iff.mp h
  exact ⟨u, hu⟩

/-- The step that a run takes at one of its actions, and the run up to it. -/
theorem exec_at {s u : σ} {pre post : List α} {a : α}
    (h : exec step s (pre ++ a :: post) = some u) :
    ∃ t v, exec step s pre = some t ∧ step t a = some v ∧ exec step s (pre ++ [a]) = some v := by
  have hpre : pre ++ [a] <+: pre ++ a :: post := ⟨post, by simp⟩
  obtain ⟨v, hv⟩ := exec_of_prefix h hpre
  obtain ⟨t, ht, hs⟩ := exec_concat_eq_some.mp hv
  exact ⟨t, v, ht, hs, hv⟩

/-- Each start of a run meets what the run does. -/
theorem Meets.of_prefix {C : σ → α → Prop} {s : σ} {pre as : List α} (h : Meets step C s as)
    (hpre : pre <+: as) : Meets step C s pre := by
  obtain ⟨post, rfl⟩ := hpre
  rintro pre' a post' t rfl ht
  exact h pre' a (post' ++ post) t (by simp) ht

/-- An invariant that a step keeps where it meets `C` holds at the end of every run whose steps
all meet `C`. -/
theorem exec_invariant_of_meets {C : σ → α → Prop} {s₀ : σ} {I : σ → Prop} (hnil : I s₀)
    (hstep : ∀ s a t, I s → C s a → step s a = some t → I t) {as : List α} {s : σ}
    (hmeets : Meets step C s₀ as) (h : exec step s₀ as = some s) : I s := by
  refine exec_induction (P := fun as s => Meets step C s₀ as → I s) (fun _ => hnil) ?_ h hmeets
  intro as s a t hs ih ht hm
  obtain ⟨hm, ha⟩ := meets_concat hm
  exact hstep s a t (ih hm) (ha s hs) ht

/-- Where a step keeps `P` exactly if it meets `C`, all of a run has `P` exactly if all its steps
meet `C`. -/
theorem forall_prefix_iff_meets {C : σ → α → Prop} {s₀ s : σ} {I P : σ → Prop} (hI : I s₀)
    (hP : P s₀) (hstep : ∀ s a t, I s → step s a = some t → I t)
    (hiff : ∀ s a t, I s → P s → step s a = some t → (P t ↔ C s a)) {as : List α}
    (h : exec step s₀ as = some s) :
    (∀ pre t, pre <+: as → exec step s₀ pre = some t → P t) ↔ Meets step C s₀ as := by
  constructor
  · rintro hall pre a post t rfl ht
    obtain ⟨t', u, ht', hs, hu⟩ := exec_at h
    obtain rfl : t = t' := Option.some.inj (ht.symm.trans ht')
    have hPt := hall pre t (List.prefix_append _ _) ht
    exact (hiff t a u (exec_invariant hI hstep ht) hPt hs).mp (hall _ u ⟨post, by simp⟩ hu)
  · intro hmeets pre t hpre ht
    exact (exec_invariant_of_meets (I := fun s => I s ∧ P s) ⟨hI, hP⟩
      (fun s a t hs ha ht => ⟨hstep s a t hs.1 ht, (hiff s a t hs.1 hs.2 ht).mpr ha⟩)
      (hmeets.of_prefix hpre) ht).2

/-- Forward simulation: if every step from related states by an action `C` allows is answered by a
step to related states, then so is every run of such actions. -/
theorem exec_simulation {step' : τ → α → Option τ} {C : α → Prop} {R : σ → τ → Prop}
    (hstep : ∀ s t a s', C a → R s t → step s a = some s' → ∃ t', step' t a = some t' ∧ R s' t')
    {s₀ : σ} {t₀ : τ} (h₀ : R s₀ t₀) {as : List α} {s : σ} (hC : ∀ a ∈ as, C a)
    (h : exec step s₀ as = some s) : ∃ t, exec step' t₀ as = some t ∧ R s t := by
  refine exec_induction
    (P := fun as s => (∀ a ∈ as, C a) → ∃ t, exec step' t₀ as = some t ∧ R s t)
    (fun _ => ⟨t₀, rfl, h₀⟩) ?_ h hC
  intro as s a s' _ ih hs' hC
  obtain ⟨t, ht, hR⟩ := ih fun b hb => hC b (List.mem_append_left _ hb)
  obtain ⟨t', ht', hR'⟩ := hstep s t a s' (hC a (by simp)) hR hs'
  exact ⟨t', exec_concat_eq_some.mpr ⟨t, ht, ht'⟩, hR'⟩

/-! ## What some actions can lead to -/

/-- Some actions, each of which `A` allows, lead from `s` to `t`. -/
def Reaches (step : σ → α → Option σ) (A : α → Prop) (s t : σ) : Prop :=
  ∃ as, (∀ a ∈ as, A a) ∧ exec step s as = some t

variable {A : α → Prop} {s t u : σ}

theorem Reaches.refl (s : σ) : Reaches step A s s := ⟨[], by simp, rfl⟩

theorem Reaches.trans (h : Reaches step A s t) (h' : Reaches step A t u) :
    Reaches step A s u := by
  obtain ⟨as, has, hs⟩ := h
  obtain ⟨bs, hbs, ht⟩ := h'
  refine ⟨as ++ bs, fun a ha => (List.mem_append.mp ha).elim (has a) (hbs a), ?_⟩
  rw [exec_append, hs]
  exact ht

theorem Reaches.single (a : α) (ha : A a) (h : step s a = some t) : Reaches step A s t := by
  refine ⟨[a], fun b hb => List.mem_singleton.mp hb ▸ ha, ?_⟩
  rw [exec_cons, h]
  rfl

/-- What each of the actions keeps holds wherever they lead. -/
theorem Reaches.invariant {I : σ → Prop} (h : Reaches step A s t) (hs : I s)
    (hstep : ∀ s a t, I s → A a → step s a = some t → I t) : I t := by
  obtain ⟨as, has, ht⟩ := h
  exact exec_invariant_of_meets (C := fun _ => A) hs hstep (meets_of_forall fun a ha _ => has a ha)
    ht

end Runs
