import Mathlib.Data.List.Nodup
import Rekuest.Lib.Runs

/-!
# Coroutines

What a coroutine that only awaits calls has done so far is a function of how far its calls are.
It awaits one coroutine after the other (`bind`), or several at once (`gather`): those all run on,
and the first to raise is what the one that gathers them raises. Every coroutine built so depends
only on the calls it made, makes more calls as these get on, and raises as soon as one of them
did.
-/

namespace Await

variable {κ ε ρ α β : Type*}

/-- How far a call or a coroutine is; an exception is stamped with the time it was raised at. -/
inductive Status (ε α : Type*)
  | pending
  | returned (value : α)
  | raised (time : ℕ) (error : ε)

/-- The calls made so far, and how far the coroutine is. -/
structure Progress (κ ε α : Type*) where
  calls : List κ
  status : Status ε α

/-- Go on with what was returned. -/
def Progress.andThen (p : Progress κ ε α) (next : α → Progress κ ε β) : Progress κ ε β :=
  match p.status with
  | .pending => ⟨p.calls, .pending⟩
  | .raised t e => ⟨p.calls, .raised t e⟩
  | .returned a => ⟨p.calls ++ (next a).calls, (next a).status⟩

namespace Status

/-- The same but for which exception was raised, and when. -/
inductive Like : Status ε α → Status ε α → Prop
  | pending : Like .pending .pending
  | returned (value : α) : Like (.returned value) (.returned value)
  | raised (time time' : ℕ) (error error' : ε) : Like (.raised time error) (.raised time' error')

/-- Calls that ended stay as they ended. -/
def Extends (call call' : κ → Status ε ρ) : Prop :=
  ∀ k, call k = .pending ∨ call' k = call k

/-- What two that run at once come to: the first exception, if one raised. -/
def both : Status ε α → Status ε β → Status ε (α × β)
  | .raised t e, .raised t' e' => if t ≤ t' then .raised t e else .raised t' e'
  | .raised t e, _ => .raised t e
  | _, .raised t e => .raised t e
  | .returned a, .returned b => .returned (a, b)
  | _, _ => .pending

theorem Like.refl (x : Status ε α) : x.Like x := by
  cases x with
  | pending => exact Like.pending
  | returned a => exact Like.returned a
  | raised t e => exact Like.raised t t e e

theorem Like.both {x x' : Status ε α} {y y' : Status ε β} (hx : x.Like x') (hy : y.Like y') :
    (x.both y).Like (x'.both y') := by
  cases hx <;> cases hy <;> simp only [Status.both]
  case raised.raised =>
    split <;> split <;> exact Like.raised _ _ _ _
  all_goals
    constructor

theorem Like.eq_returned {x : Status ε α} {a : α} (h : (Status.returned a).Like x) :
    x = .returned a := by
  cases h
  rfl

theorem both_eq_pending {x : Status ε α} {y : Status ε β} (h : x.both y = .pending) :
    (x = .pending ∨ y = .pending) ∧ (∀ t e, x ≠ .raised t e) ∧ ∀ t e, y ≠ .raised t e := by
  cases x <;> cases y <;> simp_all [Status.both]
  split at h <;> cases h

theorem both_eq_returned {x : Status ε α} {y : Status ε β} {p : α × β}
    (h : x.both y = .returned p) : x = .returned p.1 ∧ y = .returned p.2 := by
  cases x <;> cases y <;> simp only [Status.both, reduceCtorEq, returned.injEq] at h
  case returned.returned => rw [← h]; exact ⟨rfl, rfl⟩
  split at h <;> cases h

theorem both_eq_raised {x : Status ε α} {y : Status ε β} {t : ℕ} {e : ε}
    (h : x.both y = .raised t e) :
    (x = .raised t e ∧ ∀ t' e', y = .raised t' e' → t ≤ t') ∨
      (y = .raised t e ∧ ∀ t' e', x = .raised t' e' → t ≤ t') := by
  cases x <;> cases y <;> simp only [Status.both, reduceCtorEq] at h
  case raised.raised t₁ e₁ t₂ e₂ =>
    split at h
    · rename_i hle
      obtain ⟨rfl, rfl⟩ := raised.inj h
      left
      refine ⟨rfl, fun t' e' h' => ?_⟩
      obtain ⟨rfl, -⟩ := raised.inj h'
      exact hle
    · rename_i hle
      obtain ⟨rfl, rfl⟩ := raised.inj h
      right
      refine ⟨rfl, fun t' e' h' => ?_⟩
      obtain ⟨rfl, -⟩ := raised.inj h'
      omega
  all_goals
    obtain ⟨rfl, rfl⟩ := raised.inj h
    simp

end Status

/-- The coroutine is as far as the calls it made let it be: it waits for one of them, or all of
them returned, or it raised the first exception of theirs. -/
structure Judged (call : κ → Status ε ρ) (p : Progress κ ε α) : Prop where
  pending : p.status = .pending →
    (∃ k ∈ p.calls, call k = .pending) ∧ ∀ k ∈ p.calls, ∀ t e, call k ≠ .raised t e
  returned : ∀ a, p.status = .returned a → ∀ k ∈ p.calls, ∃ r, call k = .returned r
  raised : ∀ t e, p.status = .raised t e → (∃ k ∈ p.calls, call k = .raised t e) ∧
    ∀ k ∈ p.calls, ∀ t' e', call k = .raised t' e' → t ≤ t'

namespace Judged

variable {c : κ → Status ε ρ}

/-- An exception of one of its calls is one of its own. -/
theorem of_raised {p : Progress κ ε α} (h : Judged c p) {k : κ} (hk : k ∈ p.calls) {t : ℕ} {e : ε}
    (hraised : c k = .raised t e) : ∃ t' e', p.status = .raised t' e' ∧ t' ≤ t := by
  cases hstatus : p.status with
  | pending => exact absurd hraised ((h.pending hstatus).2 k hk t e)
  | returned a =>
    obtain ⟨r, hr⟩ := h.returned a hstatus k hk
    rw [hr] at hraised
    cases hraised
  | raised t' e' => exact ⟨t', e', rfl, (h.raised t' e' hstatus).2 k hk t e hraised⟩

theorem not_raised {p : Progress κ ε α} (h : Judged c p) (hnot : ∀ t e, p.status ≠ .raised t e) :
    ∀ k ∈ p.calls, ∀ t e, c k ≠ .raised t e := by
  intro k hk t e hraised
  obtain ⟨t', e', hstatus, -⟩ := h.of_raised hk hraised
  exact hnot t' e' hstatus

theorem andThen {p : Progress κ ε α} (h : Judged c p) {next : α → Progress κ ε β}
    (hnext : ∀ a, Judged c (next a)) : Judged c (p.andThen next) := by
  unfold Progress.andThen
  cases hstatus : p.status with
  | pending => exact ⟨fun _ => h.pending hstatus, by rintro b ⟨⟩, by rintro t e ⟨⟩⟩
  | raised t e =>
    refine ⟨by rintro ⟨⟩, by rintro b ⟨⟩, fun t' e' h' => ?_⟩
    obtain ⟨rfl, rfl⟩ := Status.raised.inj h'
    exact h.raised t e hstatus
  | returned a =>
    have hreturned := h.returned a hstatus
    have hnot := h.not_raised (by rw [hstatus]; rintro t e ⟨⟩)
    refine ⟨fun hp => ?_, fun b hb k hk => ?_, fun t e ht => ?_⟩
    · obtain ⟨⟨k, hk, hpending⟩, hnone⟩ := (hnext a).pending hp
      refine ⟨⟨k, List.mem_append_right _ hk, hpending⟩, fun j hj => ?_⟩
      exact (List.mem_append.mp hj).elim (hnot j) (hnone j)
    · exact (List.mem_append.mp hk).elim (hreturned k) ((hnext a).returned b hb k)
    · obtain ⟨⟨k, hk, hraised⟩, hfirst⟩ := (hnext a).raised t e ht
      refine ⟨⟨k, List.mem_append_right _ hk, hraised⟩, fun j hj t' e' hj' => ?_⟩
      refine (List.mem_append.mp hj).elim (fun hj => absurd hj' (hnot j hj t' e')) fun hj => ?_
      exact hfirst j hj t' e' hj'

theorem both {p : Progress κ ε α} {q : Progress κ ε β} (hp : Judged c p) (hq : Judged c q) :
    Judged c ⟨p.calls ++ q.calls, p.status.both q.status⟩ := by
  refine ⟨fun h => ?_, fun r h k hk => ?_, fun t e h => ?_⟩
  · obtain ⟨hpending, hnotp, hnotq⟩ := Status.both_eq_pending h
    refine ⟨?_, fun k hk => ?_⟩
    · rcases hpending with hpending | hpending
      · obtain ⟨k, hk, hwaits⟩ := (hp.pending hpending).1
        exact ⟨k, List.mem_append_left _ hk, hwaits⟩
      · obtain ⟨k, hk, hwaits⟩ := (hq.pending hpending).1
        exact ⟨k, List.mem_append_right _ hk, hwaits⟩
    · exact (List.mem_append.mp hk).elim (hp.not_raised hnotp k) (hq.not_raised hnotq k)
  · obtain ⟨hpr, hqr⟩ := Status.both_eq_returned h
    exact (List.mem_append.mp hk).elim (hp.returned _ hpr k) (hq.returned _ hqr k)
  · -- the exception of the other, if any, came later
    have hlater : ∀ {k t' e'}, k ∈ p.calls ++ q.calls → c k = .raised t' e' → t ≤ t' := by
      intro k t' e' hk hraised
      obtain ⟨hpr, hfirst⟩ | ⟨hqr, hfirst⟩ := Status.both_eq_raised h
      · rcases List.mem_append.mp hk with hk | hk
        · exact (hp.raised t e hpr).2 k hk t' e' hraised
        · obtain ⟨t₂, e₂, hstatus, hle⟩ := hq.of_raised hk hraised
          exact Nat.le_trans (hfirst t₂ e₂ hstatus) hle
      · rcases List.mem_append.mp hk with hk | hk
        · obtain ⟨t₁, e₁, hstatus, hle⟩ := hp.of_raised hk hraised
          exact Nat.le_trans (hfirst t₁ e₁ hstatus) hle
        · exact (hq.raised t e hqr).2 k hk t' e' hraised
    refine ⟨?_, fun k hk t' e' => hlater hk⟩
    obtain ⟨hpr, -⟩ | ⟨hqr, -⟩ := Status.both_eq_raised h
    · obtain ⟨k, hk, hraised⟩ := (hp.raised t e hpr).1
      exact ⟨k, List.mem_append_left _ hk, hraised⟩
    · obtain ⟨k, hk, hraised⟩ := (hq.raised t e hqr).1
      exact ⟨k, List.mem_append_right _ hk, hraised⟩

end Judged

/-- A coroutine that awaits calls named by `κ`. -/
structure Coroutine (κ ε ρ α : Type*) where
  run : (κ → Status ε ρ) → Progress κ ε α
  judged : ∀ call, Judged call (run call)
  /-- It depends on the calls it made. -/
  causal : ∀ call call', (∀ k ∈ (run call).calls, (call k).Like (call' k)) →
    (run call').calls = (run call).calls ∧ (run call).status.Like (run call').status
  /-- It makes more calls as these get on. -/
  grows : ∀ call call', Status.Extends call call' → (run call).calls ⊆ (run call').calls

namespace Coroutine

/-- Return. -/
def pure (a : α) : Coroutine κ ε ρ α where
  run _ := ⟨[], .returned a⟩
  judged _ := ⟨by rintro ⟨⟩, by rintro b - k ⟨⟩, by rintro t e ⟨⟩⟩
  causal _ _ _ := ⟨rfl, Status.Like.refl _⟩
  grows _ _ _ := List.Subset.refl _

/-- Await one call. -/
def call (k : κ) : Coroutine κ ε ρ ρ where
  run c := ⟨[k], c k⟩
  judged c := by
    refine ⟨fun h => ⟨⟨k, List.mem_singleton_self k, h⟩, ?_⟩, ?_, ?_⟩
    · rintro j hj t e hraised
      obtain rfl := List.mem_singleton.mp hj
      exact absurd (h.symm.trans hraised) (by simp)
    · rintro a h j hj
      obtain rfl := List.mem_singleton.mp hj
      exact ⟨a, h⟩
    · rintro t e h
      refine ⟨⟨k, List.mem_singleton_self k, h⟩, fun j hj t' e' hraised => ?_⟩
      obtain rfl := List.mem_singleton.mp hj
      obtain ⟨rfl, -⟩ := Status.raised.inj (h.symm.trans hraised)
      exact Nat.le_refl t
  causal c c' h := ⟨rfl, h k (List.mem_singleton_self k)⟩
  grows _ _ _ := List.Subset.refl _

/-- Await one, then go on with what it returned. -/
def bind (x : Coroutine κ ε ρ α) (f : α → Coroutine κ ε ρ β) : Coroutine κ ε ρ β where
  run c := (x.run c).andThen fun a => (f a).run c
  judged c := (x.judged c).andThen fun a => (f a).judged c
  causal c c' h := by
    have hcalls : ∀ k ∈ (x.run c).calls, (c k).Like (c' k) := by
      intro k hk
      refine h k ?_
      unfold Progress.andThen
      split
      · exact hk
      · exact hk
      · exact List.mem_append_left _ hk
    obtain ⟨hsame, hlike⟩ := x.causal c c' hcalls
    unfold Progress.andThen at h ⊢
    generalize (x.run c').status = status' at hlike ⊢
    cases hstatus : (x.run c).status with
    | pending =>
      rw [hstatus] at hlike
      cases hlike
      exact ⟨hsame, Status.Like.pending⟩
    | raised t e =>
      rw [hstatus] at hlike
      cases hlike
      exact ⟨hsame, Status.Like.raised _ _ _ _⟩
    | returned a =>
      rw [hstatus] at hlike h
      obtain rfl := hlike.eq_returned
      obtain ⟨hsame', hlike'⟩ := (f a).causal c c' fun k hk => h k (List.mem_append_right _ hk)
      dsimp only
      exact ⟨by rw [hsame, hsame'], hlike'⟩
  grows c c' h := by
    have hx := x.grows c c' h
    unfold Progress.andThen
    cases hstatus : (x.run c).status with
    | pending | raised t e =>
      refine List.Subset.trans hx ?_
      split
      · exact List.Subset.refl _
      · exact List.Subset.refl _
      · exact List.subset_append_left _ _
    | returned a =>
      -- its calls returned, so they are the same later on
      have hsame : ∀ k ∈ (x.run c).calls, (c k).Like (c' k) := by
        intro k hk
        obtain ⟨r, hr⟩ := (x.judged c).returned a hstatus k hk
        obtain hpending | heq := h k
        · rw [hr] at hpending
          cases hpending
        · rw [heq]
          exact Status.Like.refl _
      obtain ⟨hcalls, hlike⟩ := x.causal c c' hsame
      rw [hstatus] at hlike
      rw [hlike.eq_returned, hcalls]
      exact List.append_subset.mpr ⟨List.subset_append_left _ _,
        List.Subset.trans ((f a).grows c c' h) (List.subset_append_right _ _)⟩

/-- Change what is returned. -/
def map (g : α → β) (x : Coroutine κ ε ρ α) : Coroutine κ ε ρ β := x.bind fun a => pure (g a)

/-- Await two at once. -/
def both (x : Coroutine κ ε ρ α) (y : Coroutine κ ε ρ β) : Coroutine κ ε ρ (α × β) where
  run c := ⟨(x.run c).calls ++ (y.run c).calls, (x.run c).status.both (y.run c).status⟩
  judged c := (x.judged c).both (y.judged c)
  causal c c' h := by
    obtain ⟨hx, hlike⟩ := x.causal c c' fun k hk => h k (List.mem_append_left _ hk)
    obtain ⟨hy, hlike'⟩ := y.causal c c' fun k hk => h k (List.mem_append_right _ hk)
    exact ⟨by rw [hx, hy], hlike.both hlike'⟩
  grows c c' h := by
    refine List.append_subset.mpr ⟨?_, ?_⟩
    · exact List.Subset.trans (x.grows c c' h) (List.subset_append_left _ _)
    · exact List.Subset.trans (y.grows c c' h) (List.subset_append_right _ _)

/-- `asyncio.gather`: await all at once, in the order of the list. -/
def gather : List (Coroutine κ ε ρ α) → Coroutine κ ε ρ (List α)
  | [] => pure []
  | x :: xs => (x.both (gather xs)).map fun p => p.1 :: p.2

/-! ## What the combinators return -/

theorem run_bind (x : Coroutine κ ε ρ α) (f : α → Coroutine κ ε ρ β) (c : κ → Status ε ρ) :
    (x.bind f).run c = (x.run c).andThen fun a => (f a).run c := rfl

theorem calls_map (g : α → β) (x : Coroutine κ ε ρ α) (c : κ → Status ε ρ) :
    ((x.map g).run c).calls = (x.run c).calls := by
  show ((x.run c).andThen fun a => ⟨[], .returned (g a)⟩).calls = _
  unfold Progress.andThen
  split
  · rfl
  · rfl
  · exact List.append_nil _

theorem returned_of_map {g : α → β} {x : Coroutine κ ε ρ α} {c : κ → Status ε ρ} {b : β}
    (h : ((x.map g).run c).status = .returned b) :
    ∃ a, (x.run c).status = .returned a ∧ g a = b := by
  replace h : ((x.run c).andThen fun a => ⟨[], .returned (g a)⟩).status = .returned b := h
  unfold Progress.andThen at h
  split at h
  · cases h
  · cases h
  · rename_i a ha
    exact ⟨a, ha, Status.returned.inj h⟩

/-- What comes second made calls only where the first returned. -/
theorem calls_bind (x : Coroutine κ ε ρ α) (f : α → Coroutine κ ε ρ β) (c : κ → Status ε ρ) :
    ((x.bind f).run c).calls = (x.run c).calls ∧ (∀ a, (x.run c).status ≠ .returned a) ∨
      ∃ a, (x.run c).status = .returned a ∧
        ((x.bind f).run c).calls = (x.run c).calls ++ ((f a).run c).calls := by
  rw [run_bind]
  unfold Progress.andThen
  cases (x.run c).status with
  | pending => exact Or.inl ⟨rfl, by rintro a ⟨⟩⟩
  | raised t e => exact Or.inl ⟨rfl, by rintro a ⟨⟩⟩
  | returned a => exact Or.inr ⟨a, rfl, rfl⟩

theorem returned_of_bind {x : Coroutine κ ε ρ α} {f : α → Coroutine κ ε ρ β} {c : κ → Status ε ρ}
    {b : β} (h : ((x.bind f).run c).status = .returned b) :
    ∃ a, (x.run c).status = .returned a ∧ ((f a).run c).status = .returned b ∧
      ((x.bind f).run c).calls = (x.run c).calls ++ ((f a).run c).calls := by
  rw [run_bind] at h ⊢
  unfold Progress.andThen at h ⊢
  generalize (x.run c).status = status at h ⊢
  cases status with
  | pending => cases h
  | raised t e => cases h
  | returned a => exact ⟨a, rfl, h, rfl⟩

/-! ## Calls that end in any order

Each call ends with a result of its own, at the time its place in the order gives. What a coroutine
returns does not depend on that order; what it raises may.
-/

section

variable [DecidableEq κ] (result : κ → Except ε ρ)

/-- How a call is that ended at a time. -/
def ofResult (time : ℕ) : Except ε ρ → Status ε ρ
  | .ok r => .returned r
  | .error e => .raised time e

/-- How far a call is when the calls of `order` have ended, in that order. -/
def ended (order : List κ) (k : κ) : Status ε ρ :=
  if k ∈ order then ofResult (order.idxOf k) (result k) else .pending

/-- One of the calls made so far ends. -/
def finish (x : Coroutine κ ε ρ α) (order : List κ) (k : κ) : Option (List κ) :=
  if k ∈ (x.run (ended result order)).calls ∧ k ∉ order then some (order ++ [k]) else none

/-- Where every call has ended. -/
def outcome (x : Coroutine κ ε ρ α) : Progress κ ε α := x.run fun k => ofResult 0 (result k)

variable {result}

theorem ofResult_like (t t' : ℕ) (r : Except ε ρ) : (ofResult t r).Like (ofResult t' r) := by
  cases r with
  | ok r => exact Status.Like.returned r
  | error e => exact Status.Like.raised t t' e e

theorem ended_of_mem {order : List κ} {k : κ} (hk : k ∈ order) :
    ended result order k = ofResult (order.idxOf k) (result k) := if_pos hk

theorem ended_eq_pending {order : List κ} {k : κ} :
    ended result order k = .pending ↔ k ∉ order := by
  unfold ended
  split
  · rename_i hk
    cases hr : result k <;> simp [ofResult, hk]
  · rename_i hk
    simp [hk]

theorem ended_eq_raised {order : List κ} {k : κ} {t : ℕ} {e : ε}
    (h : ended result order k = .raised t e) :
    k ∈ order ∧ order.idxOf k = t ∧ result k = .error e := by
  unfold ended at h
  split at h
  · rename_i hk
    cases hr : result k with
    | ok r => rw [hr] at h; cases h
    | error e' =>
      rw [hr] at h
      obtain ⟨ht, rfl⟩ := Status.raised.inj h
      exact ⟨hk, ht, rfl⟩
  · cases h

theorem ended_eq_returned {order : List κ} {k : κ} {r : ρ}
    (h : ended result order k = .returned r) : k ∈ order ∧ result k = .ok r := by
  unfold ended at h
  split at h
  · rename_i hk
    cases hr : result k with
    | ok r' =>
      rw [hr] at h
      obtain rfl := Status.returned.inj h
      exact ⟨hk, rfl⟩
    | error e => rw [hr] at h; cases h
  · cases h

/-- The calls that ended before stay as they are. -/
theorem extends_concat (order : List κ) (k : κ) :
    Status.Extends (ended result order) (ended result (order ++ [k])) := by
  intro j
  by_cases hj : j ∈ order
  · right
    rw [ended_of_mem hj, ended_of_mem (List.mem_append_left _ hj), List.idxOf_append_of_mem hj]
  · exact Or.inl (ended_eq_pending.mpr hj)

variable {x : Coroutine κ ε ρ α} {order acts : List κ}

/-- However the calls end, each ends once, and only one that was made. -/
theorem finish_run (hrun : Runs.exec (finish result x) [] acts = some order) :
    order.Nodup ∧ order ⊆ (x.run (ended result order)).calls := by
  refine Runs.exec_invariant
    (I := fun order => order.Nodup ∧ order ⊆ (x.run (ended result order)).calls)
    ⟨List.nodup_nil, List.nil_subset _⟩ ?_ hrun
  rintro order k order' ⟨hnodup, hmade⟩ hs
  simp only [finish, Option.ite_none_right_eq_some, Option.some.injEq] at hs
  obtain ⟨⟨hcall, hnew⟩, rfl⟩ := hs
  refine ⟨?_, ?_⟩
  · rw [List.nodup_append]
    refine ⟨hnodup, List.nodup_singleton k, ?_⟩
    rintro a ha b hb rfl
    obtain rfl := List.mem_singleton.mp hb
    exact hnew ha
  · have hgrows : (x.run (ended result order)).calls
        ⊆ (x.run (ended result (order ++ [k]))).calls := x.grows _ _ (extends_concat order k)
    exact List.append_subset.mpr ⟨List.Subset.trans hmade hgrows,
      List.cons_subset.mpr ⟨hgrows hcall, List.nil_subset _⟩⟩

/-- A call that ended was made when those before it had ended. -/
theorem made_before_end {order₀ : List κ}
    (hrun : Runs.exec (finish result x) order₀ acts = some order) :
    order = order₀ ++ acts ∧ ∀ before k after, acts = before ++ k :: after →
      k ∈ (x.run (ended result (order₀ ++ before))).calls := by
  induction acts generalizing order₀ with
  | nil =>
    obtain rfl := Option.some.inj hrun
    refine ⟨(List.append_nil order₀).symm, fun before k after h => ?_⟩
    cases before <;> cases h
  | cons a acts ih =>
    obtain ⟨order₁, hs, hrun⟩ := Option.bind_eq_some_iff.mp hrun
    simp only [finish, Option.ite_none_right_eq_some, Option.some.injEq] at hs
    obtain ⟨⟨hcall, -⟩, rfl⟩ := hs
    obtain ⟨horder, hmade⟩ := ih hrun
    refine ⟨by rw [horder, List.append_assoc]; rfl, fun before k after h => ?_⟩
    cases before with
    | nil =>
      obtain ⟨rfl, -⟩ := List.cons.inj h
      rw [List.append_nil]
      exact hcall
    | cons b before =>
      obtain ⟨rfl, hacts⟩ := List.cons.inj h
      have hk := hmade before k after hacts
      rw [List.append_assoc] at hk
      exact hk

/-- Once a call raised, the exception is that of the first that did. -/
theorem raised_of_finish (hrun : Runs.exec (finish result x) [] acts = some order) {k : κ} {e : ε}
    (hk : k ∈ order) (hraised : result k = .error e) :
    ∃ before first after t e₀, order = before ++ first :: after ∧ result first = .error e₀ ∧
      (∀ j ∈ before, ∃ r, result j = .ok r) ∧
      (x.run (ended result order)).status = .raised t e₀ := by
  have hmade := (finish_run hrun).2
  have hended : ∀ j ∈ order, ∀ e', result j = .error e' →
      ended result order j = .raised (order.idxOf j) e' := by
    intro j hj e' hr
    rw [ended_of_mem hj, hr]
    rfl
  obtain ⟨t, e₀, hstatus, -⟩ :=
    (x.judged (ended result order)).of_raised (hmade hk) (hended k hk e hraised)
  obtain ⟨⟨first, -, hfirst⟩, hearliest⟩ := (x.judged (ended result order)).raised t e₀ hstatus
  obtain ⟨hmem, ht, hr⟩ := ended_eq_raised hfirst
  obtain ⟨before, after, horder, hnot⟩ := List.eq_append_cons_of_mem hmem
  refine ⟨before, first, after, t, e₀, horder, hr, fun j hj => ?_, hstatus⟩
  cases hj' : result j with
  | ok r => exact ⟨r, rfl⟩
  | error e' =>
    -- one that failed before the first would be the first
    have hjmem : j ∈ order := horder ▸ List.mem_append_left _ hj
    have hle := hearliest j (hmade hjmem) _ _ (hended j hjmem e' hj')
    have hlt := List.idxOf_lt_length_of_mem hj
    rw [← ht, horder, List.idxOf_append_of_notMem hnot, List.idxOf_cons_self,
      List.idxOf_append_of_mem hj] at hle
    omega

/-- While no call raised, the coroutine waits exactly as long as one of its calls does. -/
theorem pending_iff_of_ok (hok : ∀ k ∈ order, ∃ r, result k = .ok r) :
    (x.run (ended result order)).status = .pending ↔
      ∃ k ∈ (x.run (ended result order)).calls, k ∉ order := by
  have hj := x.judged (ended result order)
  constructor
  · intro h
    obtain ⟨⟨k, hk, hpending⟩, -⟩ := hj.pending h
    exact ⟨k, hk, ended_eq_pending.mp hpending⟩
  · rintro ⟨k, hk, hnot⟩
    cases hstatus : (x.run (ended result order)).status with
    | pending => rfl
    | returned a =>
      obtain ⟨r, hr⟩ := hj.returned a hstatus k hk
      rw [ended_eq_pending.mpr hnot] at hr
      cases hr
    | raised t e =>
      obtain ⟨⟨j, -, hraised⟩, -⟩ := hj.raised t e hstatus
      obtain ⟨hmem, -, herror⟩ := ended_eq_raised hraised
      obtain ⟨r, hr⟩ := hok j hmem
      rw [hr] at herror
      cases herror

/-- When every call that was made has ended, they are the same ones in whichever order, and so is
what they come to. -/
theorem outcome_of_ended (hend : ∀ k ∈ (x.run (ended result order)).calls, k ∈ order) :
    (outcome result x).calls = (x.run (ended result order)).calls ∧
      (x.run (ended result order)).status.Like (outcome result x).status := by
  refine x.causal _ _ fun k hk => ?_
  rw [ended_of_mem (hend k hk)]
  exact ofResult_like _ _ _

end

end Coroutine

end Await
