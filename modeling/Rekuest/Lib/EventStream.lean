import Mathlib.Data.List.Basic

/-!
# Deduplicated streams with an end

What a consumer sees of a list of events that may repeat: the first event of each key, up to and
including the first that ends the stream, and of these what is surfaced. The lemmas say how one
more event changes it, so that a consumer taking events one by one can be compared with it.
-/

namespace EventStream

variable {α β κ : Type*} [DecidableEq κ]

/-- The elements whose key is not in `seen` and did not occur before. -/
def firstOfEachFrom (key : α → κ) : List κ → List α → List α
  | _, [] => []
  | seen, a :: l =>
    if key a ∈ seen then firstOfEachFrom key seen l
    else a :: firstOfEachFrom key (key a :: seen) l

/-- The first element of each key. -/
def firstOfEach (key : α → κ) (l : List α) : List α := firstOfEachFrom key [] l

/-- The elements up to and including the first that satisfies `p`. -/
def upTo (p : α → Bool) : List α → List α
  | [] => []
  | a :: l => if p a then [a] else a :: upTo p l

/-- Whether the stream of `l` has ended. -/
def ended (key : α → κ) (p : α → Bool) (l : List α) : Bool := (firstOfEach key l).any p

/-- What a consumer of `l` sees. -/
def stream (key : α → κ) (p : α → Bool) (f : α → Option β) (l : List α) : List β :=
  (upTo p (firstOfEach key l)).filterMap f

variable {key : α → κ} {p : α → Bool} {f : α → Option β}

theorem firstOfEachFrom_append (seen : List κ) (l m : List α) :
    firstOfEachFrom key seen (l ++ m)
      = firstOfEachFrom key seen l ++ firstOfEachFrom key ((l.map key).reverse ++ seen) m := by
  induction l generalizing seen with
  | nil => rfl
  | cons a l ih =>
    have hcongr : ∀ (s s' : List κ), (∀ k, k ∈ s ↔ k ∈ s') → ∀ m : List α,
        firstOfEachFrom key s m = firstOfEachFrom key s' m := by
      intro s s' hs m
      induction m generalizing s s' with
      | nil => rfl
      | cons b m ih =>
        simp only [firstOfEachFrom, hs]
        rw [ih s s' hs, ih (key b :: s) (key b :: s') (by simp [hs])]
    simp only [List.cons_append, firstOfEachFrom]
    split
    · rename_i ha
      rw [ih]
      congr 1
      refine hcongr _ _ (fun k => ?_) m
      by_cases hk : k = key a <;> simp [hk, ha]
    · rw [ih, List.cons_append]
      congr 2
      exact hcongr _ _ (fun k => by simp) m

/-- One more event counts if its key is new. -/
theorem firstOfEach_concat (l : List α) (a : α) :
    firstOfEach key (l ++ [a])
      = firstOfEach key l ++ if key a ∈ l.map key then [] else [a] := by
  rw [firstOfEach, firstOfEachFrom_append]
  simp [firstOfEach, firstOfEachFrom]

theorem upTo_append_of_any {l : List α} (h : l.any p = true) (m : List α) :
    upTo p (l ++ m) = upTo p l := by
  induction l with
  | nil => simp at h
  | cons a l ih =>
    simp only [List.cons_append, upTo]
    split
    · rfl
    · rename_i ha
      rw [ih (by simpa [ha] using h)]

theorem upTo_of_not_any {l : List α} (h : l.any p = false) (a : α) :
    upTo p (l ++ [a]) = l ++ [a] := by
  induction l with
  | nil => simp [upTo]
  | cons b l ih =>
    rw [List.any_cons, Bool.or_eq_false_iff] at h
    simp [upTo, h.1, ih h.2]

theorem upTo_eq_self {l : List α} (h : l.any p = false) : upTo p l = l := by
  induction l with
  | nil => rfl
  | cons b l ih =>
    rw [List.any_cons, Bool.or_eq_false_iff] at h
    simp [upTo, h.1, ih h.2]

/-- Events after the end change nothing. -/
theorem stream_append_of_ended {l : List α} (h : ended key p l = true) (m : List α) :
    stream key p f (l ++ m) = stream key p f l := by
  rw [stream, stream, firstOfEach, firstOfEachFrom_append]
  exact congrArg _ (upTo_append_of_any h _)

/-- A repeated event changes nothing. -/
theorem stream_concat_of_seen {l : List α} {a : α} (h : key a ∈ l.map key) :
    stream key p f (l ++ [a]) = stream key p f l := by
  rw [stream, firstOfEach_concat, if_pos h, List.append_nil, stream]

theorem ended_concat_of_seen {l : List α} {a : α} (h : key a ∈ l.map key) :
    ended key p (l ++ [a]) = ended key p l := by
  rw [ended, firstOfEach_concat, if_pos h, List.append_nil, ended]

/-- A new event is surfaced, if it is one to surface. -/
theorem stream_concat_of_new {l : List α} {a : α} (hend : ended key p l = false)
    (h : key a ∉ l.map key) :
    stream key p f (l ++ [a]) = stream key p f l ++ (f a).toList := by
  rw [stream, firstOfEach_concat, if_neg h, upTo_of_not_any hend, List.filterMap_append, stream,
    upTo_eq_self hend]
  cases hf : f a <;> simp [hf]

theorem ended_concat_of_new {l : List α} {a : α} (h : key a ∉ l.map key) :
    ended key p (l ++ [a]) = (ended key p l || p a) := by
  rw [ended, firstOfEach_concat, if_neg h, List.any_append, ended]
  simp

end EventStream
