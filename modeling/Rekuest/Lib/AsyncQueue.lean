import Mathlib.Data.List.Basic

/-!
# Unbounded asynchronous queues

An `AsyncQueue` is a FIFO of items with a count of those not yet reported done, as `asyncio.Queue`
keeps it: `put` raises the count, taking an item leaves it, `taskDone` lowers it and wakes every
`join` when it comes down to zero. Reporting more items done than were put is an error (`none`).
-/

/-- The bookkeeping of `taskDone`: how many items are unfinished, and how often none was left. -/
structure Unfinished where
  count : ℕ
  finished : ℕ

/-- One item less is unfinished. -/
def Unfinished.taskDone (u : Unfinished) : Option Unfinished :=
  match u.count with
  | 0 => none
  | count + 1 => some ⟨count, if count = 0 then u.finished + 1 else u.finished⟩

/-- A FIFO with its unfinished count. -/
structure AsyncQueue (α : Type*) where
  items : List α
  tasks : Unfinished

namespace AsyncQueue

variable {α : Type*}

/-- The queue nothing was put in yet. -/
def empty : AsyncQueue α := ⟨[], ⟨0, 0⟩⟩

/-- Append an item. -/
def put (q : AsyncQueue α) (a : α) : AsyncQueue α :=
  ⟨q.items ++ [a], { q.tasks with count := q.tasks.count + 1 }⟩

/-- The first item, if there is one. -/
def getNowait (q : AsyncQueue α) : Option (α × AsyncQueue α) :=
  match q.items with
  | [] => none
  | a :: items => some (a, { q with items := items })

/-- Report one item done. -/
def taskDone (q : AsyncQueue α) : Option (AsyncQueue α) :=
  q.tasks.taskDone.map fun tasks => { q with tasks := tasks }

@[simp] theorem items_put (q : AsyncQueue α) (a : α) : (q.put a).items = q.items ++ [a] := rfl

@[simp] theorem count_put (q : AsyncQueue α) (a : α) :
    (q.put a).tasks.count = q.tasks.count + 1 := rfl

theorem getNowait_eq_some {q q' : AsyncQueue α} {a : α} :
    q.getNowait = some (a, q') ↔ q.items = a :: q'.items ∧ q'.tasks = q.tasks := by
  obtain ⟨items, tasks⟩ := q
  obtain ⟨items', tasks'⟩ := q'
  cases items with
  | nil => simp [getNowait]
  | cons b items => simp [getNowait, and_assoc, eq_comm]

/-- Putting wakes no `join`. -/
theorem finished_foldl_put (q : AsyncQueue α) (l : List α) :
    (l.foldl put q).tasks.finished = q.tasks.finished := by
  induction l generalizing q with
  | nil => rfl
  | cons a l ih => exact ih (q.put a)

/-- Putting a list appends it and counts it. -/
theorem foldl_put (q : AsyncQueue α) (l : List α) :
    (l.foldl put q).items = q.items ++ l ∧
      (l.foldl put q).tasks.count = q.tasks.count + l.length := by
  induction l generalizing q with
  | nil => simp
  | cons a l ih =>
    obtain ⟨hitems, hcount⟩ := ih (q.put a)
    refine ⟨by simp [hitems], ?_⟩
    rw [List.foldl_cons, hcount, count_put, List.length_cons]
    omega

end AsyncQueue

theorem Unfinished.taskDone_eq_some {u u' : Unfinished} (h : u.taskDone = some u') :
    u.count = u'.count + 1 := by
  rw [taskDone] at h
  split at h
  · cases h
  · rename_i count hcount
    obtain rfl := Option.some.inj h
    exact hcount

/-- Reporting an item done wakes every `join` exactly if it was the last. -/
theorem Unfinished.finished_taskDone {u u' : Unfinished} (h : u.taskDone = some u') :
    u'.finished = if u'.count = 0 then u.finished + 1 else u.finished := by
  rw [taskDone] at h
  split at h
  · cases h
  · obtain rfl := Option.some.inj h
    rfl

theorem Unfinished.exists_taskDone {u : Unfinished} (h : 0 < u.count) :
    ∃ u', u.taskDone = some u' := by
  obtain ⟨count, finished⟩ := u
  cases count with
  | zero => exact absurd h (Nat.lt_irrefl 0)
  | succ count => exact ⟨_, rfl⟩

theorem AsyncQueue.taskDone_eq_some {α : Type*} {q q' : AsyncQueue α} (h : q.taskDone = some q') :
    q'.items = q.items ∧ q.tasks.count = q'.tasks.count + 1 := by
  obtain ⟨tasks, htasks, rfl⟩ := Option.map_eq_some_iff.mp h
  exact ⟨rfl, Unfinished.taskDone_eq_some htasks⟩
