import Rekuest.Agents.Transport.Sending

/-!
# Flushing the line

`aflush` waits for the `join` of the send queue, which comes back once the unfinished count has
been zero at some moment since. The sender brings it to zero only when the line is empty;
`discard_journaled` reports every queued frame done before it puts any back.
-/

namespace Rekuest

open Runs

namespace Transport

variable {φ : Type}

/-- A `join` that began in `t` has completed by `t'`: nothing was unfinished, or nothing has been
at some moment since. -/
def Joined (t t' : Transport φ) : Prop :=
  t.sendQueue.tasks.count = 0 ∨ t.sendQueue.tasks.finished < t'.sendQueue.tasks.finished

/-- Every frame in the line of `t` is on the wire of `t'`, or was a journaled one and was
dropped. -/
def Flushed (numbered : φ → Bool) (t t' : Transport φ) : Prop :=
  ∀ q ∈ t.line, (∃ c, (c, q) ∈ t'.wire) ∨ (q ∈ t'.discarded ∧ numbered q.frame = true)

/-- Nothing but the queue would be left after a discard: no frame in flight, none held but a
journaled one. -/
def OnlyQueued (numbered : φ → Bool) (t : Transport φ) : Prop :=
  t.inFlight = none ∧ ∀ f ∈ t.held, numbered f.frame = true

/-- The step is no discard that finds only queued frames and keeps one of those that were in the
line of `t`. -/
def KeepsFlush (numbered : φ → Bool) (t u : Transport φ) (act : TransportAct φ) : Prop :=
  act = .discardJournaled → u.OnlyQueued numbered →
    ∀ q ∈ u.sendQueue.items, numbered q.frame = false → t.enqueued.length ≤ q.index

variable {numbered : φ → Bool}

/-! ## When the count is zero

`discard_journaled` takes the queue apart before it puts the kept frames back, and reports each one
done as it takes it. The count is zero in between if nothing else is unfinished.
-/

/-- The drain reports each frame done, and so brings the count to zero at the last, if at all. -/
theorem tasks_drainJournaled {items : List (Queued φ)} {tasks tasks' : Unfinished}
    {kept dropped : List (Queued φ)}
    (h : drainJournaled numbered items tasks = some (kept, dropped, tasks')) :
    tasks.count = tasks'.count + items.length ∧ tasks'.finished
      = if items ≠ [] ∧ tasks'.count = 0 then tasks.finished + 1 else tasks.finished := by
  induction items generalizing tasks kept dropped with
  | nil =>
    obtain ⟨-, -, rfl⟩ : kept = [] ∧ dropped = [] ∧ tasks' = tasks := by
      simpa [drainJournaled, eq_comm] using h
    simp
  | cons f items ih =>
    simp only [drainJournaled, Option.bind_eq_bind, Option.bind_eq_some_iff, Prod.exists] at h
    obtain ⟨tasks₁, h₁, kept₁, dropped₁, tasks₂, h₂, h⟩ := h
    obtain rfl : tasks₂ = tasks' := by
      split at h <;> exact (Prod.mk.inj (Prod.mk.inj (Option.some.inj h)).2).2
    obtain ⟨hcount, hfinished⟩ := ih h₂
    have hcount₁ := Unfinished.taskDone_eq_some h₁
    have hfinished₁ := Unfinished.finished_taskDone h₁
    refine ⟨by rw [List.length_cons]; omega, ?_⟩
    rw [hfinished, hfinished₁]
    cases items with
    | nil => simp [hcount]
    | cons g items =>
      -- more frames are to be reported, so the first leaves the count above zero
      have hne : tasks₁.count ≠ 0 := by
        rw [List.length_cons] at hcount
        omega
      simp [hne]

/-- The drain keeps the frames without a number, in order. -/
theorem kept_drainJournaled {items : List (Queued φ)} {tasks tasks' : Unfinished}
    {kept dropped : List (Queued φ)}
    (h : drainJournaled numbered items tasks = some (kept, dropped, tasks')) :
    kept = items.filter fun f => !numbered f.frame := by
  obtain ⟨hcount, -⟩ := tasks_drainJournaled h
  obtain ⟨tasks₁, h₁, -⟩ := drainJournaled_eq numbered items tasks (by omega)
  exact (Prod.mk.inj (Option.some.inj (h.symm.trans h₁))).1

/-- The held frame's part reports at most that frame done. -/
theorem tasks_dropHeld {t : Transport φ} {held : Option (Queued φ)} {dropped : List (Queued φ)}
    {tasks : Unfinished} (h : dropHeld numbered t = some (held, dropped, tasks)) :
    t.sendQueue.tasks.count = tasks.count + dropped.length ∧ tasks.finished
      = if dropped ≠ [] ∧ tasks.count = 0 then t.sendQueue.tasks.finished + 1
        else t.sendQueue.tasks.finished := by
  rw [dropHeld] at h
  cases hheld : t.held with
  | none =>
    simp only [hheld, Option.some.injEq, Prod.mk.injEq] at h
    obtain ⟨-, rfl, rfl⟩ := h
    simp
  | some f =>
    simp only [hheld] at h
    split at h
    · simp only [Option.map_eq_some_iff, Prod.mk.injEq] at h
      obtain ⟨tasks', htasks, -, rfl, rfl⟩ := h
      exact ⟨Unfinished.taskDone_eq_some htasks, by
        simpa using Unfinished.finished_taskDone htasks⟩
    · simp only [Option.some.injEq, Prod.mk.injEq] at h
      obtain ⟨-, rfl, rfl⟩ := h
      simp

/-- The count a discard comes down to before it puts frames back: those in flight, and the held one
if it is kept. -/
theorem exists_tasks_discardJournaled {t t' : Transport φ} (h : t.InOrder)
    (hd : t.discardJournaled numbered = some t') : ∃ tasks₁ tasks₂ : Unfinished,
      t'.sendQueue.tasks.finished = tasks₂.finished
      ∧ tasks₂.count = t.inFlight.toList.length
        + (t.held.toList.filter fun f => !numbered f.frame).length
      ∧ tasks₂.count ≤ tasks₁.count
      ∧ tasks₂.finished = (if t.sendQueue.items ≠ [] ∧ tasks₂.count = 0 then tasks₁.finished + 1
        else tasks₁.finished)
      ∧ t.sendQueue.tasks.finished ≤ tasks₁.finished
      ∧ (tasks₁.count ≠ 0 → tasks₁.finished = t.sendQueue.tasks.finished) := by
  have hunfinished := h.unfinished
  simp only [line, List.length_append] at hunfinished
  obtain ⟨tasks₁, h₁, hcount₁⟩ := dropHeld_eq numbered t (by omega)
  obtain ⟨-, hfinished₁⟩ := tasks_dropHeld h₁
  rw [discardJournaled, h₁] at hd
  simp only [Option.bind_eq_bind, Option.bind_some, Option.bind_eq_some_iff, Prod.exists,
    Option.some.injEq] at hd
  obtain ⟨kept, dropped, tasks₂, h₂, rfl⟩ := hd
  obtain ⟨hcount₂, hfinished₂⟩ := tasks_drainJournaled h₂
  have hsplit := List.length_eq_length_filter_add (l := t.held.toList) fun f => numbered f.frame
  refine ⟨tasks₁, tasks₂, AsyncQueue.finished_foldl_put _ _, by omega, by omega, hfinished₂, ?_,
    fun hne => ?_⟩
  · rw [hfinished₁]
    split <;> omega
  · rw [hfinished₁, if_neg fun hzero => hne hzero.2]

/-- A discard wakes a `join` only where it finds nothing but queued frames. -/
theorem finished_discardJournaled {t t' : Transport φ} (h : t.InOrder)
    (hd : t.discardJournaled numbered = some t') :
    t'.sendQueue.tasks.finished = t.sendQueue.tasks.finished ∨ t.OnlyQueued numbered := by
  obtain ⟨tasks₁, tasks₂, hfinished, hcount, hle, hdrain, -, hheld⟩ :=
    exists_tasks_discardJournaled h hd
  by_cases hzero : tasks₂.count = 0
  · right
    rw [hzero] at hcount
    constructor
    · cases hflight : t.inFlight with
      | none => rfl
      | some f =>
        rw [hflight, Option.toList_some, List.length_singleton] at hcount
        omega
    · intro f hf
      have hnone : (t.held.toList.filter fun f => !numbered f.frame) = [] :=
        List.length_eq_zero_iff.mp (by omega)
      simpa using List.filter_eq_nil_iff.mp hnone f (Option.mem_toList.mpr hf)
  · left
    rw [hfinished, hdrain, if_neg fun hz => hzero hz.2]
    exact hheld (by omega)

/-- It does wake one where there is a queued frame. -/
theorem finished_lt_discardJournaled {t t' : Transport φ} (h : t.InOrder)
    (hd : t.discardJournaled numbered = some t') (honly : t.OnlyQueued numbered)
    (hne : t.sendQueue.items ≠ []) :
    t.sendQueue.tasks.finished < t'.sendQueue.tasks.finished := by
  obtain ⟨tasks₁, tasks₂, hfinished, hcount, -, hdrain, hle, -⟩ :=
    exists_tasks_discardJournaled h hd
  have hkept : (t.held.toList.filter fun f => !numbered f.frame) = [] :=
    List.filter_eq_nil_iff.mpr fun f hf => by simp [honly.2 f (Option.mem_toList.mp hf)]
  have hzero : tasks₂.count = 0 := by simp [hcount, honly.1, hkept]
  rw [hfinished, hdrain, if_pos ⟨hne, hzero⟩]
  omega

/-! ## What a step does to the line -/

/-- What one event does to the line, the wire and the count. -/
inductive Moved (numbered : φ → Bool) (t : Transport φ) (act : TransportAct φ)
    (t' : Transport φ) : Prop
  /-- Frames only moved within the line, or joined its end. -/
  | kept (new : List (Queued φ)) (line : t'.line = t.line ++ new)
    (enqueued : t'.enqueued = t.enqueued ++ new) (completed : t'.completed = t.completed)
    (discarded : t'.discarded = t.discarded)
    (finished : t'.sendQueue.tasks.finished = t.sendQueue.tasks.finished)
  /-- The frame in flight went out. -/
  | sent (f : Queued φ) (line : t.line = f :: t'.line) (enqueued : t'.enqueued = t.enqueued)
    (completed : t'.completed = t.completed ++ [f]) (discarded : t'.discarded = t.discarded)
    (finished : t'.sendQueue.tasks.finished = t.sendQueue.tasks.finished
      ∨ t.sendQueue.tasks.finished < t'.sendQueue.tasks.finished ∧ t'.line = [])
  /-- The journaled frames not in flight were dropped. -/
  | discard (is : act = .discardJournaled) (eq : t.discardJournaled numbered = some t')
    (dropped : List (Queued φ)) (effect : Discarded numbered t t' dropped)

/-- Every event moves the line one of these ways. -/
theorem moved_of_step {t t' : Transport φ} (h : t.InOrder) {act : TransportAct φ}
    (hs : t.step numbered act = some t') : Moved numbered t act t' := by
  cases act with
  | delayaction frame =>
    obtain rfl := Option.some.inj hs
    exact .kept _ (line_delayaction t frame) rfl rfl rfl rfl
  | connect holds =>
    cases hsender : t.sender <;> simp only [step, hsender, reduceCtorEq, Option.some.injEq] at hs
    subst hs
    exact .kept [] (by simp [line, inFlight, hsender]) (List.append_nil _).symm rfl rfl rfl
  | wake =>
    cases hsender : t.sender <;> simp only [step, hsender, reduceCtorEq] at hs
    rw [Option.ite_none_right_eq_some, Option.some.injEq] at hs
    obtain ⟨-, rfl⟩ := hs
    exact .kept [] (by simp [line, inFlight, hsender]) (List.append_nil _).symm rfl rfl rfl
  | take =>
    cases hsender : t.sender <;> simp only [step, hsender, reduceCtorEq] at hs
    cases hheld : t.held with
    | some f =>
      simp only [hheld, Option.some.injEq] at hs
      subst hs
      exact .kept [] (by simp [line, inFlight, hsender, hheld]) (List.append_nil _).symm rfl rfl rfl
    | none =>
      simp only [hheld, Option.map_eq_some_iff, Prod.exists] at hs
      obtain ⟨f, queue, hget, rfl⟩ := hs
      obtain ⟨hitems, htasks⟩ := AsyncQueue.getNowait_eq_some.mp hget
      exact .kept [] (by simp [line, inFlight, hsender, hheld, hitems]) (List.append_nil _).symm
        rfl rfl (congrArg Unfinished.finished htasks)
  | sent =>
    have hord := inOrder_step h hs
    cases hsender : t.sender <;> simp only [step, hsender, reduceCtorEq] at hs
    obtain ⟨queue, hqueue, rfl⟩ := Option.map_eq_some_iff.mp hs
    obtain ⟨tasks, htasks, rfl⟩ := Option.map_eq_some_iff.mp hqueue
    refine .sent _ (by simp [line, inFlight, hsender]) rfl rfl rfl ?_
    have hfinished := Unfinished.finished_taskDone htasks
    split at hfinished
    · rename_i hzero
      exact Or.inr ⟨hfinished ▸ Nat.lt_succ_self _,
        List.length_eq_zero_iff.mp (hord.unfinished.symm.trans hzero)⟩
    · exact Or.inl hfinished
  | failed accepted =>
    cases hsender : t.sender <;> simp only [step, hsender, reduceCtorEq, Option.some.injEq] at hs
    subst hs
    have hheld := h.apart.resolve_left (by simp [inFlight, hsender])
    exact .kept [] (by simp [line, inFlight, requeue, hsender, hheld]) (List.append_nil _).symm
      rfl rfl rfl
  | drop accepted =>
    cases hsender : t.sender <;> simp only [step, hsender, reduceCtorEq, Option.some.injEq] at hs
    case sending f =>
      subst hs
      have hheld := h.apart.resolve_left (by simp [inFlight, hsender])
      exact .kept [] (by simp [line, inFlight, requeue, hsender, hheld]) (List.append_nil _).symm
        rfl rfl rfl
    all_goals
      subst hs
      exact .kept [] (by simp [line, inFlight, hsender]) (List.append_nil _).symm rfl rfl rfl
  | discardJournaled =>
    obtain ⟨t₁, dropped, ht₁, hd⟩ := h.exists_discardJournaled numbered
    obtain rfl : t₁ = t' := Option.some.inj (ht₁.symm.trans hs)
    exact .discard rfl hs dropped hd
  | releaseSends =>
    obtain rfl := Option.some.inj hs
    exact .kept [] (List.append_nil _).symm (List.append_nil _).symm rfl rfl rfl

/-- A step puts nothing in the queue but a new frame. -/
theorem items_step {t t' : Transport φ} {act : TransportAct φ}
    (hs : t.step numbered act = some t') {q : Queued φ} (hq : q ∈ t'.sendQueue.items) :
    q ∈ t.sendQueue.items ∨ q.index = t.enqueued.length := by
  cases act with
  | delayaction frame =>
    obtain rfl := Option.some.inj hs
    rcases List.mem_append.mp hq with hq | hq
    · exact Or.inl hq
    · obtain rfl := List.mem_singleton.mp hq
      exact Or.inr rfl
  | connect holds =>
    cases hsender : t.sender <;> simp only [step, hsender, reduceCtorEq, Option.some.injEq] at hs
    subst hs
    exact Or.inl hq
  | wake =>
    cases hsender : t.sender <;> simp only [step, hsender, reduceCtorEq] at hs
    rw [Option.ite_none_right_eq_some, Option.some.injEq] at hs
    obtain ⟨-, rfl⟩ := hs
    exact Or.inl hq
  | take =>
    cases hsender : t.sender <;> simp only [step, hsender, reduceCtorEq] at hs
    cases hheld : t.held with
    | some f =>
      simp only [hheld, Option.some.injEq] at hs
      subst hs
      exact Or.inl hq
    | none =>
      simp only [hheld, Option.map_eq_some_iff, Prod.exists] at hs
      obtain ⟨f, queue, hget, rfl⟩ := hs
      rw [(AsyncQueue.getNowait_eq_some.mp hget).1]
      exact Or.inl (List.mem_cons_of_mem _ hq)
  | sent =>
    cases hsender : t.sender <;> simp only [step, hsender, reduceCtorEq] at hs
    obtain ⟨queue, hqueue, rfl⟩ := Option.map_eq_some_iff.mp hs
    exact Or.inl ((AsyncQueue.taskDone_eq_some hqueue).1 ▸ hq)
  | failed accepted =>
    cases hsender : t.sender <;> simp only [step, hsender, reduceCtorEq, Option.some.injEq] at hs
    subst hs
    exact Or.inl hq
  | drop accepted =>
    cases hsender : t.sender <;> simp only [step, hsender, reduceCtorEq, Option.some.injEq] at hs
    all_goals
      subst hs
      exact Or.inl hq
  | discardJournaled =>
    simp only [step, discardJournaled, Option.bind_eq_bind, Option.bind_eq_some_iff,
      Prod.exists, Option.some.injEq] at hs
    obtain ⟨held, droppedHeld, tasks₁, -, kept, dropped, tasks₂, hdrain, rfl⟩ := hs
    have hkept : q ∈ (kept.foldl AsyncQueue.put ⟨[], tasks₂⟩).items := hq
    rw [(AsyncQueue.foldl_put _ _).1, List.nil_append, kept_drainJournaled hdrain] at hkept
    exact Or.inl (List.mem_filter.mp hkept).1
  | releaseSends =>
    obtain rfl := Option.some.inj hs
    exact Or.inl hq

/-- What is queued was never put on the wire, and is behind all that was. -/
def Behind (t : Transport φ) : Prop :=
  ∀ p ∈ t.wire, ∀ q ∈ t.sendQueue.items, p.2.index < q.index

theorem behind_step {t t' : Transport φ} (h : t.InOrder) (hb : t.Behind)
    {act : TransportAct φ} (hs : t.step numbered act = some t') : t'.Behind := by
  intro p hp q hq
  have hnew : ∀ f ∈ t.enqueued, q.index = t.enqueued.length → f.index < q.index :=
    fun f hf hindex => hindex ▸ h.index_lt hf
  have hold : ∀ p ∈ t.wire, p.2.index < q.index := fun p hp =>
    (items_step hs hq).elim (hb p hp q) (hnew _ (h.wire_le p hp).2)
  obtain hwire | ⟨f, hsender, hwire⟩ := step_wire hs
  · exact hold p (hwire ▸ hp)
  · rw [hwire] at hp
    rcases List.mem_append.mp hp with hp | hp
    · exact hold p hp
    · obtain rfl := List.mem_singleton.mp hp
      -- the frame in flight is the head of the line
      have hline : t.line = f :: (t.held.toList ++ t.sendQueue.items) := by
        simp [line, inFlight, hsender]
      have hsorted := (List.pairwise_append.mp h.pairwise_index).2.1
      rcases items_step hs hq with hq | hindex
      · rw [hline] at hsorted
        exact (List.pairwise_cons.mp hsorted).1 q (List.mem_append_right _ hq)
      · exact hnew f (h.mem_enqueued (hline ▸ List.mem_cons_self)) hindex

theorem inOrder_behind_of_run {t u : Transport φ} (h : t.InOrder) (hb : t.Behind)
    {acts : List (TransportAct φ)} (hrun : exec (step numbered) t acts = some u) :
    u.InOrder ∧ u.Behind := by
  refine exec_invariant (I := fun u : Transport φ => u.InOrder ∧ u.Behind) ⟨h, hb⟩ ?_ hrun
  intro v act w hv hw
  exact ⟨inOrder_step hv.1 hw, behind_step hv.1 hv.2 hw⟩

/-- What only grows over a run. -/
structure Grown (t u : Transport φ) : Prop where
  enqueued : t.enqueued <+: u.enqueued
  completed : ∀ q ∈ t.completed, q ∈ u.completed
  discarded : ∀ q ∈ t.discarded, q ∈ u.discarded
  finished : t.sendQueue.tasks.finished ≤ u.sendQueue.tasks.finished

theorem grown_refl (t : Transport φ) : Grown t t :=
  ⟨List.prefix_refl _, fun _ => id, fun _ => id, le_rfl⟩

theorem Grown.trans {t u v : Transport φ} (h : Grown t u) (h' : Grown u v) : Grown t v :=
  ⟨h.enqueued.trans h'.enqueued, fun q hq => h'.completed q (h.completed q hq),
    fun q hq => h'.discarded q (h.discarded q hq), h.finished.trans h'.finished⟩

theorem grown_of_step {t t' : Transport φ} (h : t.InOrder) {act : TransportAct φ}
    (hs : t.step numbered act = some t') : Grown t t' := by
  cases moved_of_step h hs with
  | kept new hline henqueued hcompleted hdiscarded hfinished =>
    exact ⟨⟨new, henqueued.symm⟩, fun q hq => hcompleted ▸ hq, fun q hq => hdiscarded ▸ hq,
      hfinished.ge⟩
  | sent f hline henqueued hcompleted hdiscarded hfinished =>
    refine ⟨henqueued ▸ List.prefix_refl _, fun q hq => ?_, fun q hq => hdiscarded ▸ hq,
      hfinished.elim Eq.ge fun hlt => hlt.1.le⟩
    rw [hcompleted]
    exact List.mem_append_left _ hq
  | discard is heq dropped hd =>
    refine ⟨hd.frame ▸ List.prefix_refl _, fun q hq => by rw [hd.frame]; exact hq,
      fun q hq => ?_, ?_⟩
    · rw [hd.frame]
      exact List.mem_append_left _ hq
    · obtain ⟨tasks₁, tasks₂, hfinished, -, -, hdrain, hle, -⟩ :=
        exists_tasks_discardJournaled h heq
      rw [hfinished, hdrain]
      split <;> omega

theorem grown_of_run {t u : Transport φ} (h : t.InOrder) {acts : List (TransportAct φ)}
    (hrun : exec (step numbered) t acts = some u) : Grown t u := by
  refine (exec_invariant (I := fun u : Transport φ => u.InOrder ∧ Grown t u)
    ⟨h, grown_refl t⟩ ?_ hrun).2
  intro v act w hv hw
  exact ⟨inOrder_step hv.1 hw, hv.2.trans (grown_of_step hv.1 hw)⟩

/-! ## A flush over a run -/

/-- What every run from where a flush began keeps, as long as its steps keep the flush: each frame
of the line then was completed, dropped or is still in line, and a `join` that has completed left
none in line. -/
structure Awaits (numbered : φ → Bool) (t u : Transport φ) : Prop where
  order : u.InOrder
  accounted : ∀ q ∈ t.line,
    q ∈ u.completed ∨ (q ∈ u.discarded ∧ numbered q.frame = true) ∨ q ∈ u.line
  met : u.sendQueue.tasks.finished = t.sendQueue.tasks.finished ∨
    ∀ q ∈ t.line, q ∈ u.completed ∨ (q ∈ u.discarded ∧ numbered q.frame = true)

theorem awaits_refl {t : Transport φ} (h : t.InOrder) : Awaits numbered t t :=
  ⟨h, fun _ hq => Or.inr (Or.inr hq), Or.inl rfl⟩

theorem Awaits.flushed {t u : Transport φ} (h : Awaits numbered t u) (hjoined : Joined t u)
    (ht : t.InOrder) : Flushed numbered t u := by
  have hdone : ∀ q ∈ t.line,
      q ∈ u.completed ∨ (q ∈ u.discarded ∧ numbered q.frame = true) := by
    rcases hjoined with hzero | hlt
    · rw [ht.unfinished, List.length_eq_zero_iff] at hzero
      simp [hzero]
    · exact h.met.resolve_left hlt.ne'
  exact fun q hq => (hdone q hq).imp_left (h.order.onWire q)

theorem Awaits.step {t u v : Transport φ} (h : Awaits numbered t u) (ht : t.InOrder)
    {act : TransportAct φ} (hkeeps : KeepsFlush numbered t u act)
    (hs : step numbered u act = some v) : Awaits numbered t v := by
  have hord := inOrder_step h.order hs
  cases moved_of_step h.order hs with
  | kept new hline _ hcompleted hdiscarded hfinished =>
    refine ⟨hord, fun q hq => ?_, ?_⟩
    · rw [hcompleted, hdiscarded, hline]
      exact (h.accounted q hq).imp_right (Or.imp_right (List.mem_append_left _))
    · rw [hcompleted, hdiscarded, hfinished]
      exact h.met
  | sent f hline _ hcompleted hdiscarded hfinished =>
    have haccounted : ∀ q ∈ t.line,
        q ∈ v.completed ∨ (q ∈ v.discarded ∧ numbered q.frame = true) ∨ q ∈ v.line := by
      intro q hq
      rw [hcompleted, hdiscarded]
      obtain hdone | hdropped | hin := h.accounted q hq
      · exact Or.inl (List.mem_append_left _ hdone)
      · exact Or.inr (Or.inl hdropped)
      · rw [hline] at hin
        rcases List.mem_cons.mp hin with rfl | hin
        · exact Or.inl (List.mem_append_right _ (List.mem_singleton_self _))
        · exact Or.inr (Or.inr hin)
    refine ⟨hord, haccounted, ?_⟩
    rcases hfinished with hfinished | ⟨-, hempty⟩
    · rw [hfinished, hcompleted, hdiscarded]
      exact h.met.imp_right fun hdone q hq => (hdone q hq).imp_left (List.mem_append_left _)
    · -- the last frame went out, so none is left in line
      refine Or.inr fun q hq => ?_
      have hq := haccounted q hq
      simpa only [hempty, List.not_mem_nil, or_false] using hq
  | discard is heq dropped hd =>
    have hcompleted : v.completed = u.completed := by rw [hd.frame]
    have hdiscarded : v.discarded = u.discarded ++ dropped := by rw [hd.frame]
    have hflight : v.inFlight = u.inFlight := by rw [hd.frame]; rfl
    have hline : v.line = u.inFlight.toList
        ++ (u.held.toList ++ u.sendQueue.items).filter fun f => !numbered f.frame := by
      rw [line, hflight, hd.kept]
    have haccounted : ∀ q ∈ t.line,
        q ∈ v.completed ∨ (q ∈ v.discarded ∧ numbered q.frame = true) ∨ q ∈ v.line := by
      intro q hq
      rw [hcompleted, hdiscarded, hline, hd.dropped_eq]
      obtain hdone | ⟨hdropped, hnum⟩ | hin := h.accounted q hq
      · exact Or.inl hdone
      · exact Or.inr (Or.inl ⟨List.mem_append_left _ hdropped, hnum⟩)
      · rcases List.mem_append.mp hin with hin | hin
        · exact Or.inr (Or.inr (List.mem_append_left _ hin))
        · cases hnum : numbered q.frame with
          | true =>
            exact Or.inr (Or.inl ⟨List.mem_append_right _ (List.mem_filter.mpr ⟨hin, hnum⟩), rfl⟩)
          | false =>
            exact Or.inr (Or.inr (List.mem_append_right _
              (List.mem_filter.mpr ⟨hin, by rw [hnum]; rfl⟩)))
    refine ⟨hord, haccounted, ?_⟩
    rcases finished_discardJournaled h.order heq with hfinished | honly
    · rw [hfinished, hcompleted, hdiscarded]
      exact h.met.imp_right fun hdone q hq => (hdone q hq).imp_right fun hdropped =>
        ⟨List.mem_append_left _ hdropped.1, hdropped.2⟩
    · -- what the discard keeps was enqueued after the flush began
      refine Or.inr fun q hq => ?_
      refine (haccounted q hq).imp_right fun hq' => hq'.resolve_right fun hin => ?_
      rw [hline, honly.1, Option.toList_none, List.nil_append] at hin
      obtain ⟨hin, hnum⟩ := List.mem_filter.mp hin
      rcases List.mem_append.mp hin with hheld | hqueued
      · simp [honly.2 q (Option.mem_toList.mp hheld)] at hnum
      · have hlate := hkeeps is honly q hqueued (by simpa using hnum)
        exact absurd (ht.index_lt (ht.mem_enqueued hq)) (not_lt.mpr hlate)

/-- A frame still in line that was enqueued before `t` was in line at `t`. -/
theorem Grown.mem_line {t u : Transport φ} (h : Grown t u) (ht : t.InOrder) (hu : u.InOrder)
    {q : Queued φ} (hq : q ∈ u.line) (hindex : q.index < t.enqueued.length) : q ∈ t.line := by
  have hkept : q ∈ u.notDiscarded := hu.order ▸ List.mem_append_right _ hq
  obtain ⟨henqueued, hnot⟩ := List.mem_filter.mp hkept
  have hbefore : q ∈ t.enqueued := by
    obtain ⟨new, hnew⟩ := h.enqueued
    rw [← hnew] at henqueued
    refine (List.mem_append.mp henqueued).resolve_right fun hlate => ?_
    have hindices := hu.indices
    rw [← hnew, List.map_append, List.length_append, List.range_add, ht.indices] at hindices
    have hmap := List.append_cancel_left hindices
    have hmem : q.index ∈ new.map Queued.index := List.mem_map_of_mem hlate
    rw [hmap] at hmem
    obtain ⟨k, -, hk⟩ := List.mem_map.mp hmem
    omega
  have hstays : q ∈ t.notDiscarded := by
    refine List.mem_filter.mpr ⟨hbefore, decide_eq_true fun hgone => ?_⟩
    obtain ⟨g, hg, hsame⟩ := List.mem_map.mp hgone
    exact of_decide_eq_true hnot (List.mem_map.mpr ⟨g, h.discarded g hg, hsame⟩)
  rw [← ht.order] at hstays
  refine (List.mem_append.mp hstays).resolve_left fun hdone => ?_
  exact lt_irrefl _ ((List.pairwise_append.mp hu.pairwise_index).2.2 q (h.completed q hdone) q hq)

/-- A flush that returns has flushed, exactly as long as no discard meanwhile finds only queued
frames and puts back one the flush waits for. -/
theorem flushed_iff (numbered : φ → Bool) {before acts : List (TransportAct φ)}
    {t t' : Transport φ} (ht : exec (step numbered) start before = some t)
    (hrun : exec (step numbered) t acts = some t') :
    (∀ pre u, pre <+: acts → exec (step numbered) t pre = some u → Joined t u →
        Flushed numbered t u)
      ↔ Meets (step numbered) (KeepsFlush numbered t) t acts := by
  have hord := inOrder_behind_of_run inOrder_start (by rintro p ⟨⟩) ht
  constructor
  · rintro h pre act post u rfl hu hdiscard honly q hq hnum
    by_contra hearly
    obtain ⟨u', v, hu', hv', hv⟩ := exec_at hrun
    obtain rfl : u' = u := Option.some.inj (hu'.symm.trans hu)
    obtain ⟨hordu, hbehind⟩ := inOrder_behind_of_run hord.1 hord.2 hu
    have hgrown := grown_of_run hord.1 hu
    subst hdiscard
    have hlt := finished_lt_discardJournaled hordu hv' honly (List.ne_nil_of_mem hq)
    have hline : q ∈ t.line := hgrown.mem_line hord.1 hordu
      (List.mem_append_right _ (List.mem_append_right _ hq)) (not_le.mp hearly)
    have hflushed := h _ v ⟨post, by simp⟩ hv (Or.inr (hgrown.finished.trans_lt hlt))
      q hline
    -- a queued frame is not on the wire, and this one is not dropped
    rcases hflushed with ⟨c, hc⟩ | ⟨-, hdropped⟩
    · rw [(discardJournaled_frame hv').2.2.2] at hc
      exact lt_irrefl _ (hbehind _ hc q hq)
    · rw [hnum] at hdropped
      cases hdropped
  · intro hmeets pre u hpre hu hjoined
    have hawaits : Awaits numbered t u := exec_invariant_of_meets (awaits_refl hord.1)
      (fun _ _ _ hw hkeeps hs => hw.step hord.1 hkeeps hs) (hmeets.of_prefix hpre) hu
    exact hawaits.flushed hjoined hord.1

/-- Two frames go out while a flush waits for them. -/
theorem flushed_iff_twoSent :
    ∃ t u, exec (step fun _ => false) start [.delayaction "a", .delayaction "b"] = some t
      ∧ exec (step fun _ => false) t [.connect false, .wake, .take, .sent, .take, .sent] = some u
      ∧ Joined t u ∧ Flushed (fun _ => false) t u := by
  have hrun : ∃ t u, exec (step fun _ => false) start [.delayaction "a", .delayaction "b"] = some t
      ∧ exec (step fun _ => false) t [.connect false, .wake, .take, .sent, .take, .sent] = some u
      ∧ t.sendQueue.tasks.finished < u.sendQueue.tasks.finished :=
    ⟨_, _, rfl, rfl, Nat.lt_succ_self 0⟩
  obtain ⟨t, u, ht, hu, hlt⟩ := hrun
  refine ⟨t, u, ht, hu, Or.inr hlt,
    (flushed_iff _ ht hu).mpr ?_ _ u (List.prefix_refl _) hu (Or.inr hlt)⟩
  refine meets_of_forall fun act hact _ hdiscard => ?_
  subst hdiscard
  simp at hact

/-- A frame without a number waits for the release; a discard puts it back, and the flush returns
with the frame still queued. -/
theorem discard_ends_flush :
    ∃ t u, exec (step fun _ => false) start [.delayaction "a", .connect true] = some t
      ∧ exec (step fun _ => false) t [.discardJournaled] = some u
      ∧ Joined t u ∧ ¬ Flushed (fun _ => false) t u ∧ u.line.map Queued.frame = ["a"] := by
  refine ⟨_, _, rfl, rfl, Or.inr (Nat.lt_succ_self 0), fun h => ?_, rfl⟩
  rcases h ⟨0, "a"⟩ (List.mem_singleton_self _) with ⟨c, hc⟩ | ⟨-, hnum⟩
  · cases hc
  · cases hnum

end Transport

end Rekuest
