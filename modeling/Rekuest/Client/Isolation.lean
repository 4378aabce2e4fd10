import Rekuest.Client.Alterations
import Rekuest.Client.CatchUp

/-!
# Calls in flight together

The postman finds a call's queue through two tables keyed by task and by reference, and both are
written for whatever task a reference is bound to. Live calls stay apart where each has a reference
of its own and each bind agrees with the ones that live calls depend on.
-/

namespace Rekuest

open Runs GraphQLPostman

namespace GraphQLPostman

/-- The tables keep apart the calls that `holds` relates to a reference and to their task. -/
structure Apart (p : GraphQLPostman) (holds : ℕ → String → Option String → Prop) : Prop where
  registered : ∀ id r o, holds id r o → p.assUpdateQueues.get? r = some id
  bound : ∀ id r t, holds id r (some t) → p.taskToReference.get? t = some r
  own : ∀ id r t t', holds id r (some t) → p.taskToReference.get? t' = some r → t' = t
  back : ∀ id r o t, holds id r o → p.referenceToTask.get? r = some t →
    p.taskToReference.get? t = some r
  queued : ∀ id r o, holds id r o → ∀ e ∈ p.queued id, p.taskToReference.get? e.task = some r

variable {p p' : GraphQLPostman} {holds holds' : ℕ → String → Option String → Prop}
  {task reference : String}

/-- Live calls have references of their own. -/
theorem Apart.unique (h : Apart p holds) {id id' : ℕ} {r : String} {o o' : Option String}
    (ho : holds id r o) (ho' : holds id' r o') : id = id' :=
  Option.some.inj ((h.registered id r o ho).symm.trans (h.registered id' r o' ho'))

/-- Calls that stay or go, and queues that are given events of the tasks bound to them. -/
theorem Apart.of_same (h : Apart p holds) (hholds : ∀ id r o, holds' id r o → holds id r o)
    (hsame : SameTables p p') (hqueued : ∀ id r o, holds' id r o → ∀ e ∈ p'.queued id,
      e ∈ p.queued id ∨ p.taskToReference.get? e.task = some r) : Apart p' holds' where
  registered id r o ho := by
    rw [hsame.assUpdateQueues]
    exact h.registered id r o (hholds id r o ho)
  bound id r t ho := by
    rw [hsame.taskToReference]
    exact h.bound id r t (hholds id r _ ho)
  own id r t t' ho := by
    rw [hsame.taskToReference]
    exact h.own id r t t' (hholds id r _ ho)
  back id r o t ho := by
    rw [hsame.taskToReference, hsame.referenceToTask]
    exact h.back id r o t (hholds id r o ho)
  queued id r o ho e he := by
    rw [hsame.taskToReference]
    exact (hqueued id r o ho e he).elim (h.queued id r o (hholds id r o ho) e) fun htask => htask

theorem Apart.route (h : Apart p holds) (howner : ∀ r q r' o,
    p.assUpdateQueues.get? r = some q → holds q r' o → r' = r) (event : TaskEventChange) :
    Apart (p.route event) holds := by
  refine h.of_same (fun _ _ _ ho => ho) (route_tables p event) fun id r o ho e he => ?_
  by_cases hrouted : event.id ∈ p.routed event.task
  · rw [route_of_mem hrouted] at he
    exact Or.inl he
  · rw [queued_route hrouted, List.mem_append] at he
    refine he.imp_right fun hnew => ?_
    split at hnew
    · rename_i hqueue
      obtain rfl := List.mem_singleton.mp hnew
      obtain ⟨r', hbound, hr'⟩ := Option.bind_eq_some_iff.mp hqueue
      rw [hbound, howner r' id r o hr' ho]
    · cases hnew

theorem Apart.catchUp (h : Apart p holds) (howner : ∀ r q r' o,
    p.assUpdateQueues.get? r = some q → holds q r' o → r' = r) {history : List TaskEventChange}
    (hhistory : ∀ e ∈ history, e.task = task) : Apart (p.catchUp task history) holds := by
  refine h.of_same (fun _ _ _ ho => ho) (catchUp_tables p task history) fun id r o ho e he => ?_
  by_cases hqueue : p.queueOf task = some id
  · simp only [GraphQLPostman.catchUp, hqueue, GraphQLPostman.queued, Function.update_self,
      List.filterMap_append, filterMap_event?, filterMap_staysBehind, List.mem_append] at he
    obtain hread | hwaits := he
    · right
      obtain ⟨r', hbound, hr'⟩ := Option.bind_eq_some_iff.mp hqueue
      rw [hhistory e (List.mem_of_mem_filter hread), hbound, howner r' id r o hr' ho]
    · exact Or.inl (List.mem_of_mem_filter hwaits)
  · rw [queued_catchUp_of_ne hqueue] at he
    exact Or.inl he

/-- Binding a task to a reference keeps the calls apart, if a live call of that reference depends on
no other task, and no live call of another reference on that task. The call that is told its task
by the bind is as good as one that was told before. -/
theorem Apart.bind (h : Apart p holds) (howner : ∀ r q r' o,
    p.assUpdateQueues.get? r = some q → holds q r' o → r' = r)
    (horphans : ∀ e ∈ p.orphans task, e.task = task)
    (honly : ∀ id o t, holds id reference o → p.taskToReference.get? t = some reference → t = task)
    (hsame : ∀ id r o, holds id r o → p.taskToReference.get? task = some r → r = reference)
    (htold : ∀ id r o, holds' id r o →
      holds id r o ∨ r = reference ∧ o = some task ∧ ∃ o', holds id r o') :
    Apart (p.bind task reference) holds' := by
  obtain ⟨-, -, hqueues, htasks, hreferences⟩ := bind_tables p task reference
  have hholds : ∀ id r o, holds' id r o → ∃ o', holds id r o' := fun id r o ho =>
    (htold id r o ho).elim (fun ho => ⟨o, ho⟩) fun ho => ho.2.2
  have hbound : ∀ id r o t, holds id r o → p.taskToReference.get? t = some r →
      (p.taskToReference.set task reference).get? t = some r := by
    intro id r o t ho ht
    by_cases htask : t = task
    · subst htask
      rw [hsame id r o ho ht]
      simp
    · simpa [htask] using ht
  refine ⟨fun id r o ho => ?_, fun id r t ho => ?_, fun id r t t' ho ht' => ?_,
    fun id r o t ho ht => ?_, fun id r o ho e he => ?_⟩
  · obtain ⟨o', ho'⟩ := hholds id r o ho
    rw [hqueues]
    exact h.registered id r o' ho'
  · rw [htasks]
    obtain ho | ⟨rfl, ho, -⟩ := htold id r _ ho
    · exact hbound id r _ t ho (h.bound id r t ho)
    · obtain rfl := Option.some.inj ho
      simp
  · rw [htasks] at ht'
    obtain ho | ⟨rfl, ho, o', ho'⟩ := htold id r _ ho
    · obtain ⟨rfl, rfl⟩ | ⟨-, ht'⟩ := Dict.get?_set_eq_some.mp ht'
      · exact (honly id _ t ho (h.bound id r t ho)).symm
      · exact h.own id r t t' ho ht'
    · obtain rfl := Option.some.inj ho
      obtain ⟨rfl, -⟩ | ⟨-, ht'⟩ := Dict.get?_set_eq_some.mp ht'
      · rfl
      · exact honly id o' t' ho' ht'
  · rw [hreferences] at ht
    rw [htasks]
    obtain ⟨o', ho'⟩ := hholds id r o ho
    obtain ⟨rfl, rfl⟩ | ⟨-, ht⟩ := Dict.get?_set_eq_some.mp ht
    · simp
    · exact hbound id r o' t ho' (h.back id r o' t ho' ht)
  · obtain ⟨o', ho'⟩ := hholds id r o ho
    rw [htasks]
    rw [queued_bind, List.mem_append] at he
    obtain hold | hnew := he
    · exact hbound id r o' e.task ho' (h.queued id r o' ho' e hold)
    · split at hnew
      · rename_i hqueue
        rw [horphans e hnew, howner reference id r o' hqueue ho']
        simp
      · cases hnew

/-- Cleaning up after a live call leaves the others, and what they depend on. -/
theorem Apart.cleanupReference (h : Apart p holds) {id₀ : ℕ} {o₀ : Option String}
    (h₀ : holds id₀ reference o₀)
    (hholds : ∀ id r o, holds' id r o → id ≠ id₀ ∧ holds id r o) :
    Apart (p.cleanupReference reference) holds' := by
  obtain ⟨-, -, hqueues, hother, hkept⟩ := cleanupReference_spec p reference
  obtain ⟨htasks, hreferences, -, -, -⟩ := cleanupReference_sub p reference
  have hne : ∀ id r o, holds' id r o → r ≠ reference := by
    rintro id r o ho rfl
    obtain ⟨hid, ho⟩ := hholds id r o ho
    exact hid (h.unique ho h₀)
  -- the task that is dropped with the reference is bound to it, so no other call depends on it
  have hbound : ∀ id r o t, holds' id r o → p.taskToReference.get? t = some r →
      (p.cleanupReference reference).taskToReference.get? t = some r := by
    intro id r o t ho ht
    refine ((hkept t fun hdropped => ?_).1).trans ht
    have ht₀ := h.back id₀ reference o₀ t h₀ hdropped
    exact hne id r o ho (Option.some.inj (ht.symm.trans ht₀))
  refine ⟨fun id r o ho => ?_, fun id r t ho => ?_, fun id r t t' ho ht' => ?_,
    fun id r o t ho ht => ?_, fun id r o ho e he => ?_⟩
  · rw [hother r (hne id r o ho)]
    exact h.registered id r o (hholds id r o ho).2
  · exact hbound id r _ t ho (h.bound id r t (hholds id r _ ho).2)
  · exact h.own id r t t' (hholds id r _ ho).2 (htasks t' r ht')
  · exact hbound id r o t ho (h.back id r o t (hholds id r o ho).2 (hreferences r t ht))
  · rw [GraphQLPostman.queued, hqueues] at he
    exact hbound id r o e.task ho (h.queued id r o (hholds id r o ho).2 e he)

/-- Registering a call leaves those with other references; the task on record for its reference, if
there is one, has to be bound to it. -/
theorem Apart.register (h : Apart p holds) {id₀ : ℕ}
    (hback : ∀ t, p.referenceToTask.get? reference = some t →
      p.taskToReference.get? t = some reference)
    (hholds : ∀ id r o, holds' id r o → id = id₀ ∧ r = reference ∧ o = none
      ∨ id ≠ id₀ ∧ r ≠ reference ∧ holds id r o) :
    Apart { p with
      watching := true
      assUpdateQueues := p.assUpdateQueues.set reference id₀
      queues := Function.update p.queues id₀ [] } holds' where
  registered id r o ho := by
    obtain ⟨rfl, rfl, -⟩ | ⟨-, hne, ho⟩ := hholds id r o ho
    · simp
    · simpa [hne] using h.registered id r o ho
  bound id r t ho := by
    obtain ⟨-, -, ⟨⟩⟩ | ⟨-, -, ho⟩ := hholds id r _ ho
    exact h.bound id r t ho
  own id r t t' ho := by
    obtain ⟨-, -, ⟨⟩⟩ | ⟨-, -, ho⟩ := hholds id r _ ho
    exact h.own id r t t' ho
  back id r o t ho := by
    obtain ⟨-, rfl, -⟩ | ⟨-, -, ho⟩ := hholds id r o ho
    · exact hback t
    · exact h.back id r o t ho
  queued id r o ho e he := by
    obtain ⟨rfl, -, -⟩ | ⟨hne, -, ho⟩ := hholds id r o ho
    · simp [GraphQLPostman.queued] at he
    · exact h.queued id r o ho e (by simpa [GraphQLPostman.queued, hne] using he)

/-- Taking the first item of a queue adds no event to any. -/
theorem queued_pop {id : ℕ} {item : QueueItem} {items : List QueueItem}
    (hqueue : p.queues id = item :: items) {q : ℕ} {e : TaskEventChange}
    (he : e ∈ GraphQLPostman.queued { p with queues := Function.update p.queues id items } q) :
    e ∈ p.queued q := by
  by_cases hq : q = id
  · subst hq
    rw [queued, hqueue]
    refine ((List.sublist_cons_self item items).filterMap _).subset ?_
    simpa [queued] using he
  · simpa [queued, hq] using he

/-- A feed that dies adds no event to a queue. -/
theorem queued_failPending (p : GraphQLPostman) (reason : String) (q : ℕ) :
    (p.failPending reason).queued q = p.queued q := by
  obtain ⟨n, hqueue, -⟩ := p.queues_failPending reason q
  rw [queued, hqueue, List.filterMap_append, queued]
  simp [QueueItem.event?]

/-- A catch-up loses no event that waits: one that was read again stands for it. -/
theorem eventIds_catchUp (p : GraphQLPostman) (task : String) (history : List TaskEventChange)
    (q : ℕ) : eventIds (p.queues q) ⊆ eventIds ((p.catchUp task history).queues q) := by
  cases hqueue : p.queueOf task with
  | none => rw [catchUp_of_none hqueue]; exact List.Subset.refl _
  | some queue =>
    by_cases hq : q = queue
    · subst hq
      intro k hk
      rw [catchUp_eq_merge hqueue]
      simp only [Function.update_self, eventIds_eq_keys] at hk ⊢
      exact (StableMerge.mem_keys_merge key?_event).mpr (Or.inl hk)
    · simp [GraphQLPostman.catchUp, hqueue, hq]

end GraphQLPostman

namespace PostmanWorld

variable {w w' u u' : PostmanWorld} {act : PostmanAct} {id : ℕ} {c : AssignCall}

/-! ## What holds of every run -/

/-- What holds whatever references and tasks the calls have. -/
structure Grounded (w : PostmanWorld) : Prop where
  owner : ∀ r q, w.postman.assUpdateQueues.get? r = some q →
    ∃ c, w.calls.get? q = some c ∧ c.reference = r
  told : ∀ id c, w.calls.get? id = some c → c.Live → c.phase.task = c.task
  orphans : ∀ t, ∀ e ∈ w.postman.orphans t, e.task = t
  reading : ∀ task read, w.Reading task read → read.id = task

/-- A call that changes keeps its queue. -/
theorem owner_set {calls : Dict ℕ AssignCall} {c' : AssignCall} (hc : calls.get? id = some c)
    (href : c'.reference = c.reference) {r : String} {q : ℕ}
    (h : ∃ c, calls.get? q = some c ∧ c.reference = r) :
    ∃ c, (calls.set id c').get? q = some c ∧ c.reference = r := by
  obtain ⟨c₀, h₀, rfl⟩ := h
  by_cases hq : q = id
  · subst hq
    obtain rfl := Option.some.inj (hc.symm.trans h₀)
    exact ⟨c', by simp, href⟩
  · exact ⟨c₀, by simpa [hq] using h₀, rfl⟩

theorem owner_alters (h : u.Grounded) (ha : w.Alters act u u') (r : String) (q : ℕ)
    (hq : u'.postman.assUpdateQueues.get? r = some q) :
    ∃ c, u'.calls.get? q = some c ∧ c.reference = r := by
  cases ha with
  | @register id reference escalate is new =>
    obtain ⟨rfl, rfl⟩ | ⟨-, hq⟩ := Dict.get?_set_eq_some.mp hq
    · exact ⟨_, Dict.get?_set_eq_some.mpr (Or.inl ⟨rfl, rfl⟩), rfl⟩
    · obtain ⟨c, hc, href⟩ := h.owner r q hq
      exact ⟨c, Dict.get?_set_of_new new _ hc, href⟩
  | bind is calls same => exact h.owner r q ((bind_tables _ _ _).assUpdateQueues ▸ hq)
  | route event => exact h.owner r q ((route_tables _ _).assUpdateQueues ▸ hq)
  | catchUp reading => exact h.owner r q ((catchUp_tables _ _ _).assUpdateQueues ▸ hq)
  | fail is => exact h.owner r q ((failPending_tables _ _).1.assUpdateQueues ▸ hq)
  | answer is call live untold told reads =>
    exact owner_set call (by rfl) (h.owner r q ((bind_tables _ _ _).assUpdateQueues ▸ hq))
  | hand is call phase queue => exact owner_set call (by rfl) (h.owner r q hq)
  | phase call live same reads => exact owner_set call (by rfl) (h.owner r q hq)
  | finish call live =>
    exact owner_set call (by rfl) (h.owner r q ((cleanupReference_sub _ _).2.2.1 r q hq))
  | _ => exact h.owner r q hq

theorem told_alters (h : u.Grounded) (ha : w.Alters act u u') (hc : u'.calls.get? id = some c)
    (hlive : c.Live) : c.phase.task = c.task := by
  cases ha with
  | register is new =>
    obtain ⟨-, rfl⟩ | ⟨-, hc⟩ := Dict.get?_set_eq_some.mp hc
    · rfl
    · exact h.told id c hc hlive
  | answer is call live untold told reads =>
    obtain ⟨-, rfl⟩ | ⟨-, hc⟩ := Dict.get?_set_eq_some.mp hc
    · exact told
    · exact h.told id c hc hlive
  | hand is call phase queue =>
    obtain ⟨-, rfl⟩ | ⟨-, hc⟩ := Dict.get?_set_eq_some.mp hc
    · have htold := h.told _ _ call (live_of_phase phase (by rintro _ ⟨⟩))
      rwa [phase] at htold
    · exact h.told id c hc hlive
  | phase call live same reads =>
    obtain ⟨-, rfl⟩ | ⟨-, hc⟩ := Dict.get?_set_eq_some.mp hc
    · obtain same | ⟨outcome, hended⟩ := same
      · exact same.trans (h.told _ _ call live)
      · exact absurd hended (hlive outcome)
    · exact h.told id c hc hlive
  | finish call live =>
    obtain ⟨-, rfl⟩ | ⟨-, hc⟩ := Dict.get?_set_eq_some.mp hc
    · exact absurd rfl (hlive _)
    · exact h.told id c hc hlive
  | _ => exact h.told id c hc hlive

theorem orphans_alters (h : u.Grounded) (ha : w.Alters act u u') (t : String)
    (e : TaskEventChange) (he : e ∈ u'.postman.orphans t) : e.task = t := by
  have hbind : ∀ {p : GraphQLPostman} {task reference : String},
      (∀ e ∈ p.orphans t, e.task = t) → e ∈ (p.bind task reference).orphans t → e.task = t := by
    intro p task reference horphans he
    rw [orphans_bind] at he
    split at he
    · cases he
    · exact horphans e he
  cases ha with
  | bind is calls same => exact hbind (h.orphans t) he
  | answer is call live untold told reads => exact hbind (h.orphans t) he
  | route event =>
    by_cases hrouted : event.id ∈ u.postman.routed event.task
    · rw [route_of_mem hrouted] at he
      exact h.orphans t e he
    · rw [orphans_route hrouted, List.mem_append] at he
      obtain he | hnew := he
      · exact h.orphans t e he
      · split at hnew
        · rename_i htask
          rw [List.mem_singleton.mp hnew, htask.1]
        · cases hnew
  | catchUp reading =>
    rw [orphans_catchUp] at he
    exact h.orphans t e he
  | fail is =>
    rw [GraphQLPostman.orphans, (failPending_tables _ _).2] at he
    exact h.orphans t e he
  | @finish _ id c outcome call live =>
    rw [GraphQLPostman.orphans, GraphQLPostman.cleanupReference] at he
    split at he
    · exact h.orphans t e he
    · simp only [Dict.get?_erase] at he
      split at he
      · cases he
      · exact h.orphans t e he
  | _ => exact h.orphans t e he

theorem reading_alters (h : u.Grounded) (ha : w.Alters act u u') {task : String}
    {read : TaskEvents} (hreading : u'.Reading task read) : read.id = task := by
  cases hreading with
  | call hc hphase =>
    cases ha with
    | register is new =>
      obtain ⟨-, rfl⟩ | ⟨-, hc⟩ := Dict.get?_set_eq_some.mp hc
      · cases hphase
      · exact h.reading task read (.call hc hphase)
    | @answer _ _ task' phase is call live untold told reads =>
      obtain ⟨-, rfl⟩ | ⟨-, hc⟩ := Dict.get?_set_eq_some.mp hc
      · change phase = _ at hphase
        rw [hphase] at told
        obtain rfl := Option.some.inj told
        exact absurd hphase (reads read)
      · exact h.reading task read (.call hc hphase)
    | hand is call phase queue =>
      obtain ⟨-, rfl⟩ | ⟨-, hc⟩ := Dict.get?_set_eq_some.mp hc
      · cases hphase
      · exact h.reading task read (.call hc hphase)
    | phase call live same reads =>
      obtain ⟨-, rfl⟩ | ⟨-, hc⟩ := Dict.get?_set_eq_some.mp hc
      · exact reads task read hphase
      · exact h.reading task read (.call hc hphase)
    | finish call live =>
      obtain ⟨-, rfl⟩ | ⟨-, hc⟩ := Dict.get?_set_eq_some.mp hc
      · cases hphase
      · exact h.reading task read (.call hc hphase)
    | _ => exact h.reading task read (.call hc hphase)
  | poll hpoll =>
    cases ha with
    | polls reads =>
      obtain hpoll | hread := reads _ task read hpoll
      · exact h.reading task read (.poll hpoll)
      · exact hread
    | _ => exact h.reading task read (.poll hpoll)
  | watch hwatch =>
    cases ha with
    | register is new =>
      split at hwatch
      · exact h.reading task read (.watch hwatch)
      · cases hwatch
    | watches before after reads => exact reads task _ read _ hwatch
    | fail is => cases hwatch
    | _ => exact h.reading task read (.watch hwatch)

theorem Grounded.alters (h : u.Grounded) (ha : w.Alters act u u') : u'.Grounded where
  owner := owner_alters h ha
  told _ _ := told_alters h ha
  orphans := orphans_alters h ha
  reading _ _ := reading_alters h ha

/-! ## Keeping calls apart

The condition is on what an event registers and binds. What the tables keep under it is shown of
every run.
-/

/-- A live call, with its reference and the task it was told. -/
def Holds (calls : Dict ℕ AssignCall) (id : ℕ) (reference : String) (task : Option String) : Prop :=
  ∃ c, calls.get? id = some c ∧ c.Live ∧ c.reference = reference ∧ c.task = task

/-- A call is registered under a reference that no live call has, and the task on record for it, if
there is one, is bound to it. A bind of a task to a reference finds no other task bound to that of
a live call, and the task not bound to that of another live call. -/
structure KeepsApart (w : PostmanWorld) (act : PostmanAct) : Prop where
  fresh : w.FreshReference act
  recorded : ∀ id reference escalate task, act = .assign id reference escalate →
    w.postman.referenceToTask.get? reference = some task →
    w.postman.taskToReference.get? task = some reference
  only : ∀ task reference, w.binding act = some (task, reference) → ∀ id o t,
    Holds w.calls id reference o → w.postman.taskToReference.get? t = some reference → t = task
  same : ∀ task reference, w.binding act = some (task, reference) → ∀ id r o,
    Holds w.calls id r o → w.postman.taskToReference.get? task = some r → r = reference

/-- What runs keep that keep the calls apart. -/
structure KeptApart (w : PostmanWorld) : Prop where
  grounded : w.Grounded
  apart : w.postman.Apart (Holds w.calls)
  handed : ∀ id c, w.calls.get? id = some c → ∀ e ∈ c.handed, c.task = some e.task

/-- A call that goes on holds what it held. -/
theorem holds_set {calls : Dict ℕ AssignCall} {c' : AssignCall} (hc : calls.get? id = some c)
    (hlive : c.Live) (href : c'.reference = c.reference) (htask : c'.task = c.task) {id' : ℕ}
    {r : String} {o : Option String} (h : Holds (calls.set id c') id' r o) :
    Holds calls id' r o := by
  obtain ⟨c₀, h₀, hlive₀, rfl, rfl⟩ := h
  obtain ⟨rfl, rfl⟩ | ⟨-, h₀⟩ := Dict.get?_set_eq_some.mp h₀
  · exact ⟨c, hc, hlive, href.symm, htask.symm⟩
  · exact ⟨c₀, h₀, hlive₀, rfl, rfl⟩

theorem Grounded.owner_holds (h : w.Grounded) (r : String) (q : ℕ) (r' : String)
    (o : Option String) (hq : w.postman.assUpdateQueues.get? r = some q)
    (ho : Holds w.calls q r' o) : r' = r := by
  obtain ⟨c, hc, -, rfl, -⟩ := ho
  obtain ⟨c', hc', rfl⟩ := h.owner r q hq
  exact congrArg AssignCall.reference (Option.some.inj (hc.symm.trans hc'))

theorem KeptApart.apart_alters (h : u.KeptApart) (hw : w.Grounded) (hkeeps : w.KeepsApart act)
    (ha : w.Alters act u u') : u'.postman.Apart (Holds u'.calls) := by
  have happart := h.apart
  have howner := h.grounded.owner_holds
  cases ha with
  | @register id reference escalate is new =>
    refine happart.register (fun t => hkeeps.recorded id reference escalate t is)
      fun id' r o ho => ?_
    obtain ⟨c, hc, hlive, rfl, rfl⟩ := ho
    obtain ⟨rfl, rfl⟩ | ⟨hne, hc⟩ := Dict.get?_set_eq_some.mp hc
    · exact Or.inl ⟨rfl, rfl, rfl⟩
    · have hfresh := hkeeps.fresh
      rw [is] at hfresh
      exact Or.inr ⟨hne, hfresh id' c hc hlive, c, hc, hlive, rfl, rfl⟩
  | note feedLive catchUpTasks =>
    exact ⟨happart.registered, happart.bound, happart.own, happart.back, happart.queued⟩
  | @bind u task reference is calls same =>
    refine happart.bind howner (h.grounded.orphans task) ?_ ?_ fun _ _ _ ho => Or.inl ho
    · rw [calls, same]
      exact hkeeps.only task reference is
    · rw [calls, same]
      exact hkeeps.same task reference is
  | route event => exact happart.route howner event
  | @catchUp u task read reading =>
    refine happart.catchUp howner fun e he => ?_
    obtain ⟨event, -, rfl⟩ := List.mem_map.mp he
    exact hw.reading task read reading
  | fail is =>
    have hflags : GraphQLPostman.Apart { w.postman with watching := false, feedLive := false }
        (Holds w.calls) :=
      ⟨happart.registered, happart.bound, happart.own, happart.back, happart.queued⟩
    refine hflags.of_same (fun _ _ _ ho => ho) (failPending_tables _ _).1 fun id r o _ e he => ?_
    rw [queued_failPending] at he
    exact Or.inl he
  | @answer id c task phase is call live untold told reads =>
    have hbinding : w.binding act = some (task, c.reference) := by
      rw [is]
      simp [binding, call]
    refine happart.bind howner (h.grounded.orphans task) (hkeeps.only _ _ hbinding)
      (hkeeps.same _ _ hbinding) fun id' r o ho => ?_
    obtain ⟨c₀, h₀, hlive₀, rfl, rfl⟩ := ho
    obtain ⟨rfl, rfl⟩ | ⟨-, h₀⟩ := Dict.get?_set_eq_some.mp h₀
    · exact Or.inr ⟨rfl, rfl, c.task, c, call, live, rfl, rfl⟩
    · exact Or.inl ⟨c₀, h₀, hlive₀, rfl, rfl⟩
  | pop is queue =>
    exact happart.of_same (fun _ _ _ ho => ho) ⟨rfl, rfl, rfl, rfl, rfl⟩
      fun _ _ _ _ _ he => Or.inl (queued_pop queue he)
  | hand is call phase queue =>
    exact happart.of_same
      (fun _ _ _ => holds_set call (live_of_phase phase (by rintro _ ⟨⟩)) (by rfl) (by rfl))
      ⟨rfl, rfl, rfl, rfl, rfl⟩ fun _ _ _ _ _ he => Or.inl (queued_pop queue he)
  | phase call live same reads =>
    exact happart.of_same (fun _ _ _ => holds_set call live (by rfl) (by rfl)) (SameTables.refl _)
      fun _ _ _ _ _ he => Or.inl he
  | @finish _ id c outcome call live =>
    refine happart.cleanupReference ⟨c, call, live, rfl, rfl⟩ fun id' r o ho => ?_
    obtain ⟨c₀, h₀, hlive₀, rfl, rfl⟩ := ho
    obtain ⟨rfl, rfl⟩ | ⟨hne, h₀⟩ := Dict.get?_set_eq_some.mp h₀
    · exact absurd rfl (hlive₀ outcome)
    · exact ⟨hne, c₀, h₀, hlive₀, rfl, rfl⟩
  | _ => exact happart

/-- What a call was handed are events of its own task. -/
theorem KeptApart.handed_alters (h : u.KeptApart) (ha : w.Alters act u u') (id : ℕ) (c : AssignCall)
    (hc : u'.calls.get? id = some c) : ∀ e ∈ c.handed, c.task = some e.task := by
  cases ha with
  | register is new =>
    obtain ⟨-, rfl⟩ | ⟨-, hc⟩ := Dict.get?_set_eq_some.mp hc
    · rintro e ⟨⟩
    · exact h.handed id c hc
  | answer is call live untold told reads =>
    obtain ⟨-, rfl⟩ | ⟨-, hc⟩ := Dict.get?_set_eq_some.mp hc
    · -- a call that was not told its task was handed nothing
      intro e he
      have htask := (h.grounded.told _ _ call live).symm.trans untold
      have hhanded := h.handed _ _ call e he
      rw [htask] at hhanded
      cases hhanded
    · exact h.handed id c hc
  | @hand _ id' c' task event items is call phase queue =>
    obtain ⟨-, rfl⟩ | ⟨-, hc⟩ := Dict.get?_set_eq_some.mp hc
    · have hlive : c'.Live := live_of_phase phase (by rintro _ ⟨⟩)
      have htask : c'.task = some task := by
        rw [← h.grounded.told _ _ call hlive, phase]
        rfl
      have hholds : Holds u.calls id' c'.reference (some task) := ⟨c', call, hlive, rfl, htask⟩
      intro e he
      rw [List.mem_append, List.mem_singleton] at he
      obtain he | rfl := he
      · exact h.handed _ _ call e he
      · have hbound := h.apart.queued id' _ _ hholds e
          (by rw [GraphQLPostman.queued, queue]; exact List.mem_cons_self)
        rw [h.apart.own id' _ task e.task hholds hbound]
        exact htask
    · exact h.handed id c hc
  | phase call live same reads =>
    obtain ⟨-, rfl⟩ | ⟨-, hc⟩ := Dict.get?_set_eq_some.mp hc
    · exact (h.handed _ _ call :)
    · exact h.handed id c hc
  | finish call live =>
    obtain ⟨-, rfl⟩ | ⟨-, hc⟩ := Dict.get?_set_eq_some.mp hc
    · exact (h.handed _ _ call :)
    · exact h.handed id c hc
  | _ => exact h.handed id c hc

theorem keptApart_step (h : w.KeptApart) (hkeeps : w.KeepsApart act) (hs : step w act = some w') :
    w'.KeptApart :=
  invariant_of_step h hs fun _ _ hu ha =>
    ⟨hu.grounded.alters ha, hu.apart_alters h.grounded hkeeps ha, hu.handed_alters ha⟩

theorem keptApart_start : start.KeptApart where
  grounded :=
    { owner := by rintro r q ⟨⟩
      told := by rintro id c ⟨⟩
      orphans := by rintro t e ⟨⟩
      reading := by rintro task read (⟨⟨⟩, -⟩ | ⟨⟨⟩⟩ | ⟨⟨⟩⟩) }
  apart :=
    { registered := by rintro id r o ⟨c, ⟨⟩, -⟩
      bound := by rintro id r t ⟨c, ⟨⟩, -⟩
      own := by rintro id r t t' ⟨c, ⟨⟩, -⟩
      back := by rintro id r o t ⟨c, ⟨⟩, -⟩
      queued := by rintro id r o ⟨c, ⟨⟩, -⟩ }
  handed := by rintro id c ⟨⟩

/-! ## Calls that are isolated -/

/-- The calls do not get in each other's way. What a call was handed is of its own task; a live
call's reference leads to its own queue; an event that is routed for a task of a live call, or for
one that is bound to it, goes to its queue; there it waits until the call takes an item, and a call
that streams is handed the event it takes. -/
structure Isolated (w : PostmanWorld) : Prop where
  handed : ∀ id c, w.calls.get? id = some c → ∀ e ∈ c.handed, c.task = some e.task
  queue : ∀ id c, w.calls.get? id = some c → c.Live →
    w.postman.assUpdateQueues.get? c.reference = some id
  reaches : ∀ id c, w.calls.get? id = some c → c.Live → ∀ e : TaskEventChange,
    c.task = some e.task ∨ w.postman.taskToReference.get? e.task = some c.reference →
    e.id ∉ w.postman.routed e.task →
    (w.postman.route e).queues id = w.postman.queues id ++ [.event e]
  waits : ∀ id c act w', w.calls.get? id = some c → w.step act = some w' → ¬ act.Takes id →
    eventIds (w.postman.queues id) ⊆ eventIds (w'.postman.queues id)
  takes : ∀ id c task e items, w.calls.get? id = some c → c.phase = .streaming task →
    w.postman.queues id = .event e :: items → ∃ w', w.step (.take id) = some w' ∧
      w'.calls.get? id = some { c with handed := c.handed ++ [e], phase := .suspended task }

/-- An event goes to the queue that its task is bound to. -/
theorem route_reaches {p : GraphQLPostman} {event : TaskEventChange}
    (hqueue : p.queueOf event.task = some id) (hnew : event.id ∉ p.routed event.task) :
    (p.route event).queues id = p.queues id ++ [.event event] := by
  have hsame : ∀ d, queueOf { p with routedEventIds := d } event.task = p.queueOf event.task :=
    fun _ => rfl
  rw [route, if_neg hnew]
  simp only [hsame, hqueue, put, Function.update_self]

theorem waits_step (hc : w.calls.get? id = some c) (htakes : ¬ act.Takes id)
    (hs : step w act = some w') :
    eventIds (w.postman.queues id) ⊆ eventIds (w'.postman.queues id) := by
  refine queue_step (R := fun a b => eventIds a ⊆ eventIds b)
    (fun _ _ _ => List.Subset.trans) ?_ (fun p task history => ?_) hc htakes hs
  · rintro _ _ ⟨items, rfl⟩
    simp [eventIds, List.filterMap_append]
  · exact eventIds_catchUp p task history id

theorem KeptApart.isolated (h : w.KeptApart) : w.Isolated where
  handed := h.handed
  queue id c hc hlive := h.apart.registered id c.reference c.task ⟨c, hc, hlive, rfl, rfl⟩
  reaches id c hc hlive e htask hnew := by
    refine route_reaches ?_ hnew
    have hbound : w.postman.taskToReference.get? e.task = some c.reference :=
      htask.elim (fun htask => h.apart.bound id _ _ ⟨c, hc, hlive, rfl, htask⟩) fun hbound => hbound
    rw [queueOf, hbound]
    exact h.apart.registered id c.reference c.task ⟨c, hc, hlive, rfl, rfl⟩
  waits _ _ _ _ hc hs htakes := waits_step hc htakes hs
  takes id c task e items hc hphase hqueue := by
    refine ⟨_, by simp only [step, hc, Option.bind_some, hphase, pop, hqueue, Option.map_some]; rfl,
      ?_⟩
    exact Dict.get?_set_eq_some.mpr (Or.inl ⟨rfl, rfl⟩)

/-- In every run whose events keep the calls apart, the calls are isolated in every state. -/
theorem calls_in_flight_isolated {acts : List PostmanAct}
    (hmeets : Meets step KeepsApart start acts) (hrun : exec step start acts = some w) :
    w.Isolated :=
  (exec_invariant_of_meets keptApart_start (fun _ _ _ h hkeeps hs => keptApart_step h hkeeps hs)
    hmeets hrun).isolated

/-- Two calls with references of their own, the first of which is handed an event. -/
def twoReferences : List PostmanAct :=
  [.assign 0 "r0" false, .assign 1 "r1" false, .create 0 "t", .create 1 "t1",
    .report (eventOf "e1"), .answer 0 "t", .answer 1 "t1", .read (.call 0),
    .readDone (.call 0) true, .take 0]

theorem calls_in_flight_isolated_twoReferences :
    ∃ w c, exec step start twoReferences = some w ∧ w.calls.get? 0 = some c ∧
      c.handed.length = 1 ∧ ∀ e ∈ c.handed, c.task = some e.task := by
  -- what neither registers a call nor binds a task
  have hquiet : ∀ {w : PostmanWorld} {act : PostmanAct}, w.binding act = none →
      (∀ id reference escalate, act ≠ .assign id reference escalate) → w.FreshReference act →
      w.KeepsApart act := by
    intro w act hbinding hassign hfresh
    refine ⟨hfresh, fun id reference escalate task is => absurd is (hassign _ _ _), ?_, ?_⟩
    · rw [hbinding]
      rintro task reference ⟨⟩
    · rw [hbinding]
      rintro task reference ⟨⟩
  have hmeets : Meets step KeepsApart start twoReferences := by
    refine meets_cons ⟨?_, ?_, ?_, ?_⟩ ?_
    · rintro id c ⟨⟩
    · rintro id reference escalate task ⟨⟩ ⟨⟩
    · rintro task reference ⟨⟩
    · rintro task reference ⟨⟩
    rintro w ⟨⟩
    refine meets_cons ⟨?_, ?_, ?_, ?_⟩ ?_
    · intro id c hc _
      obtain ⟨-, rfl⟩ | ⟨-, ⟨⟩⟩ := Dict.get?_set_eq_some.mp hc
      exact (by decide : "r0" ≠ "r1")
    · rintro id reference escalate task ⟨⟩ ⟨⟩
    · rintro task reference ⟨⟩
    · rintro task reference ⟨⟩
    rintro w ⟨⟩
    iterate 3
      refine meets_cons (hquiet rfl (by rintro _ _ _ ⟨⟩) trivial) ?_
      rintro w ⟨⟩
    refine meets_cons ⟨trivial, by rintro _ _ _ _ ⟨⟩, ?_, ?_⟩ ?_
    · rintro task reference hbinding id o t ho ⟨⟩
    · rintro task reference hbinding id r o ho ⟨⟩
    rintro w ⟨⟩
    refine meets_cons ⟨trivial, by rintro _ _ _ _ ⟨⟩, ?_, ?_⟩ ?_
    · intro task reference hbinding id o t ho ht
      obtain ⟨rfl, rfl⟩ := Prod.mk.inj (Option.some.inj hbinding)
      obtain ⟨-, href⟩ | ⟨-, ⟨⟩⟩ := Dict.get?_set_eq_some.mp ht
      exact absurd (show "r1" = "r0" from href) (by decide)
    · intro task reference hbinding id r o ho ht
      obtain ⟨rfl, rfl⟩ := Prod.mk.inj (Option.some.inj hbinding)
      cases ht
    rintro w ⟨⟩
    iterate 3
      refine meets_cons (hquiet rfl (by rintro _ _ _ ⟨⟩) trivial) ?_
      rintro w ⟨⟩
    exact meets_nil _
  obtain ⟨w, hw⟩ : ∃ w, exec step start twoReferences = some w := ⟨_, rfl⟩
  have hisolated := calls_in_flight_isolated hmeets hw
  obtain rfl := Option.some.inj hw
  exact ⟨_, _, rfl, rfl, rfl, hisolated.handed 0 _ rfl⟩

/-- Two calls are given one reference; an event of the first one's task is routed while both are in
flight. -/
def sharedReference : List PostmanAct :=
  [.assign 0 "r" false, .assign 1 "r" false, .subscribe, .create 0 "t", .create 1 "t1", .deliver,
    .deliver, .report (eventOf "e1"), .deliver, .answer 0 "t", .answer 1 "t1", .read (.call 1),
    .readDone (.call 1) true, .take 1]

/-- The second call replaces the queue of the first, and is handed the event of its task. -/
theorem shared_reference_mixes :
    ∃ w c₀ c₁, exec step start sharedReference = some w ∧ w.calls.get? 0 = some c₀ ∧
      w.calls.get? 1 = some c₁ ∧ c₀.Live ∧ c₀.task = some "t" ∧ c₁.task = some "t1" ∧
      c₁.handed.map TaskEventChange.task = ["t"] ∧
      w.postman.assUpdateQueues.get? c₀.reference = some 1 ∧ ¬ w.Isolated := by
  obtain ⟨w, hw⟩ : ∃ w, exec step start sharedReference = some w := ⟨_, rfl⟩
  obtain rfl := Option.some.inj hw
  refine ⟨_, _, _, hw, rfl, rfl, by rintro _ ⟨⟩, rfl, rfl, rfl, rfl, fun hisolated => ?_⟩
  have hqueue := hisolated.queue 0 _ rfl (by rintro _ ⟨⟩)
  cases hqueue

end PostmanWorld

end Rekuest
