import Rekuest.Client.Postman
import Rekuest.Lib.Backfill

/-!
# How a call follows its task

What the tables and the server are to one call, and how it stands there from its assign on: what it
knows of its task is what the feed delivered, until a read of the task's history put that in order,
and a prefix of the history from then on. Each event is a move of what the call sees.
-/

namespace Rekuest

open Backfill

/-- The key the events of a task are told apart by. -/
def TaskEventChange.key (event : TaskEventChange) : String := event.id

/-- What the tables and the server are to a call, for the task its assign created. -/
structure TaskView where
  /-- The events of the task. -/
  log : List TaskEventChange
  /-- How many of them came before the feed was subscribed. -/
  missed : ℕ
  /-- How many of them the feed will not deliver any more. -/
  delivered : ℕ
  live : Bool
  /-- `watch_tasks` has yet to catch the task up. -/
  behind : Bool
  bound : Bool
  routed : Finset String
  orphans : List TaskEventChange
  queued : List TaskEventChange

/-- How far a call that hands over events is. -/
inductive Stage
  | assigning
  /-- It waits for the read before the first event, and `read` is the answer. -/
  | reading (read : Option (List TaskEventChange))
  | streaming

namespace TaskView

/-- The events a call knows, with those it handed over. -/
def known (v : TaskView) (handed : List TaskEventChange) : List TaskEventChange :=
  handed ++ v.queued ++ v.orphans

/-- What holds of the server and its feed, whatever the call does. -/
structure Ok (v : TaskView) : Prop where
  nodup : (v.log.map TaskEventChange.key).Nodup
  missed : v.missed ≤ v.delivered
  delivered : v.delivered ≤ v.log.length
  waits : v.live = false ∨ v.behind = true → v.missed = v.delivered

/-- The known events are the first of the task, and all that were delivered once the task is caught
up. -/
def Ordered (v : TaskView) (known : List TaskEventChange) : Prop :=
  known <+: v.log ∧ (v.live = true → v.behind = false → v.delivered ≤ known.length)

/-- The known events are those the feed delivered. -/
def Fed (v : TaskView) (known : List TaskEventChange) : Prop :=
  ∃ missed, missed ++ known <+: v.log ∧ missed.length = v.missed ∧
    v.missed + known.length = v.delivered

/-- How a call stands that knows the events `known`. -/
def Stands (v : TaskView) (known : List TaskEventChange) : Stage → Prop
  | .assigning => v.Fed known ∧ v.behind = false ∧ (v.bound = true → v.live = true)
  | .reading read => v.bound = true ∧ (∀ r, read = some r → r <+: v.log) ∧
      (v.Ordered known ∨ v.Fed known ∧ v.live = true ∧ v.behind = false ∧
        ∀ r, read = some r → v.missed ≤ r.length)
  | .streaming => v.bound = true ∧ v.Ordered known

/-- What a call knows is what was routed for it, and it stands where its stage says. -/
structure Follows (v : TaskView) (handed : List TaskEventChange) (stage : Stage) : Prop where
  routed : ∀ k, k ∈ v.routed ↔ k ∈ (v.known handed).map TaskEventChange.key
  flushed : v.bound = true → v.orphans = []
  fresh : stage ≠ .streaming → handed = []
  stands : v.Stands (v.known handed) stage

variable {v : TaskView} {handed known : List TaskEventChange} {stage : Stage}

/-- A task nothing happened to, as its call sees it. -/
def fresh (live : Bool) : TaskView := ⟨[], 0, 0, live, false, false, ∅, [], []⟩

theorem follows_fresh (live : Bool) : (fresh live).Follows [] .assigning where
  routed := by simp [fresh, TaskView.known]
  flushed := by rintro ⟨⟩
  fresh := fun _ => rfl
  stands := ⟨⟨[], List.nil_prefix, rfl, rfl⟩, rfl, by rintro ⟨⟩⟩

theorem Fed.ordered (h : v.Fed known) (hzero : v.missed = 0) : v.Ordered known := by
  obtain ⟨missed, hpre, hlength, hdelivered⟩ := h
  obtain rfl : missed = [] := List.length_eq_zero_iff.mp (hlength.trans hzero)
  exact ⟨hpre, fun _ _ => by omega⟩

/-- Nothing is known while the feed has delivered nothing. -/
theorem Fed.eq_nil (h : v.Fed known) (heq : v.missed = v.delivered) : known = [] := by
  obtain ⟨-, -, -, hdelivered⟩ := h
  exact List.length_eq_zero_iff.mp (by omega)

/-! ## The server's moves -/

/-- The task reports an event: a subscribed feed will deliver it, another one misses it. -/
def report (v : TaskView) (event : TaskEventChange) (subscribed : Bool) : TaskView :=
  { v with
    log := v.log ++ [event]
    missed := if subscribed then v.missed else v.log.length + 1
    delivered := if subscribed then v.delivered else v.log.length + 1 }

theorem Ordered.report (h : v.Ordered known) (event : TaskEventChange) {subscribed : Bool}
    (hlive : v.live = true → subscribed = true) : (v.report event subscribed).Ordered known := by
  refine ⟨h.1.trans (List.prefix_append _ _), fun hl hb => ?_⟩
  rw [TaskView.report, hlive hl]
  exact h.2 hl hb

theorem Fed.report (hok : v.Ok) (h : v.Fed known) (event : TaskEventChange) {subscribed : Bool}
    (hlive : v.live = true → subscribed = true) : (v.report event subscribed).Fed known := by
  cases subscribed with
  | true =>
    obtain ⟨missed, hpre, hlength, hdelivered⟩ := h
    exact ⟨missed, hpre.trans (List.prefix_append _ _), hlength, hdelivered⟩
  | false =>
    have hdead : v.live = false := by
      cases hl : v.live with
      | false => rfl
      | true => exact absurd (hlive hl) Bool.false_ne_true
    obtain rfl := h.eq_nil (hok.waits (Or.inl hdead))
    exact ⟨v.log ++ [event], by simp [TaskView.report], by simp [TaskView.report],
      by simp [TaskView.report]⟩

theorem Follows.report (hok : v.Ok) (h : v.Follows handed stage) (event : TaskEventChange)
    {subscribed : Bool} (hlive : v.live = true → subscribed = true) :
    (v.report event subscribed).Follows handed stage := by
  refine ⟨h.routed, h.flushed, h.fresh, ?_⟩
  have hs := h.stands
  cases stage with
  | assigning => exact ⟨Fed.report hok hs.1 event hlive, hs.2⟩
  | reading read =>
    obtain ⟨hbound, hread, hknown⟩ := hs
    refine ⟨hbound, fun r hr => (hread r hr).trans (List.prefix_append _ _), ?_⟩
    rcases hknown with hknown | ⟨hfed, hl, hb, hmissed⟩
    · exact Or.inl (hknown.report event hlive)
    · refine Or.inr ⟨Fed.report hok hfed event hlive, hl, hb, ?_⟩
      rw [TaskView.report, hlive hl]
      exact hmissed
  | streaming => exact ⟨hs.1, hs.2.report event hlive⟩

/-- The feed comes alive: `watch_tasks` has to catch every bound task up. -/
theorem Follows.goLive (h : v.Follows handed stage) (hdead : v.live = false) :
    { v with live := true, behind := v.bound }.Follows handed stage := by
  refine ⟨h.routed, h.flushed, h.fresh, ?_⟩
  have hs := h.stands
  cases stage with
  | assigning =>
    have hbound : v.bound = false := by
      cases hb : v.bound with
      | false => rfl
      | true => exact absurd (hs.2.2 hb) (by simp [hdead])
    exact ⟨hs.1, hbound, fun _ => rfl⟩
  | reading read =>
    obtain ⟨hbound, hread, hknown⟩ := hs
    refine ⟨hbound, hread, Or.inl ?_⟩
    rcases hknown with hknown | ⟨-, hl, -⟩
    · exact ⟨hknown.1, fun _ hb => absurd hb (by simp [hbound])⟩
    · exact absurd hl (by simp [hdead])
  | streaming => exact ⟨hs.1, hs.2.1, fun _ hb => absurd hb (by simp [hs.1])⟩

/-- The feed delivers an event of the task. -/
def deliver (v : TaskView) (event : TaskEventChange) : TaskView :=
  if event.key ∈ v.routed then { v with delivered := v.delivered + 1 }
  else { v with
    delivered := v.delivered + 1
    routed := insert event.key v.routed
    queued := if v.bound then v.queued ++ [event] else v.queued
    orphans := if v.bound then v.orphans else v.orphans ++ [event] }

/-- What the task reported, when the feed delivers `event` next. -/
def Next (v : TaskView) (event : TaskEventChange) : Prop :=
  ∃ done pending, v.log = done ++ event :: pending ∧ done.length = v.delivered

theorem Ordered.deliver (hok : v.Ok) {event : TaskEventChange} (hnext : v.Next event)
    (h : v.Ordered known) (hlive : v.live = true) (hbehind : v.behind = false) :
    (event.key ∈ known.map TaskEventChange.key → v.delivered + 1 ≤ known.length) ∧
      (event.key ∉ known.map TaskEventChange.key → known ++ [event] <+: v.log ∧
        v.delivered + 1 ≤ (known ++ [event]).length) := by
  obtain ⟨done, pending, hlog, hdone⟩ := hnext
  have hle := h.2 hlive hbehind
  obtain ⟨hold, hnew⟩ := delivered_of_ordered hok.nodup hlog h.1 (hdone ▸ hle)
  refine ⟨fun hmem => ?_, fun hmem => ?_⟩
  · have hlt := hold hmem
    omega
  · obtain rfl := hnew hmem
    exact ⟨⟨pending, by rw [hlog]; simp⟩, by simp [hdone]⟩

theorem Fed.deliver (hok : v.Ok) {event : TaskEventChange} (hnext : v.Next event)
    (h : v.Fed known) : event.key ∉ known.map TaskEventChange.key ∧
      ∃ missed, missed ++ (known ++ [event]) <+: v.log ∧ missed.length = v.missed ∧
        v.missed + (known ++ [event]).length = v.delivered + 1 := by
  obtain ⟨done, pending, hlog, hdone⟩ := hnext
  obtain ⟨missed, hpre, hlength, hdelivered⟩ := h
  have hle : done.length ≤ (missed ++ known).length := by simp; omega
  obtain ⟨hold, hnew⟩ := delivered_of_ordered hok.nodup hlog hpre hle
  have hmem : event.key ∉ (missed ++ known).map TaskEventChange.key := fun hmem => by
    have hlt := hold hmem
    simp at hlt
    omega
  refine ⟨fun hin => hmem (by rw [List.map_append]; exact List.mem_append_right _ hin), missed, ?_,
    hlength, by simp; omega⟩
  rw [← List.append_assoc, hnew hmem]
  exact ⟨pending, by rw [hlog]; simp⟩

/-- What is known after a delivery: with the event, if it was not. -/
theorem known_deliver (handed : List TaskEventChange)
    (hflushed : v.bound = true → v.orphans = []) (event : TaskEventChange) :
    (v.deliver event).known handed
      = if event.key ∈ v.routed then v.known handed else v.known handed ++ [event] := by
  rw [TaskView.deliver]
  split
  · rfl
  · cases hb : v.bound with
    | false => simp [TaskView.known]
    | true => simp [TaskView.known, hflushed hb]

theorem Follows.deliver (hok : v.Ok) (h : v.Follows handed stage) {event : TaskEventChange}
    (hnext : v.Next event) (hlive : v.live = true) (hbehind : v.behind = false) :
    (v.deliver event).Follows handed stage := by
  have hknown := known_deliver handed h.flushed event
  have hs := h.stands
  by_cases hmem : event.key ∈ v.routed
  · -- known already: only what the feed will deliver changes
    have hin := (h.routed _).mp hmem
    rw [if_pos hmem] at hknown
    have heq : v.deliver event = { v with delivered := v.delivered + 1 } := if_pos hmem
    rw [heq] at hknown ⊢
    have hordered : v.Ordered (v.known handed) →
        Ordered { v with delivered := v.delivered + 1 } (v.known handed) := fun ho =>
      ⟨ho.1, fun _ _ => (ho.deliver hok hnext hlive hbehind).1 hin⟩
    refine ⟨h.routed, h.flushed, h.fresh, ?_⟩
    cases stage with
    | assigning => exact absurd hin (Fed.deliver hok hnext hs.1).1
    | reading read =>
      obtain ⟨hbound, hread, hwhich⟩ := hs
      refine ⟨hbound, hread, ?_⟩
      rcases hwhich with hwhich | ⟨hfed, -⟩
      · exact Or.inl (hordered hwhich)
      · exact absurd hin (Fed.deliver hok hnext hfed).1
    | streaming => exact ⟨hs.1, hordered hs.2⟩
  · -- New: it comes last, in the queue if the task is bound and among the orphans if not
    have hnew : event.key ∉ (v.known handed).map TaskEventChange.key :=
      fun hin => hmem ((h.routed _).mpr hin)
    rw [if_neg hmem] at hknown
    have heq : v.deliver event = { v with
        delivered := v.delivered + 1
        routed := insert event.key v.routed
        queued := if v.bound then v.queued ++ [event] else v.queued
        orphans := if v.bound then v.orphans else v.orphans ++ [event] } := if_neg hmem
    have hfields : (v.deliver event).log = v.log ∧ (v.deliver event).missed = v.missed ∧
        (v.deliver event).delivered = v.delivered + 1 ∧ (v.deliver event).live = v.live ∧
        (v.deliver event).behind = v.behind ∧ (v.deliver event).bound = v.bound := by
      rw [heq]
      exact ⟨rfl, rfl, rfl, rfl, rfl, rfl⟩
    obtain ⟨hlog, hmissed, hdelivered, hl, hb, hbound'⟩ := hfields
    have hordered : v.Ordered (v.known handed) →
        (v.deliver event).Ordered (v.known handed ++ [event]) := fun ho => by
      obtain ⟨hpre, hle⟩ := (ho.deliver hok hnext hlive hbehind).2 hnew
      exact ⟨hlog ▸ hpre, fun _ _ => hdelivered ▸ hle⟩
    have hfed : v.Fed (v.known handed) →
        (v.deliver event).Fed (v.known handed ++ [event]) := fun hf => by
      obtain ⟨-, missed, hpre, hlength, hle⟩ := Fed.deliver hok hnext hf
      exact ⟨missed, hlog ▸ hpre, hmissed ▸ hlength, by rw [hmissed, hdelivered, hle]⟩
    refine ⟨fun k => ?_, fun hbound => ?_, h.fresh, ?_⟩
    · rw [hknown, List.map_append, List.mem_append, ← h.routed, heq]
      simp [or_comm]
    · have hbound : v.bound = true := hbound' ▸ hbound
      rw [heq]
      simp [hbound, h.flushed hbound]
    · rw [hknown]
      cases stage with
      | assigning => exact ⟨hfed hs.1, hb ▸ hs.2.1, by rw [hbound', hl]; exact hs.2.2⟩
      | reading read =>
        obtain ⟨hbound, hread, hwhich⟩ := hs
        refine ⟨hbound' ▸ hbound, by rw [hlog]; exact hread, ?_⟩
        rcases hwhich with hwhich | ⟨hf, hl', hb', hr⟩
        · exact Or.inl (hordered hwhich)
        · exact Or.inr ⟨hfed hf, hl ▸ hl', hb ▸ hb', by rw [hmissed]; exact hr⟩
      | streaming => exact ⟨hbound' ▸ hs.1, hordered hs.2⟩

/-! ## Binding and reading -/

/-- The task is bound to the call's reference. -/
def bind (v : TaskView) : TaskView :=
  { v with bound := true, queued := v.queued ++ v.orphans, orphans := [] }

@[simp] theorem known_bind (handed : List TaskEventChange) :
    v.bind.known handed = v.known handed := by
  simp [TaskView.bind, TaskView.known]

/-- The feed's `create` binds the task. -/
theorem Follows.bind (h : v.Follows handed stage) (hlive : v.live = true) :
    v.bind.Follows handed stage := by
  refine ⟨by rw [known_bind]; exact h.routed, fun _ => rfl, h.fresh, ?_⟩
  rw [known_bind]
  have hs := h.stands
  cases stage with
  | assigning => exact ⟨hs.1, hs.2.1, fun _ => hlive⟩
  | reading read => exact ⟨rfl, hs.2⟩
  | streaming => exact ⟨rfl, hs.2⟩

/-- The assign's answer binds the task, and the call goes on to read its history. -/
theorem Follows.answer (hok : v.Ok) (h : v.Follows handed .assigning) :
    v.bind.Follows handed (.reading none) := by
  refine ⟨by rw [known_bind]; exact h.routed, fun _ => rfl, fun _ => h.fresh (by rintro ⟨⟩), ?_⟩
  rw [known_bind]
  obtain ⟨hfed, hbehind, -⟩ := h.stands
  refine ⟨rfl, by rintro r ⟨⟩, ?_⟩
  cases hlive : v.live with
  | true => exact Or.inr ⟨hfed, hlive, hbehind, by rintro r ⟨⟩⟩
  | false =>
    rw [hfed.eq_nil (hok.waits (Or.inl hlive))]
    exact Or.inl ⟨List.nil_prefix, fun hl => absurd (hlive.symm.trans hl) Bool.false_ne_true⟩

/-- The assign's answer binds the task of a call that began on a live feed. -/
theorem Follows.answerLive (h : v.Follows handed .assigning) (hmissed : v.missed = 0) :
    v.bind.Follows handed .streaming := by
  refine ⟨by rw [known_bind]; exact h.routed, fun _ => rfl, fun hne => absurd rfl hne, ?_⟩
  rw [known_bind]
  exact ⟨rfl, h.stands.1.ordered hmissed⟩

/-- The server answers the read before the first event. -/
theorem Follows.read (hok : v.Ok) (h : v.Follows handed (.reading none)) :
    v.Follows handed (.reading (some v.log)) := by
  obtain ⟨hbound, -, hwhich⟩ := h.stands
  refine ⟨h.routed, h.flushed, fun _ => h.fresh (by rintro ⟨⟩), hbound, ?_, ?_⟩
  · rintro r ⟨⟩
    exact List.prefix_refl _
  · refine hwhich.imp_right fun ⟨hfed, hlive, hbehind, _⟩ => ⟨hfed, hlive, hbehind, ?_⟩
    rintro r ⟨⟩
    exact hok.missed.trans hok.delivered

/-- A read is put in front of what waits. -/
def merge (v : TaskView) (handed read : List TaskEventChange) : TaskView :=
  { v with
    routed := v.routed ∪ ((read.filter fun event =>
      event.key ∉ handed.map TaskEventChange.key).map TaskEventChange.key).toFinset
    queued := backfill TaskEventChange.key handed read v.queued }

theorem routed_merge (h : v.Follows handed stage) (hbound : v.bound = true)
    (read : List TaskEventChange) (k : String) : k ∈ (v.merge handed read).routed ↔
      k ∈ ((v.merge handed read).known handed).map TaskEventChange.key := by
  have hflushed := h.flushed hbound
  have hrouted := h.routed k
  simp only [TaskView.known, TaskView.merge, hflushed, List.append_nil, List.map_append,
    List.mem_append] at hrouted ⊢
  have hbackfill : k ∈ (handed ++ backfill TaskEventChange.key handed read v.queued).map
      TaskEventChange.key ↔ k ∈ handed.map TaskEventChange.key ∨ k ∈ read.map TaskEventChange.key ∨
        k ∈ v.queued.map TaskEventChange.key := mem_keys_backfill
  rw [List.map_append, List.mem_append] at hbackfill
  rw [hbackfill, Finset.mem_union, hrouted, List.mem_toFinset]
  constructor
  · rintro ((hin | hin) | hin)
    · exact Or.inl hin
    · exact Or.inr (Or.inr hin)
    · obtain ⟨event, hevent, rfl⟩ := List.mem_map.mp hin
      exact Or.inr (Or.inl (List.mem_map_of_mem (List.mem_filter.mp hevent).1))
  · rintro (hin | hin | hin)
    · exact Or.inl (Or.inl hin)
    · by_cases htaken : k ∈ handed.map TaskEventChange.key
      · exact Or.inl (Or.inl htaken)
      · obtain ⟨event, hevent, rfl⟩ := List.mem_map.mp hin
        exact Or.inr (List.mem_map_of_mem (List.mem_filter.mpr ⟨hevent, by simpa using htaken⟩))
    · exact Or.inl (Or.inr hin)

/-- Ordered events stay so, none is dropped, and none of the read is missing. -/
theorem Ordered.merge (hok : v.Ok) (hflushed : v.orphans = []) {read : List TaskEventChange}
    (h : v.Ordered (v.known handed)) (hread : read <+: v.log) :
    (v.merge handed read).known handed <+: v.log ∧
      (v.known handed).length ≤ ((v.merge handed read).known handed).length ∧
      read.length ≤ ((v.merge handed read).known handed).length := by
  obtain ⟨hpre, -⟩ := h
  simp only [TaskView.known, TaskView.merge, hflushed, List.append_nil] at hpre ⊢
  rw [backfill_of_ordered hok.nodup hpre hread]
  split
  · rename_i hle
    exact ⟨hpre, le_rfl, hle⟩
  · rename_i hlt
    exact ⟨hread, (lt_of_not_ge hlt).le, le_rfl⟩

/-- A read that has what the feed missed closes the gap. -/
theorem Fed.merge (hok : v.Ok) (hflushed : v.orphans = []) {read : List TaskEventChange}
    (h : v.Fed (v.known [])) (hread : read <+: v.log) (hmissed : v.missed ≤ read.length) :
    (v.merge [] read).known [] <+: v.log ∧
      v.delivered ≤ ((v.merge [] read).known []).length := by
  obtain ⟨missed, hpre, hlength, hdelivered⟩ := h
  simp only [TaskView.known, TaskView.merge, hflushed, List.append_nil, List.nil_append] at *
  rw [backfill_of_gap hok.nodup hpre hread (hlength ▸ hmissed)]
  have hknown : (missed ++ v.queued).length = v.delivered := by
    rw [List.length_append, hlength, hdelivered]
  split
  · exact ⟨hpre, hknown.ge⟩
  · rename_i hlt
    exact ⟨hread, by omega⟩

/-- A call's own read puts the events in order, and the call goes on to take them. -/
theorem Follows.readDone (hok : v.Ok) {read : List TaskEventChange}
    (h : v.Follows handed (.reading (some read))) :
    (v.merge handed read).Follows handed .streaming := by
  obtain ⟨hbound, hread, hwhich⟩ := h.stands
  have hpre := hread read rfl
  have hflushed := h.flushed hbound
  refine ⟨routed_merge h hbound read, fun _ => hflushed, fun hne => absurd rfl hne, hbound, ?_⟩
  rcases hwhich with hordered | ⟨hfed, -, -, hmissed⟩
  · obtain ⟨hmerged, hkept, -⟩ := hordered.merge hok hflushed hpre
    exact ⟨hmerged, fun hl hb => (hordered.2 hl hb).trans hkept⟩
  · obtain rfl := h.fresh (by rintro ⟨⟩)
    obtain ⟨hmerged, hle⟩ := hfed.merge hok hflushed hpre (hmissed read rfl)
    exact ⟨hmerged, fun _ _ => hle⟩

/-- A late read changes no order. -/
theorem Follows.polled (hok : v.Ok) {read : List TaskEventChange}
    (h : v.Follows handed .streaming) (hread : read <+: v.log) :
    (v.merge handed read).Follows handed .streaming := by
  obtain ⟨hbound, hordered⟩ := h.stands
  have hflushed := h.flushed hbound
  obtain ⟨hmerged, hkept, -⟩ := hordered.merge hok hflushed hread
  exact ⟨routed_merge h hbound read, fun _ => hflushed, fun hne => absurd rfl hne, hbound, hmerged,
    fun hl hb => (hordered.2 hl hb).trans hkept⟩

/-- `watch_tasks` catches the task up, before anything was delivered. -/
theorem Follows.caughtUp (hok : v.Ok) {read : List TaskEventChange} (h : v.Follows handed stage)
    (hbound : v.bound = true) (hbehind : v.behind = true) (hread : read <+: v.log)
    (hmissed : v.missed ≤ read.length) :
    { v.merge handed read with behind := false }.Follows handed stage := by
  have hflushed := h.flushed hbound
  have hwaits := hok.waits (Or.inr hbehind)
  have hmerge : v.Ordered (v.known handed) → Ordered { v.merge handed read with behind := false }
      ((v.merge handed read).known handed) := fun ho => by
    obtain ⟨hmerged, -, hle⟩ := ho.merge hok hflushed hread
    exact ⟨hmerged, fun _ _ => (hwaits ▸ hmissed).trans hle⟩
  refine ⟨routed_merge h hbound read, fun _ => hflushed, h.fresh, ?_⟩
  have hs := h.stands
  cases stage with
  | assigning => exact absurd (hbehind.symm.trans hs.2.1) (by simp)
  | reading snapshot =>
    obtain ⟨-, hsnapshot, hwhich⟩ := hs
    refine ⟨hbound, hsnapshot, Or.inl ?_⟩
    rcases hwhich with ho | ⟨-, -, hb, -⟩
    · exact hmerge ho
    · exact absurd (hbehind.symm.trans hb) (by simp)
  | streaming => exact ⟨hbound, hmerge hs.2⟩

/-- The call takes the first event that waits. -/
theorem Follows.take {event : TaskEventChange} {queued : List TaskEventChange}
    (h : v.Follows handed .streaming) (hqueued : v.queued = event :: queued) :
    { v with queued := queued }.Follows (handed ++ [event]) .streaming := by
  have hknown : { v with queued := queued }.known (handed ++ [event]) = v.known handed := by
    simp [TaskView.known, hqueued]
  refine ⟨by rw [hknown]; exact h.routed, h.flushed, fun hne => absurd rfl hne, h.stands.1, ?_⟩
  rw [hknown]
  exact h.stands.2

/-- No event is known twice. -/
theorem Follows.nodup (hok : v.Ok) (h : v.Follows handed stage) :
    ((v.known handed).map TaskEventChange.key).Nodup := by
  have hordered : v.Ordered (v.known handed) → ((v.known handed).map TaskEventChange.key).Nodup :=
    fun ho => nodup_keys_of_first hok.nodup ho.1
  have hfed : v.Fed (v.known handed) → ((v.known handed).map TaskEventChange.key).Nodup := by
    rintro ⟨missed, hpre, -⟩
    exact (nodup_keys_of_first hok.nodup hpre).sublist
      ((List.sublist_append_right _ _).map TaskEventChange.key)
  have hs := h.stands
  cases stage with
  | assigning => exact hfed hs.1
  | reading read => exact hs.2.2.elim hordered fun hf => hfed hf.1
  | streaming => exact hordered hs.2

/-- What a call that follows its task handed over is what the task reported first. -/
theorem Follows.handed_first (h : v.Follows handed stage) : handed <+: v.log := by
  cases stage with
  | streaming =>
    refine List.IsPrefix.trans ?_ h.stands.2.1
    rw [TaskView.known, List.append_assoc]
    exact List.prefix_append _ _
  | assigning | reading _ =>
    rw [h.fresh (by rintro ⟨⟩)]
    exact List.nil_prefix

end TaskView

end Rekuest
