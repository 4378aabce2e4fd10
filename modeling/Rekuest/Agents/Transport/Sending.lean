import Mathlib.Data.List.Nodup
import Rekuest.Agents.Transport.Websocket

/-!
# The sender loses and reorders nothing

What was completed, followed by the line, is what was enqueued and not discarded. The invariant
follows the frame through every point where a connection can end: still queued, in flight or held.
-/

namespace Rekuest

open Runs

namespace Transport

variable {φ : Type}

/-! ## What runs keep of the line

The line has the frame whose send is under way, or is to be repeated, in front of those queued.
Frames are numbered as they are enqueued; the completed ones followed by the line are in that order.
-/

/-- The first connection that can still send: the current one, unless its sender is gone. -/
def sendable (t : Transport φ) : ℕ :=
  match t.sender with
  | .off | .ended => t.connection + 1
  | _ => t.connection

/-- In enqueue order: strictly on one connection, and from one connection to a later one up to the
repetition of a frame. -/
def WireBefore (a b : ℕ × Queued φ) : Prop :=
  (a.1 = b.1 ∧ a.2.index < b.2.index) ∨ (a.1 < b.1 ∧ a.2.index ≤ b.2.index)

/-- The frames that were not discarded. -/
def notDiscarded (t : Transport φ) : List (Queued φ) :=
  t.enqueued.filter fun f => f.index ∉ t.discarded.map Queued.index

/-- What every run keeps of the outbound line. -/
structure InOrder (t : Transport φ) : Prop where
  order : t.completed ++ t.line = t.notDiscarded
  indices : t.enqueued.map Queued.index = List.range t.enqueued.length
  total : t.completed.length + t.discarded.length + t.line.length = t.enqueued.length
  unfinished : t.sendQueue.tasks.count = t.line.length
  apart : t.inFlight = none ∨ t.held = none
  wire : t.wire.Pairwise WireBefore
  wire_le : ∀ p ∈ t.wire, p.1 ≤ t.connection ∧ p.2 ∈ t.enqueued
  ahead : ∀ p ∈ t.wire, ∀ f ∈ t.line,
    p.2.index < f.index ∨ (p.2.index = f.index ∧ p.1 < t.sendable)
  onWire : ∀ f ∈ t.completed, ∃ c, (c, f) ∈ t.wire
  gone : ∀ f ∈ t.discarded, f ∈ t.enqueued

theorem inOrder_start : InOrder (start : Transport φ) where
  order := rfl
  indices := rfl
  total := rfl
  unfinished := rfl
  apart := Or.inl rfl
  wire := List.Pairwise.nil
  wire_le := by rintro p ⟨⟩
  ahead := by rintro p ⟨⟩
  onWire := by rintro f ⟨⟩
  gone := by rintro f ⟨⟩

/-- An event that moves frames within the line only, and lets no earlier connection send again,
keeps the order. -/
theorem InOrder.of_line_eq {t t' : Transport φ} (h : t.InOrder) (hline : t'.line = t.line)
    (hqueue : t'.sendQueue.tasks = t.sendQueue.tasks) (henqueued : t'.enqueued = t.enqueued)
    (hcompleted : t'.completed = t.completed) (hdiscarded : t'.discarded = t.discarded)
    (hwire : t'.wire = t.wire) (hconnection : t.connection ≤ t'.connection)
    (hsendable : t.sendable ≤ t'.sendable) (hapart : t'.inFlight = none ∨ t'.held = none) :
    t'.InOrder where
  order := by rw [hcompleted, hline, h.order, notDiscarded, notDiscarded, henqueued, hdiscarded]
  indices := by rw [henqueued, h.indices]
  total := by rw [hcompleted, hdiscarded, hline, henqueued, h.total]
  unfinished := by rw [hqueue, hline, h.unfinished]
  apart := hapart
  wire := by rw [hwire]; exact h.wire
  wire_le := by
    intro p hp
    rw [hwire] at hp
    rw [henqueued]
    exact ⟨(h.wire_le p hp).1.trans hconnection, (h.wire_le p hp).2⟩
  ahead := by
    intro p hp f hf
    rw [hwire] at hp
    rw [hline] at hf
    exact (h.ahead p hp f hf).imp_right fun h => ⟨h.1, h.2.trans_le hsendable⟩
  onWire := by rw [hcompleted, hwire]; exact h.onWire
  gone := by rw [hdiscarded, henqueued]; exact h.gone

/-- The indices of the line increase, and are above those of the completed frames. -/
theorem InOrder.pairwise_index {t : Transport φ} (h : t.InOrder) :
    (t.completed ++ t.line).Pairwise fun f g => f.index < g.index := by
  have hall : t.enqueued.Pairwise fun f g => f.index < g.index := by
    rw [← List.pairwise_map, h.indices]
    exact List.pairwise_lt_range
  rw [h.order]
  exact hall.filter _

theorem InOrder.mem_enqueued {t : Transport φ} (h : t.InOrder) {f : Queued φ}
    (hf : f ∈ t.line) : f ∈ t.enqueued := by
  have : f ∈ t.notDiscarded := h.order ▸ List.mem_append_right _ hf
  exact (List.mem_filter.mp this).1

theorem InOrder.index_lt {t : Transport φ} (h : t.InOrder) {f : Queued φ}
    (hf : f ∈ t.enqueued) : f.index < t.enqueued.length := by
  rw [← List.mem_range, ← h.indices]
  exact List.mem_map_of_mem hf

/-- A frame put on the wire next, by a connection that can send, is in order. -/
theorem InOrder.pairwise_wire_append {t : Transport φ} (h : t.InOrder) {f : Queued φ}
    (hf : f ∈ t.line) (hsendable : t.sendable = t.connection) :
    (t.wire ++ [(t.connection, f)]).Pairwise WireBefore := by
  rw [List.pairwise_append]
  refine ⟨h.wire, by simp, ?_⟩
  intro p hp q hq
  obtain rfl := List.mem_singleton.mp hq
  have hle := (h.wire_le p hp).1
  rcases h.ahead p hp f hf with hlt | ⟨heq, hlt⟩
  · rcases hle.lt_or_eq with hc | hc
    · exact Or.inr ⟨hc, hlt.le⟩
    · exact Or.inl ⟨hc, hlt⟩
  · exact Or.inr ⟨hsendable ▸ hlt, heq.le⟩

/-! ## Enqueueing, sending and sending again -/

/-- A frame is enqueued behind everything. -/
theorem line_delayaction (t : Transport φ) (frame : φ) :
    (t.delayaction frame).line = t.line ++ [⟨t.enqueued.length, frame⟩] := by
  simp [line, delayaction, inFlight]

theorem inOrder_delayaction {t : Transport φ} (h : t.InOrder) (frame : φ) :
    (t.delayaction frame).InOrder := by
  have hline := line_delayaction t frame
  have hnew : t.enqueued.length ∉ t.discarded.map Queued.index := by
    intro hmem
    obtain ⟨g, hg, hindex⟩ := List.mem_map.mp hmem
    exact (h.index_lt (h.gone g hg)).ne hindex
  have henqueued : (t.delayaction frame).enqueued
      = t.enqueued ++ [⟨t.enqueued.length, frame⟩] := rfl
  refine ⟨?_, ?_, ?_, ?_, h.apart, h.wire, ?_, ?_, h.onWire, ?_⟩
  · rw [hline, ← List.append_assoc, show (t.delayaction frame).completed = t.completed from rfl,
      h.order, notDiscarded, notDiscarded, henqueued, List.filter_append]
    congr 1
    refine (List.filter_eq_self.mpr fun g hg => ?_).symm
    obtain rfl := List.mem_singleton.mp hg
    exact decide_eq_true hnew
  · simp [henqueued, h.indices, List.range_succ]
  · have := h.total
    rw [hline, henqueued, List.length_append, List.length_append]
    change t.completed.length + t.discarded.length + _ = _
    simp only [List.length_singleton]
    omega
  · rw [hline, List.length_append, ← h.unfinished]
    rfl
  · intro p hp
    exact ⟨(h.wire_le p hp).1, List.mem_append_left _ (h.wire_le p hp).2⟩
  · intro p hp f hf
    rw [hline, List.mem_append, List.mem_singleton] at hf
    rcases hf with hf | rfl
    · exact h.ahead p hp f hf
    · exact Or.inl (h.index_lt (h.wire_le p hp).2)
  · intro f hf
    exact List.mem_append_left _ (h.gone f hf)

theorem inOrder_sent {t : Transport φ} (h : t.InOrder) {f : Queued φ}
    {queue : AsyncQueue (Queued φ)} (hsender : t.sender = .sending f)
    (hqueue : t.sendQueue.taskDone = some queue) :
    InOrder { t with
      sendQueue := queue
      sender := .looping
      wire := t.wireAfter f true
      completed := t.completed ++ [f] } := by
  obtain ⟨hitems, hcount⟩ := AsyncQueue.taskDone_eq_some hqueue
  have hflight : t.inFlight = some f := by rw [inFlight, hsender]
  -- the frame in flight is the head of the line
  have hline : t.line = f :: (t.held.toList ++ queue.items) := by
    rw [line, hflight, hitems]
    rfl
  have hf : f ∈ t.line := by rw [hline]; exact List.mem_cons_self
  have hsendable : t.sendable = t.connection := by rw [sendable, hsender]
  have hsorted := h.pairwise_index
  rw [hline, List.pairwise_append, List.pairwise_cons] at hsorted
  have hunfinished := h.unfinished
  have htotal := h.total
  have horder := h.order
  rw [hline] at horder hunfinished htotal
  have hahead := h.ahead
  rw [hline] at hahead
  have hwire : t.wireAfter f true = t.wire ++ [(t.connection, f)] := by simp [wireAfter]
  rw [hwire]
  refine ⟨?_, h.indices, ?_, ?_, Or.inl rfl, h.pairwise_wire_append hf hsendable, ?_, ?_, ?_,
    h.gone⟩
  · change (t.completed ++ [f]) ++ (t.held.toList ++ queue.items) = t.notDiscarded
    rw [← horder, List.append_assoc, List.singleton_append]
  · change (t.completed ++ [f]).length + t.discarded.length
      + (t.held.toList ++ queue.items).length = t.enqueued.length
    rw [List.length_cons] at htotal
    rw [List.length_append, List.length_singleton]
    omega
  · change queue.tasks.count = (t.held.toList ++ queue.items).length
    rw [List.length_cons] at hunfinished
    omega
  · intro p hp
    rcases List.mem_append.mp hp with hp | hp
    · exact h.wire_le p hp
    · obtain rfl := List.mem_singleton.mp hp
      exact ⟨le_rfl, h.mem_enqueued hf⟩
  · -- what is left in line comes after the frame in flight, which was its head
    intro p hp g hg
    have hg' : g ∈ t.held.toList ++ queue.items := hg
    rcases List.mem_append.mp hp with hp | hp
    · refine (hahead p hp g (List.mem_cons_of_mem _ hg')).imp_right fun hlast => ?_
      exact ⟨hlast.1, hsendable ▸ hlast.2⟩
    · obtain rfl := List.mem_singleton.mp hp
      exact Or.inl (hsorted.2.1.1 g hg')
  · intro g hg
    rcases List.mem_append.mp hg with hg | hg
    · obtain ⟨c, hc⟩ := h.onWire g hg
      exact ⟨c, List.mem_append_left _ hc⟩
    · obtain rfl := List.mem_singleton.mp hg
      exact ⟨t.connection, List.mem_append_right _ (List.mem_singleton_self _)⟩

/-- A send that did not complete leaves the line as it was, whether or not the socket took the
frame; that connection sends nothing more. -/
theorem inOrder_requeue {t : Transport φ} (h : t.InOrder) {f : Queued φ}
    (hsender : t.sender = .sending f) (accepted : Bool) {sender : Sender φ}
    (hgone : sender = .off ∨ sender = .ended) :
    InOrder { t.requeue f accepted with sender := sender } := by
  have hflight : t.inFlight = some f := by rw [inFlight, hsender]
  have hheld : t.held = none := h.apart.resolve_left (by rw [hflight]; exact Option.some_ne_none f)
  have hline : line { t.requeue f accepted with sender := sender } = t.line := by
    rw [line, line, hflight, hheld]
    rcases hgone with rfl | rfl <;> simp [inFlight, requeue]
  -- the sender is gone, so the next frame goes out on a later connection
  have hsendable : sendable { t.requeue f accepted with sender := sender } = t.connection + 1 := by
    rcases hgone with rfl | rfl <;> rfl
  have hbefore : t.sendable = t.connection := by rw [sendable, hsender]
  have hnone : inFlight { t.requeue f accepted with sender := sender } = none := by
    rcases hgone with rfl | rfl <;> rfl
  have hf : f ∈ t.line := by rw [line, hflight]; exact List.mem_append_left _ (by simp)
  cases accepted with
  | false =>
    refine ⟨?_, h.indices, ?_, ?_, Or.inl hnone, h.wire, h.wire_le, ?_, h.onWire, h.gone⟩
    · rw [hline]; exact h.order
    · rw [hline]; exact h.total
    · rw [hline]; exact h.unfinished
    · intro p hp g hg
      rw [hline] at hg
      rw [hsendable]
      exact (h.ahead p hp g hg).imp_right fun hlast => ⟨hlast.1, by omega⟩
  | true =>
    have hwire : wire { t.requeue f true with sender := sender }
        = t.wire ++ [(t.connection, f)] := by
      simp [requeue, wireAfter]
    refine ⟨?_, h.indices, ?_, ?_, Or.inl hnone, ?_, ?_, ?_, ?_, h.gone⟩
    · rw [hline]; exact h.order
    · rw [hline]; exact h.total
    · rw [hline]; exact h.unfinished
    · rw [hwire]
      exact h.pairwise_wire_append hf hbefore
    · rw [hwire]
      intro p hp
      rcases List.mem_append.mp hp with hp | hp
      · exact h.wire_le p hp
      · obtain rfl := List.mem_singleton.mp hp
        exact ⟨le_rfl, h.mem_enqueued hf⟩
    · -- the socket took the frame, and it is sent again, on a later connection
      rw [hwire, hline, hsendable]
      intro p hp g hg
      rcases List.mem_append.mp hp with hp | hp
      · exact (h.ahead p hp g hg).imp_right fun hlast => ⟨hlast.1, by omega⟩
      · obtain rfl := List.mem_singleton.mp hp
        have hsorted := h.pairwise_index
        rw [line, hflight, Option.toList_some, List.singleton_append, List.pairwise_append,
          List.pairwise_cons] at hsorted
        rw [line, hflight, Option.toList_some, List.singleton_append] at hg
        rcases List.mem_cons.mp hg with rfl | hg
        · exact Or.inr ⟨rfl, Nat.lt_succ_self _⟩
        · exact Or.inl (hsorted.2.1.1 g hg)
    · rw [hwire]
      intro g hg
      obtain ⟨c, hc⟩ := h.onWire g hg
      exact ⟨c, List.mem_append_left _ hc⟩

/-! ## Discarding the numbered frames

`discard_journaled` takes the whole queue apart and puts the unnumbered frames back, so the line
loses frames and keeps the order of the others.
-/

/-- Of frames in index order, those whose index is not among the numbered ones of the second part
are the first part and the second's unnumbered ones. -/
theorem filter_index_not_mem {numbered : φ → Bool} {l r : List (Queued φ)}
    (h : (l ++ r).Pairwise fun f g => f.index < g.index) :
    ((l ++ r).filter fun f => f.index ∉ (r.filter fun g => numbered g.frame).map Queued.index)
      = l ++ r.filter fun f => !numbered f.frame := by
  obtain ⟨-, hr, hlr⟩ := List.pairwise_append.mp h
  have hinj : ∀ f ∈ r, ∀ g ∈ r, f.index = g.index → f = g := fun f hf g hg =>
    List.inj_on_of_nodup_map (List.pairwise_map.mpr (hr.imp fun hlt => hlt.ne)) hf hg
  rw [List.filter_append]
  congr 1
  · refine List.filter_eq_self.mpr fun f hf => decide_eq_true fun hmem => ?_
    obtain ⟨g, hg, hindex⟩ := List.mem_map.mp hmem
    exact (hlr f hf g (List.mem_filter.mp hg).1).ne hindex.symm
  · refine List.filter_congr fun f hf => ?_
    cases hj : numbered f.frame with
    | true =>
      refine decide_eq_false (not_not.mpr ?_)
      exact List.mem_map.mpr ⟨f, List.mem_filter.mpr ⟨hf, hj⟩, rfl⟩
    | false =>
      refine decide_eq_true fun hmem => ?_
      obtain ⟨g, hg, hindex⟩ := List.mem_map.mp hmem
      obtain ⟨hg, hjg⟩ := List.mem_filter.mp hg
      rw [hinj g hg f hf hindex, hj] at hjg
      cases hjg

theorem inOrder_discardJournaled {numbered : φ → Bool} {t t' : Transport φ} (h : t.InOrder)
    {dropped : List (Queued φ)} (hd : Discarded numbered t t' dropped) : t'.InOrder := by
  obtain ⟨hkept, hdropped, hheld, hcount, hframe⟩ := hd
  have hflight : t'.inFlight = t.inFlight := by rw [hframe]; rfl
  have hcompleted : t'.completed = t.completed := by rw [hframe]
  have henqueued : t'.enqueued = t.enqueued := by rw [hframe]
  have hdiscarded : t'.discarded = t.discarded ++ dropped := by rw [hframe]
  have hwire : t'.wire = t.wire := by rw [hframe]
  have hconnection : t'.connection = t.connection := by rw [hframe]
  have hsendable : t'.sendable = t.sendable := by rw [hframe]; rfl
  have hline : t'.line = t.inFlight.toList
      ++ (t.held.toList ++ t.sendQueue.items).filter fun f => !numbered f.frame := by
    rw [line, hflight, hkept]
  have hsub : ∀ f ∈ t'.line, f ∈ t.line := by
    intro f hf
    rw [hline] at hf
    rcases List.mem_append.mp hf with hf | hf
    · exact List.mem_append_left _ hf
    · exact List.mem_append_right _ (List.mem_filter.mp hf).1
  -- what is dropped and what is kept make up the line
  have hlength : t'.line.length + dropped.length = t.line.length := by
    have := List.length_eq_length_filter_add (l := t.held.toList ++ t.sendQueue.items)
      fun f => numbered f.frame
    rw [hline, hdropped, line]
    simp only [List.length_append] at this ⊢
    omega
  have hunfinished := h.unfinished
  have htotal := h.total
  refine ⟨?_, ?_, ?_, ?_, ?_, ?_, ?_, ?_, ?_, ?_⟩
  · -- what is numbered of the held frame and the queue is what was discarded now
    have hsorted := h.pairwise_index
    rw [line, ← List.append_assoc] at hsorted
    rw [hcompleted, hline, ← List.append_assoc, ← filter_index_not_mem hsorted, ← hdropped,
      List.append_assoc, ← line, h.order, notDiscarded, notDiscarded, List.filter_filter,
      henqueued, hdiscarded]
    refine List.filter_congr fun f _ => ?_
    rw [List.map_append, ← Bool.decide_and]
    refine decide_eq_decide.mpr ?_
    rw [List.mem_append, not_or, and_comm]
  · rw [henqueued, h.indices]
  · rw [hcompleted, hdiscarded, henqueued, List.length_append]
    omega
  · omega
  · rw [hflight]
    refine h.apart.imp_right fun hnone => ?_
    cases hh : t'.held with
    | none => rfl
    | some f => rw [hheld f hh] at hnone; cases hnone
  · rw [hwire]
    exact h.wire
  · rw [hwire, hconnection, henqueued]
    exact h.wire_le
  · rw [hwire, hsendable]
    exact fun p hp f hf => h.ahead p hp f (hsub f hf)
  · rw [hcompleted, hwire]
    exact h.onWire
  · rw [hdiscarded, henqueued]
    intro f hf
    rcases List.mem_append.mp hf with hf | hf
    · exact h.gone f hf
    · rw [hdropped] at hf
      exact h.mem_enqueued (List.mem_append_right _ (List.mem_filter.mp hf).1)

/-- Discarding is always possible, and keeps the order. -/
theorem InOrder.exists_discardJournaled {t : Transport φ} (h : t.InOrder) (numbered : φ → Bool) :
    ∃ t' dropped, t.discardJournaled numbered = some t' ∧ Discarded numbered t t' dropped := by
  refine discardJournaled_eq numbered t ?_
  rw [h.unfinished]
  simp only [line, List.length_append]
  omega

/-! ## Every event, and every run -/

/-- Every event keeps the outbound line in order. -/
theorem inOrder_step {numbered : φ → Bool} {t t' : Transport φ} (h : t.InOrder)
    {act : TransportAct φ} (hs : t.step numbered act = some t') : t'.InOrder := by
  cases act with
  | delayaction frame =>
    obtain rfl := Option.some.inj hs
    exact inOrder_delayaction h frame
  | connect holds =>
    cases hsender : t.sender <;> simp only [step, hsender, reduceCtorEq, Option.some.injEq] at hs
    subst hs
    refine h.of_line_eq ?_ rfl rfl rfl rfl rfl (Nat.le_succ _) ?_ (Or.inl rfl)
    · simp [line, inFlight, hsender]
    · simp [sendable, hsender]
  | wake =>
    cases hsender : t.sender <;> simp only [step, hsender, reduceCtorEq] at hs
    rw [Option.ite_none_right_eq_some, Option.some.injEq] at hs
    obtain ⟨-, rfl⟩ := hs
    refine h.of_line_eq ?_ rfl rfl rfl rfl rfl le_rfl ?_ (Or.inl rfl)
    · simp [line, inFlight, hsender]
    · simp [sendable, hsender]
  | take =>
    cases hsender : t.sender <;> simp only [step, hsender, reduceCtorEq] at hs
    cases hheld : t.held with
    | some f =>
      simp only [hheld, Option.some.injEq] at hs
      subst hs
      refine h.of_line_eq ?_ rfl rfl rfl rfl rfl le_rfl ?_ (Or.inr rfl)
      · simp [line, inFlight, hsender, hheld]
      · simp [sendable, hsender]
    | none =>
      simp only [hheld, Option.map_eq_some_iff, Prod.exists] at hs
      obtain ⟨f, queue, hget, rfl⟩ := hs
      obtain ⟨hitems, htasks⟩ := AsyncQueue.getNowait_eq_some.mp hget
      refine h.of_line_eq ?_ htasks rfl rfl rfl rfl le_rfl ?_ (Or.inr rfl)
      · simp [line, inFlight, hsender, hheld, hitems]
      · simp [sendable, hsender]
  | sent =>
    cases hsender : t.sender <;> simp only [step, hsender, reduceCtorEq] at hs
    obtain ⟨queue, hqueue, rfl⟩ := Option.map_eq_some_iff.mp hs
    exact inOrder_sent h hsender hqueue
  | failed accepted =>
    cases hsender : t.sender <;> simp only [step, hsender, reduceCtorEq, Option.some.injEq] at hs
    subst hs
    exact inOrder_requeue h hsender accepted (Or.inr rfl)
  | drop accepted =>
    cases hsender : t.sender <;> simp only [step, hsender, reduceCtorEq, Option.some.injEq] at hs
    -- only a send that is under way leaves a frame to be repeated
    case sending f =>
      subst hs
      exact inOrder_requeue h hsender accepted (Or.inl rfl)
    all_goals
      subst hs
      refine h.of_line_eq ?_ rfl rfl rfl rfl rfl le_rfl ?_ (Or.inl rfl)
      · simp [line, inFlight, hsender]
      · simp [sendable, hsender]
  | discardJournaled =>
    obtain ⟨t₁, dropped, ht₁, hd⟩ := h.exists_discardJournaled numbered
    obtain rfl : t₁ = t' := Option.some.inj (ht₁.symm.trans hs)
    exact inOrder_discardJournaled h hd
  | releaseSends =>
    obtain rfl := Option.some.inj hs
    exact h.of_line_eq rfl rfl rfl rfl rfl rfl le_rfl le_rfl h.apart

/-- What goes on the wire is the frame in flight, on the current connection. -/
theorem step_wire {numbered : φ → Bool} {t t' : Transport φ} {act : TransportAct φ}
    (hs : t.step numbered act = some t') :
    t'.wire = t.wire ∨ ∃ f, t.sender = .sending f ∧ t'.wire = t.wire ++ [(t.connection, f)] := by
  have hafter : ∀ f accepted, t.sender = .sending f → t.wireAfter f accepted = t.wire
      ∨ ∃ g, t.sender = .sending g ∧ t.wireAfter f accepted = t.wire ++ [(t.connection, g)] := by
    intro f accepted hf
    cases accepted with
    | false => exact Or.inl rfl
    | true => exact Or.inr ⟨f, hf, rfl⟩
  cases act with
  | delayaction frame =>
    obtain rfl := Option.some.inj hs
    exact Or.inl rfl
  | connect holds =>
    cases hsender : t.sender <;> simp only [step, hsender, reduceCtorEq, Option.some.injEq] at hs
    subst hs
    exact Or.inl rfl
  | wake =>
    cases hsender : t.sender <;> simp only [step, hsender, reduceCtorEq] at hs
    rw [Option.ite_none_right_eq_some, Option.some.injEq] at hs
    obtain ⟨-, rfl⟩ := hs
    exact Or.inl rfl
  | take =>
    cases hsender : t.sender <;> simp only [step, hsender, reduceCtorEq] at hs
    cases hheld : t.held with
    | some f =>
      simp only [hheld, Option.some.injEq] at hs
      subst hs
      exact Or.inl rfl
    | none =>
      simp only [hheld, Option.map_eq_some_iff, Prod.exists] at hs
      obtain ⟨f, queue, -, rfl⟩ := hs
      exact Or.inl rfl
  | sent =>
    cases hsender : t.sender <;> simp only [step, hsender, reduceCtorEq] at hs
    obtain ⟨queue, -, rfl⟩ := Option.map_eq_some_iff.mp hs
    simpa only [hsender] using hafter _ true hsender
  | failed accepted =>
    cases hsender : t.sender <;> simp only [step, hsender, reduceCtorEq, Option.some.injEq] at hs
    subst hs
    simpa only [hsender, requeue] using hafter _ accepted hsender
  | drop accepted =>
    cases hsender : t.sender <;> simp only [step, hsender, reduceCtorEq, Option.some.injEq] at hs
    case sending f =>
      subst hs
      simpa only [hsender, requeue] using hafter f accepted hsender
    all_goals
      subst hs
      exact Or.inl rfl
  | discardJournaled => exact Or.inl (discardJournaled_frame hs).2.2.2
  | releaseSends =>
    obtain rfl := Option.some.inj hs
    exact Or.inl rfl

/-- After every run, over every number of connections: what was completed, followed by the frame
in flight, the held frame and the queue, is what was enqueued and not discarded; at most one frame
is in flight or held; the wire is in enqueue order up to repeating the last frame of a connection
as the first of a later one; and the queue's count is the number of frames neither completed nor
discarded, so that reporting a frame done never raises. -/
theorem sender_keeps_order (numbered : φ → Bool) (acts : List (TransportAct φ))
    (t : Transport φ) (hrun : exec (step numbered) start acts = some t) :
    t.completed ++ (t.inFlight.toList ++ (t.held.toList ++ t.sendQueue.items))
        = t.enqueued.filter (fun f => f.index ∉ t.discarded.map Queued.index) ∧
      t.enqueued.map Queued.index = List.range t.enqueued.length ∧
      (t.inFlight = none ∨ t.held = none) ∧
      (t.wire.Pairwise fun a b =>
        (a.1 = b.1 ∧ a.2.index < b.2.index) ∨ (a.1 < b.1 ∧ a.2.index ≤ b.2.index)) ∧
      (∀ f ∈ t.completed, ∃ c, (c, f) ∈ t.wire) ∧
      (∀ p ∈ t.wire, p.2 ∈ t.enqueued) ∧
      t.sendQueue.tasks.count + t.completed.length + t.discarded.length = t.enqueued.length ∧
      (∀ f, t.sender = .sending f → ∃ t', step numbered t .sent = some t') ∧
      ∃ t', step numbered t .discardJournaled = some t' := by
  have h : t.InOrder := exec_invariant inOrder_start (fun _ _ _ h hs => inOrder_step h hs) hrun
  refine ⟨h.order, h.indices, h.apart, h.wire, h.onWire, fun p hp => (h.wire_le p hp).2, ?_, ?_, ?_⟩
  · have hunfinished := h.unfinished
    have htotal := h.total
    omega
  · intro f hf
    have hpos : 0 < t.sendQueue.tasks.count := by
      rw [h.unfinished, line, inFlight, hf]
      simp
    obtain ⟨tasks, htasks⟩ := Unfinished.exists_taskDone hpos
    simp [step, hf, AsyncQueue.taskDone, htasks]
  · obtain ⟨t', -, ht', -⟩ := h.exists_discardJournaled numbered
    exact ⟨t', ht'⟩

/-- A drop inside the second frame's send, which the socket accepted; the next connection sends
the frame again. -/
def droppedInside : List (TransportAct String) :=
  [.delayaction "a", .delayaction "b", .connect false, .wake, .take, .sent, .take, .drop true,
    .connect false, .wake, .take, .sent]

theorem sender_keeps_order_droppedInside :
    ∃ t, exec (step fun _ => false) start droppedInside = some t ∧
      t.wire.map (fun p => (p.1, p.2.frame)) = [(1, "a"), (1, "b"), (2, "b")] ∧
      t.wire.Pairwise fun a b =>
        (a.1 = b.1 ∧ a.2.index < b.2.index) ∨ (a.1 < b.1 ∧ a.2.index ≤ b.2.index) := by
  obtain ⟨t, ht⟩ : ∃ t, exec (step fun _ => false) start droppedInside = some t := ⟨_, rfl⟩
  obtain ⟨-, -, -, hwire, -⟩ := sender_keeps_order _ droppedInside t ht
  refine ⟨t, ht, ?_, hwire⟩
  obtain rfl := Option.some.inj ht
  rfl

end Transport

end Rekuest
