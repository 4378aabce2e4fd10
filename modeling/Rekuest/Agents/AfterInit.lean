import Rekuest.Agents.Agent
import Rekuest.Agents.Transport.Websocket

/-!
# After an Init

What the agent does to the outbound line once the server's `Init` says it is listening: the queued
frames with a position are dropped, every retained frame is sent again in order, and the
connection may send.
-/

namespace Rekuest

open Runs

/-- `journaled`: the frame's JSON is an object with a `pos` that is not null. -/
def journaled (loads : String → Option Json) (frame : String) : Bool :=
  match loads frame with
  | some (.obj fields) =>
    match Json.field fields "pos" with
    | none | some .null => false
    | some _ => true
  | _ => false

/-- `_aafter_init` up to the release, with the frames re-sent in between. -/
def aafterInit {φ : Type} (resent : List φ) : List (TransportAct φ) :=
  .discardJournaled :: (resent.map .delayaction ++ [.releaseSends])

/-- `_aresend_retained`: what the agent re-sends, as serialized by `asend`. -/
def RekuestAgent.aresendRetained (codec : FrameCodec) (a : RekuestAgent) : List String :=
  a.resendOrder.filterMap fun key => (a.retained.get? key).map codec.dump

namespace Transport

variable {φ : Type} {numbered : φ → Bool}

/-- Enqueueing frames appends them to the line, and nothing else happens. -/
theorem exec_delayaction (numbered : φ → Bool) (l : List φ) (t : Transport φ) :
    ∃ t', exec (step numbered) t (l.map .delayaction) = some t' ∧
      (∃ new, t'.sendQueue.items = t.sendQueue.items ++ new ∧ new.map Queued.frame = l) ∧
      t'.sendQueue.tasks.count = t.sendQueue.tasks.count + l.length ∧
      t'.held = t.held ∧ t'.sender = t.sender ∧ t'.released = t.released ∧
      t'.connection = t.connection ∧ t'.wire = t.wire := by
  induction l generalizing t with
  | nil => exact ⟨t, rfl, ⟨[], by simp⟩, rfl, rfl, rfl, rfl, rfl, rfl⟩
  | cons frame l ih =>
    obtain ⟨t', ht', ⟨new, hitems, hnew⟩, hcount, hrest⟩ := ih (t.delayaction frame)
    refine ⟨t', ?_, ⟨⟨t.enqueued.length, frame⟩ :: new, ?_, by simp [hnew]⟩, ?_, hrest⟩
    · simpa [step] using ht'
    · simp [hitems, delayaction]
    · simp only [hcount, delayaction, AsyncQueue.count_put, List.length_cons]
      omega

/-- Handling an `Init` leaves the sender, the connection and the wire alone. -/
theorem exec_aafterInit_frame {t t' : Transport φ} {resent : List φ}
    (h : exec (step numbered) t (aafterInit resent) = some t') :
    t'.sender = t.sender ∧ t'.released = true ∧ t'.connection = t.connection ∧
      t'.wire = t.wire := by
  rw [aafterInit, exec_cons] at h
  obtain ⟨t₁, h₁, h⟩ := Option.bind_eq_some_iff.mp h
  rw [exec_concat_eq_some] at h
  obtain ⟨t₂, h₂, h⟩ := h
  obtain ⟨t₃, h₃, -, -, -, hsender, -, hconnection, hwire⟩ :=
    exec_delayaction numbered resent t₁
  obtain rfl := Option.some.inj (h₂.symm.trans h₃)
  obtain ⟨hs, -, hc, hw⟩ := discardJournaled_frame h₁
  obtain rfl := Option.some.inj h
  exact ⟨hsender.trans hs, rfl, hconnection.trans hc, hwire.trans hw⟩

/-- Until the release, a waiting sender stays so and the wire as it is. -/
theorem exec_before_release {t u : Transport φ} {resent : List φ} {pre : List (TransportAct φ)}
    (hpre : pre <+: .discardJournaled :: resent.map .delayaction)
    (h : exec (step numbered) t pre = some u) :
    u.sender = t.sender ∧ u.released = t.released ∧ u.wire = t.wire := by
  have hquiet : ∀ act ∈ pre, act = .discardJournaled ∨ ∃ frame, act = .delayaction frame := by
    intro act hact
    rcases List.mem_cons.mp (hpre.subset hact) with rfl | hmem
    · exact Or.inl rfl
    · obtain ⟨frame, -, rfl⟩ := List.mem_map.mp hmem
      exact Or.inr ⟨frame, rfl⟩
  refine exec_invariant_of_meets (C := fun _ act =>
      act = .discardJournaled ∨ ∃ frame, act = .delayaction frame)
    (I := fun u => u.sender = t.sender ∧ u.released = t.released ∧ u.wire = t.wire)
    ⟨rfl, rfl, rfl⟩ ?_ (fun pre' act post s has _ => hquiet act (by simp [has])) h
  rintro s act s' ⟨hs, hr, hw⟩ (rfl | ⟨frame, rfl⟩) hstep
  · obtain ⟨hs', hr', -, hw'⟩ := discardJournaled_frame hstep
    exact ⟨hs'.trans hs, hr'.trans hr, hw'.trans hw⟩
  · obtain rfl := Option.some.inj hstep
    exact ⟨hs, hr, hw⟩

/-- A sender that waits for its release sends nothing. -/
theorem step_eq_none_of_parked {t : Transport φ} (hsender : t.sender = .parked)
    (hreleased : t.released = false) (accepted : Bool) :
    t.step numbered .wake = none ∧ t.step numbered .take = none ∧
      t.step numbered .sent = none ∧ t.step numbered (.failed accepted) = none := by
  simp [step, hsender, hreleased]

/-- The line after an `Init`: its unnumbered frames, then what was re-sent. -/
theorem exec_aafterInit (numbered : φ → Bool) {t : Transport φ} (hsender : t.inFlight = none)
    (hcount : t.sendQueue.tasks.count = t.line.length) (resent : List φ) :
    ∃ t', exec (step numbered) t (aafterInit resent) = some t' ∧
      (∃ new, t'.line = t.line.filter (fun f => !numbered f.frame) ++ new ∧
        new.map Queued.frame = resent) ∧
      t'.sendQueue.tasks.count = t'.line.length := by
  have hline : t.line = t.held.toList ++ t.sendQueue.items := by rw [line, hsender]; rfl
  obtain ⟨t₁, dropped, h₁, hd⟩ := discardJournaled_eq numbered t (by
    rw [hcount, hline])
  obtain ⟨t₂, h₂, ⟨new, hitems, hnew⟩, hc₂, hheld, hs₂, -⟩ :=
    exec_delayaction numbered resent t₁
  have hs₁ := (discardJournaled_frame h₁).1
  have hflight : inFlight { t₂ with released := true } = none := by
    rw [inFlight, hs₂, hs₁]
    exact hsender
  have hline' : line { t₂ with released := true }
      = t.line.filter (fun f => !numbered f.frame) ++ new := by
    rw [line, hflight, hheld, hitems, hline, ← hd.kept]
    simp
  refine ⟨{ t₂ with released := true }, ?_, ⟨new, hline', hnew⟩, ?_⟩
  · rw [aafterInit, exec_cons, show step numbered t .discardJournaled = some t₁ from h₁,
      Option.bind_some, exec_concat_eq_some]
    exact ⟨t₂, h₂, rfl⟩
  · have hsplit := List.length_eq_length_filter_add (l := t.line) fun f => numbered f.frame
    have hdropped : dropped.length = (t.line.filter fun f => numbered f.frame).length := by
      rw [hline, hd.dropped_eq]
    have hlength : new.length = resent.length := by rw [← hnew, List.length_map]
    have hc₁ := hd.count
    change t₂.sendQueue.tasks.count = _
    rw [hline', List.length_append]
    omega

/-- Handling an `Init` with a waiting sender leaves a line whose numbered frames are exactly the
retained ones, in resend order, next to the unnumbered ones that were there; nothing is sent
before the release, and the queue's count is the length of the line. -/
theorem aafterInit_resends_retained (loads : String → Option Json) (codec : FrameCodec)
    (a : RekuestAgent) (t : Transport String) (hparked : t.sender = .parked)
    (hheld : t.released = false) (hcount : t.sendQueue.tasks.count = t.line.length)
    (hnumbered : ∀ frame ∈ a.retainedFrames, journaled loads (codec.dump frame) = true) :
    (a.resendOrder.Perm a.retained.keys ∧
      a.resendOrder.Pairwise fun key key' => a.resendKey key ≤ a.resendKey key') ∧
    (∀ pre u, pre <+: .discardJournaled :: (a.aresendRetained codec).map .delayaction →
      exec (step (journaled loads)) t pre = some u →
      u.wire = t.wire ∧ ∀ accepted, u.step (journaled loads) .wake = none ∧
        u.step (journaled loads) .take = none ∧
        u.step (journaled loads) .sent = none ∧
        u.step (journaled loads) (.failed accepted) = none) ∧
    ∃ t', exec (step (journaled loads)) t (aafterInit (a.aresendRetained codec)) = some t' ∧
      ((t'.line.filter fun f => journaled loads f.frame).map Queued.frame
        = a.resendOrder.filterMap fun key => (a.retained.get? key).map codec.dump) ∧
      (t'.line.filter fun f => !journaled loads f.frame)
        = (t.line.filter fun f => !journaled loads f.frame) ∧
      t'.sendQueue.tasks.count = t'.line.length ∧
      t'.sender = .parked ∧ t'.released = true ∧ t'.wire = t.wire := by
  refine ⟨⟨orderBy_perm _ _, pairwise_orderBy _ _⟩, ?_, ?_⟩
  · intro pre u hpre hu
    obtain ⟨hs, hr, hw⟩ := exec_before_release hpre hu
    exact ⟨hw, fun accepted =>
      step_eq_none_of_parked (hs.trans hparked) (hr.trans hheld) accepted⟩
  · have hall : ∀ f ∈ a.aresendRetained codec, journaled loads f = true := by
      intro f hf
      obtain ⟨key, hkey, hframe⟩ := List.mem_filterMap.mp hf
      obtain ⟨frame, hget, rfl⟩ := Option.map_eq_some_iff.mp hframe
      exact hnumbered frame (List.mem_filterMap.mpr ⟨key, hkey, hget⟩)
    obtain ⟨t', ht', ⟨new, hline, hnew⟩, hcount'⟩ := exec_aafterInit (journaled loads)
      (by rw [inFlight, hparked]) hcount (a.aresendRetained codec)
    obtain ⟨hs, hr, -, hw⟩ := exec_aafterInit_frame ht'
    have hnewNumbered : ∀ f ∈ new, journaled loads f.frame = true := fun f hf =>
      hall f.frame (hnew ▸ List.mem_map_of_mem hf)
    have hnewKept : ∀ f ∈ new, ¬ (!journaled loads f.frame) = true := fun f hf => by
      simp [hnewNumbered f hf]
    refine ⟨t', ht', ?_, ?_, hcount', hs.trans hparked, hr, hw⟩
    · rw [hline, List.filter_append, List.filter_filter,
        List.filter_eq_nil_iff.mpr fun f _ => by simp,
        List.filter_eq_self.mpr hnewNumbered]
      exact hnew
    · rw [hline, List.filter_append, List.filter_filter,
        List.filter_eq_nil_iff.mpr hnewKept, List.append_nil]
      simp

/-- The JSON of a frame with a position, and of one without. -/
def decodePos (text : String) : Option Json :=
  if text = "\x7b\"pos\":1\x7d" then some (.obj [("pos", .num 1)])
  else if text = "\x7b\x7d" then some (.obj [])
  else none

/-- A numbered frame is held, an unnumbered one queued and the sender waits. -/
def heldNumbered : Transport String :=
  { start with
    held := some ⟨0, "\x7b\"pos\":1\x7d"⟩
    sendQueue := ⟨[⟨1, "\x7b\x7d"⟩], ⟨2, 0⟩⟩
    sender := .parked
    connection := 2 }

/-- The agent retains the held frame. -/
def retainsOne : RekuestAgent :=
  { RekuestAgent.new "app" "s1" with
    retained := Dict.set ∅ ("s1", 1) ⟨.task .started "t", none⟩
    storeOpen := true }

theorem aafterInit_resends_retained_heldNumbered :
    ∃ t', exec (step (journaled decodePos)) heldNumbered
        (aafterInit (retainsOne.aresendRetained ⟨fun _ => "\x7b\"pos\":1\x7d", fun _ => none⟩))
        = some t' ∧
      (t'.line.filter fun f => journaled decodePos f.frame).map Queued.frame
        = ["\x7b\"pos\":1\x7d"] ∧
      (t'.line.filter fun f => !journaled decodePos f.frame) = [⟨1, "\x7b\x7d"⟩] := by
  obtain ⟨-, -, t', ht', hnumbered, hrest, -⟩ := aafterInit_resends_retained decodePos
    ⟨fun _ => "\x7b\"pos\":1\x7d", fun _ => none⟩ retainsOne heldNumbered rfl rfl rfl
    (fun _ _ => rfl)
  exact ⟨t', ht', hnumbered.trans rfl, hrest.trans rfl⟩

end Transport

end Rekuest
