import Rekuest.Agents.Handshake
import Rekuest.Agents.Transport.Sending

/-!
# What has to go out first

Some frames in the outbound line have to be preceded, on the connection they go out on, by others
that are still owed. The owed ones are in front of them in the line or went out on the same
connection: emitting, sending and handling an `Init` keep this, whichever connection the `Init`
belonged to.
-/

namespace Rekuest

open Runs

/-- The events of the line that are neither the agent's nor a caller's. -/
def TransportAct.ofConnection {φ : Type} : TransportAct φ → Bool
  | .delayaction _ => false
  | act => act.ofTransport

namespace Transport

variable {φ κ : Type} {numbered : φ → Bool} {entry : φ → Option κ} {owed : κ → Prop}
  {before : κ → Queued φ → Prop}

/-- A frame of `key` went out on the current connection. -/
def WentOut (t : Transport φ) (entry : φ → Option κ) (key : κ) : Prop :=
  ∃ q, (t.connection, q) ∈ t.wire ∧ entry q.frame = some key

/-- The current connection may send: its sender was let go, and has not stopped. -/
def MaySend (t : Transport φ) : Prop :=
  match t.sender with
  | .off | .ended => False
  | .parked => t.released = true
  | .looping | .sending _ => True

/-- Every key owed went out on this connection or is in line, in front of the frames it has to
precede. -/
structure Ahead (t : Transport φ) (entry : φ → Option κ) (owed : κ → Prop)
    (before : κ → Queued φ → Prop) : Prop where
  inLine : ∀ key, owed key → t.WentOut entry key ∨ ∃ q ∈ t.line, entry q.frame = some key
  ahead : ∀ key, owed key → ∀ u ∈ t.line, before key u →
    t.WentOut entry key ∨ ∃ q ∈ t.line, entry q.frame = some key ∧ q.index < u.index

/-- A frame that is being sent has what it has to follow already out. -/
theorem Ahead.sending {t : Transport φ} (h : t.Ahead entry owed before) (hord : t.InOrder)
    {u : Queued φ} (hu : t.sender = .sending u) {key : κ} (howed : owed key)
    (hbefore : before key u) : t.WentOut entry key := by
  have hline : t.line = u :: (t.held.toList ++ t.sendQueue.items) := by
    rw [line, inFlight, hu]
    rfl
  have hmem : u ∈ t.line := by rw [hline]; exact List.mem_cons_self
  refine (h.ahead key howed u hmem hbefore).resolve_right ?_
  rintro ⟨q, hq, -, hlt⟩
  -- nothing in line is in front of its head
  have hsorted := (List.pairwise_append.mp hord.pairwise_index).2.1
  rw [hline] at hsorted hq
  rcases List.mem_cons.mp hq with rfl | hq
  · exact lt_irrefl _ hlt
  · exact lt_asymm hlt ((List.pairwise_cons.mp hsorted).1 q hq)

theorem WentOut.congr {t t' : Transport φ} {key : κ} (h : t.WentOut entry key)
    (hwire : t'.wire = t.wire) (hconnection : t'.connection = t.connection) :
    t'.WentOut entry key := by
  obtain ⟨q, hq, hkey⟩ := h
  exact ⟨q, by rw [hconnection, hwire]; exact hq, hkey⟩

/-- Moving frames within the line changes nothing. -/
theorem Ahead.of_line_eq {t t' : Transport φ} (h : t.Ahead entry owed before)
    (hline : t'.line = t.line) (hwire : t'.wire = t.wire)
    (hconnection : t'.connection = t.connection) : t'.Ahead entry owed before := by
  refine ⟨fun key howed => ?_, fun key howed u hu hbefore => ?_⟩
  · rw [hline]
    exact (h.inLine key howed).imp_left fun hout => hout.congr hwire hconnection
  · rw [hline] at hu ⊢
    exact (h.ahead key howed u hu hbefore).imp_left fun hout => hout.congr hwire hconnection

/-- Owing less. -/
theorem Ahead.mono {t : Transport φ} (h : t.Ahead entry owed before) {owed' : κ → Prop}
    (hsub : ∀ key, owed' key → owed key) : t.Ahead entry owed' before :=
  ⟨fun key howed => h.inLine key (hsub key howed), fun key howed => h.ahead key (hsub key howed)⟩

/-- The frame at the head of the line goes out. -/
theorem Ahead.sent {t t' : Transport φ} (h : t.Ahead entry owed before) {f : Queued φ}
    (hline : t.line = f :: t'.line) (hwire : t'.wire = t.wire ++ [(t.connection, f)])
    (hconnection : t'.connection = t.connection) : t'.Ahead entry owed before := by
  have hout : ∀ key, t.WentOut entry key → t'.WentOut entry key := by
    rintro key ⟨q, hq, hkey⟩
    exact ⟨q, by rw [hconnection, hwire]; exact List.mem_append_left _ hq, hkey⟩
  have hhead : ∀ key, entry f.frame = some key → t'.WentOut entry key := fun key hkey =>
    ⟨f, by rw [hconnection, hwire]; simp, hkey⟩
  refine ⟨fun key howed => ?_, fun key howed u hu hbefore => ?_⟩
  · obtain hgone | ⟨q, hq, hkey⟩ := h.inLine key howed
    · exact Or.inl (hout key hgone)
    · rw [hline] at hq
      rcases List.mem_cons.mp hq with rfl | hq
      · exact Or.inl (hhead key hkey)
      · exact Or.inr ⟨q, hq, hkey⟩
  · have hu' : u ∈ t.line := by rw [hline]; exact List.mem_cons_of_mem _ hu
    obtain hgone | ⟨q, hq, hkey, hlt⟩ := h.ahead key howed u hu' hbefore
    · exact Or.inl (hout key hgone)
    · rw [hline] at hq
      rcases List.mem_cons.mp hq with rfl | hq
      · exact Or.inl (hhead key hkey)
      · exact Or.inr ⟨q, hq, hkey, hlt⟩

/-- A frame joins the end of the line. -/
theorem Ahead.enqueue {t : Transport φ} (h : t.Ahead entry owed before) (hord : t.InOrder)
    (frame : φ) : (t.delayaction frame).Ahead entry owed before := by
  have hlift : ∀ key, (∃ q ∈ t.line, entry q.frame = some key) →
      ∃ q ∈ (t.delayaction frame).line, entry q.frame = some key
        ∧ q.index < t.enqueued.length := by
    rintro key ⟨q, hq, hkey⟩
    refine ⟨q, ?_, hkey, hord.index_lt (hord.mem_enqueued hq)⟩
    rw [line_delayaction]
    exact List.mem_append_left _ hq
  refine ⟨fun key howed => ?_, fun key howed u hu hbefore => ?_⟩
  · refine (h.inLine key howed).imp_right fun hq => ?_
    obtain ⟨q, hq, hkey, -⟩ := hlift key hq
    exact ⟨q, hq, hkey⟩
  · rw [line_delayaction, List.mem_append, List.mem_singleton] at hu
    rcases hu with hu | rfl
    · refine (h.ahead key howed u hu hbefore).imp_right ?_
      rintro ⟨q, hq, hkey, hlt⟩
      exact ⟨q, by rw [line_delayaction]; exact List.mem_append_left _ hq, hkey, hlt⟩
    · exact (h.inLine key howed).imp_right (hlift key)

/-- A frame joins the end, and is owed from then on, to what comes after it. -/
theorem Ahead.emit {t : Transport φ} (h : t.Ahead entry owed before) (hord : t.InOrder)
    {frame : φ} {key : κ} (hkey : entry frame = some key) {before' : κ → Queued φ → Prop}
    (hothers : ∀ k, k ≠ key → ∀ u, before' k u → before k u)
    (hnone : ∀ u ∈ (t.delayaction frame).line, ¬ before' key u) :
    (t.delayaction frame).Ahead entry (fun k => k = key ∨ owed k) before' := by
  have henqueued := h.enqueue hord frame
  constructor
  · rintro k (rfl | howed)
    · exact Or.inr ⟨⟨t.enqueued.length, frame⟩, by simp [line_delayaction], hkey⟩
    · exact henqueued.inLine k howed
  · intro k howed u hu hbefore
    by_cases hk : k = key
    · subst hk
      exact absurd hbefore (hnone u hu)
    · exact henqueued.ahead k (howed.resolve_left hk) u hu (hothers k hk u hbefore)

/-- What the connection task and the sender do keeps what is owed ahead. -/
theorem ahead_step {t t' : Transport φ} (h : t.MaySend → t.Ahead entry owed before)
    {act : TransportAct φ} (hown : act.ofConnection = true)
    (hs : t.step numbered act = some t') (hsend : t'.MaySend) : t'.Ahead entry owed before := by
  cases act with
  | delayaction frame => cases hown
  | connect holds =>
    obtain rfl : holds = true := hown
    cases hsender : t.sender <;> simp only [step, hsender, reduceCtorEq, Option.some.injEq] at hs
    subst hs
    cases hsend
  | wake =>
    cases hsender : t.sender <;> simp only [step, hsender, reduceCtorEq] at hs
    rw [Option.ite_none_right_eq_some, Option.some.injEq] at hs
    obtain ⟨hreleased, rfl⟩ := hs
    refine (h (by simp only [MaySend, hsender, hreleased])).of_line_eq ?_ rfl rfl
    simp [line, inFlight, hsender]
  | take =>
    cases hsender : t.sender <;> simp only [step, hsender, reduceCtorEq] at hs
    have hp := h (by simp only [MaySend, hsender])
    cases hheld : t.held with
    | some f =>
      simp only [hheld, Option.some.injEq] at hs
      subst hs
      refine hp.of_line_eq ?_ rfl rfl
      simp [line, inFlight, hsender, hheld]
    | none =>
      simp only [hheld, Option.map_eq_some_iff, Prod.exists] at hs
      obtain ⟨f, queue, hget, rfl⟩ := hs
      obtain ⟨hitems, -⟩ := AsyncQueue.getNowait_eq_some.mp hget
      refine hp.of_line_eq ?_ rfl rfl
      simp [line, inFlight, hsender, hheld, hitems]
  | sent =>
    cases hsender : t.sender <;> simp only [step, hsender, reduceCtorEq] at hs
    obtain ⟨queue, hqueue, rfl⟩ := Option.map_eq_some_iff.mp hs
    refine (h (by simp only [MaySend, hsender])).sent ?_ rfl rfl
    rw [line, line, inFlight, inFlight, hsender, (AsyncQueue.taskDone_eq_some hqueue).1]
    rfl
  | failed accepted =>
    cases hsender : t.sender <;> simp only [step, hsender, reduceCtorEq, Option.some.injEq] at hs
    subst hs
    cases hsend
  | drop accepted =>
    cases hsender : t.sender <;> simp only [step, hsender, reduceCtorEq, Option.some.injEq] at hs
    all_goals
      subst hs
      cases hsend
  | discardJournaled => cases hown
  | releaseSends => cases hown

/-- The connection task and the sender put nothing new in line. -/
theorem line_of_connection {t t' : Transport φ} {act : TransportAct φ}
    (hown : act.ofConnection = true) (hs : t.step numbered act = some t') :
    ∀ q ∈ t'.line, q ∈ t.line := by
  cases act with
  | delayaction frame => cases hown
  | connect holds =>
    cases hsender : t.sender <;> simp only [step, hsender, reduceCtorEq, Option.some.injEq] at hs
    subst hs
    intro q hq
    simpa [line, inFlight, hsender] using hq
  | wake =>
    cases hsender : t.sender <;> simp only [step, hsender, reduceCtorEq] at hs
    rw [Option.ite_none_right_eq_some, Option.some.injEq] at hs
    obtain ⟨-, rfl⟩ := hs
    intro q hq
    simpa [line, inFlight, hsender] using hq
  | take =>
    cases hsender : t.sender <;> simp only [step, hsender, reduceCtorEq] at hs
    cases hheld : t.held with
    | some f =>
      simp only [hheld, Option.some.injEq] at hs
      subst hs
      intro q hq
      simpa [line, inFlight, hsender, hheld] using hq
    | none =>
      simp only [hheld, Option.map_eq_some_iff, Prod.exists] at hs
      obtain ⟨f, queue, hget, rfl⟩ := hs
      obtain ⟨hitems, -⟩ := AsyncQueue.getNowait_eq_some.mp hget
      intro q hq
      simpa [line, inFlight, hsender, hheld, hitems] using hq
  | sent =>
    cases hsender : t.sender <;> simp only [step, hsender, reduceCtorEq] at hs
    obtain ⟨queue, hqueue, rfl⟩ := Option.map_eq_some_iff.mp hs
    intro q hq
    rw [line, inFlight, (AsyncQueue.taskDone_eq_some hqueue).1] at hq
    exact List.mem_append_right _ hq
  | failed accepted =>
    cases hsender : t.sender <;> simp only [step, hsender, reduceCtorEq, Option.some.injEq] at hs
    subst hs
    intro q hq
    simp only [line, inFlight, requeue, hsender, Option.toList_none, Option.toList_some,
      List.nil_append, List.mem_append, List.mem_singleton] at hq ⊢
    exact hq.imp_right Or.inr
  | drop accepted =>
    cases hsender : t.sender <;> simp only [step, hsender, reduceCtorEq, Option.some.injEq] at hs
    case sending f =>
      subst hs
      intro q hq
      simp only [line, inFlight, requeue, hsender, Option.toList_none, Option.toList_some,
        List.nil_append, List.mem_append, List.mem_singleton] at hq ⊢
      exact hq.imp_right Or.inr
    all_goals
      subst hs
      intro q hq
      simpa [line, inFlight, hsender] using hq
  | discardJournaled => cases hown
  | releaseSends => cases hown

/-- Two members of a list whose indices increase: the one with the lower index is in front. -/
theorem rel_of_index_lt {R : Queued φ → Queued φ → Prop} {l : List (Queued φ)}
    (hsorted : l.Pairwise fun f g => f.index < g.index) (h : l.Pairwise R) {f g : Queued φ}
    (hf : f ∈ l) (hg : g ∈ l) (hlt : f.index < g.index) : R f g := by
  induction l with
  | nil => cases hf
  | cons a l ih =>
    obtain ⟨ha, hsorted⟩ := List.pairwise_cons.mp hsorted
    obtain ⟨hR, h⟩ := List.pairwise_cons.mp h
    rcases List.mem_cons.mp hf with rfl | hf'
    · rcases List.mem_cons.mp hg with rfl | hg'
      · exact absurd hlt (lt_irrefl _)
      · exact hR g hg'
    · rcases List.mem_cons.mp hg with rfl | hg'
      · exact absurd hlt (lt_asymm (ha f hf'))
      · exact ih hsorted h hf' hg'

/-- Where the frames of a list are in an order in which nothing comes after a frame that has to
follow it, and all that is owed is among them, it is in front of what has to follow it. -/
theorem exists_in_front {precedes : κ → φ → Prop} {resent : List φ}
    (hall : ∀ key, owed key → ∃ f ∈ resent, entry f = some key)
    (horder : resent.Pairwise fun f g => ∀ key, entry g = some key → ¬ precedes key f)
    (hself : ∀ f key, entry f = some key → ¬ precedes key f) {new : List (Queued φ)}
    (hnew : new.map Queued.frame = resent) (hsorted : new.Pairwise fun f g => f.index < g.index)
    {u : Queued φ} (hu : u ∈ new) {key : κ} (howed : owed key) (hbefore : precedes key u.frame) :
    ∃ q ∈ new, entry q.frame = some key ∧ q.index < u.index := by
  obtain ⟨f, hf, hentry⟩ := hall key howed
  obtain ⟨q, hq, rfl⟩ := List.mem_map.mp (hnew ▸ hf)
  refine ⟨q, hq, hentry, ?_⟩
  rcases lt_trichotomy q.index u.index with hlt | heq | hgt
  · exact hlt
  · have hqu : q = u := List.inj_on_of_nodup_map
      (List.pairwise_map.mpr (hsorted.imp fun hlt => hlt.ne)) hq hu heq
    exact absurd (hqu ▸ hbefore) (hself q.frame key hentry)
  · rw [← hnew, List.pairwise_map] at horder
    exact absurd hbefore (rel_of_index_lt hsorted horder hu hq hgt key hentry)

/-- The line after an `Init`, whatever the sender does meanwhile: the frame in flight, the other
frames without a position, and what was re-sent. -/
theorem exec_aafterInit_line {t t' : Transport φ} {resent : List φ}
    (h : exec (step numbered) t (aafterInit resent) = some t') (hord : t.InOrder) :
    ∃ new, t'.line = t.inFlight.toList
        ++ ((t.held.toList ++ t.sendQueue.items).filter (fun f => !numbered f.frame) ++ new)
      ∧ new.map Queued.frame = resent := by
  rw [aafterInit, exec_cons] at h
  obtain ⟨t₁, h₁, h⟩ := Option.bind_eq_some_iff.mp h
  obtain ⟨t₂, h₂, h⟩ := exec_concat_eq_some.mp h
  obtain ⟨t₃, h₃, ⟨new, hitems, hnew⟩, -, hheld, hsender, -⟩ :=
    exec_delayaction numbered resent t₁
  obtain rfl := Option.some.inj (h₂.symm.trans h₃)
  obtain rfl := Option.some.inj h
  obtain ⟨t₄, dropped, h₄, hd⟩ := hord.exists_discardJournaled numbered
  obtain rfl : t₄ = t₁ := Option.some.inj (h₄.symm.trans h₁)
  refine ⟨new, ?_, hnew⟩
  have hflight : t₂.inFlight = t.inFlight := by
    rw [inFlight, inFlight, hsender, (discardJournaled_frame h₄).1]
  change t₂.inFlight.toList ++ (t₂.held.toList ++ t₂.sendQueue.items) = _
  rw [hflight, hheld, hitems, ← List.append_assoc t₄.held.toList, hd.kept]

/-- Handling an `Init` puts what is owed ahead, whatever the sender does meanwhile: all that is owed
is enqueued again, in front of what has to follow it among the frames enqueued with it; what stays
in line is preceded already. -/
theorem ahead_aafterInit {t t' : Transport φ} {resent : List φ} (hord : t.InOrder)
    (h : t.MaySend → t.Ahead entry owed before)
    (hkept : ∀ u ∈ t.held.toList ++ t.sendQueue.items, numbered u.frame = false →
      ∀ key, owed key → before key u →
        t.WentOut entry key ∨ ∃ f, t.inFlight = some f ∧ entry f.frame = some key)
    (hall : ∀ key, owed key → ∃ f ∈ resent, entry f = some key)
    (hnew : ∀ new : List (Queued φ), new.map Queued.frame = resent →
      (new.Pairwise fun f g => f.index < g.index) → ∀ u ∈ new, ∀ key, owed key → before key u →
        ∃ q ∈ new, entry q.frame = some key ∧ q.index < u.index)
    (ht : exec (step numbered) t (aafterInit resent) = some t') :
    t'.Ahead entry owed before := by
  obtain ⟨new, hline, hframes⟩ := exec_aafterInit_line ht hord
  obtain ⟨-, -, hconnection, hwire⟩ := exec_aafterInit_frame ht
  have hord' : t'.InOrder := exec_invariant hord (fun _ _ _ h hs => inOrder_step h hs) ht
  have hsorted := (List.pairwise_append.mp hord'.pairwise_index).2.1
  rw [hline] at hsorted
  have hinLine : ∀ q ∈ new, q ∈ t'.line := fun q hq => by
    rw [hline]
    exact List.mem_append_right _ (List.mem_append_right _ hq)
  refine ⟨fun key howed => ?_, fun key howed u hu hbefore => ?_⟩
  · obtain ⟨f, hf, hentry⟩ := hall key howed
    obtain ⟨q, hq, rfl⟩ := List.mem_map.mp (hframes ▸ hf)
    exact Or.inr ⟨q, hinLine q hq, hentry⟩
  · rw [hline, List.mem_append, List.mem_append] at hu
    rcases hu with hflight | hkeeps | hu
    · -- in flight already, so this connection may send, and what is owed before is out
      have hsending : t.sender = .sending u := by
        rw [Option.mem_toList, inFlight] at hflight
        split at hflight
        · obtain rfl := Option.some.inj hflight
          assumption
        · cases hflight
      have hmay : t.MaySend := by rw [MaySend, hsending]; trivial
      exact Or.inl (((h hmay).sending hord hsending howed hbefore).congr hwire hconnection)
    · obtain ⟨hwaiting, hplain⟩ := List.mem_filter.mp hkeeps
      obtain hgone | ⟨f, hf, hentry⟩ :=
        hkept u hwaiting (by simpa using hplain) key howed hbefore
      · exact Or.inl (hgone.congr hwire hconnection)
      · -- the frame in flight stays the head of the line
        refine Or.inr ⟨f, by rw [hline, hf]; exact List.mem_cons_self, hentry, ?_⟩
        rw [hf, Option.toList_some, List.singleton_append] at hsorted
        exact (List.pairwise_cons.mp hsorted).1 u (List.mem_append_left _ hkeeps)
    · rw [← List.append_assoc] at hsorted
      obtain ⟨q, hq, hentry, hlt⟩ :=
        hnew new hframes (List.pairwise_append.mp hsorted).2.1 u hu key howed hbefore
      exact Or.inr ⟨q, hinLine q hq, hentry, hlt⟩

end Transport

end Rekuest
