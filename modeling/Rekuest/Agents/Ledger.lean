import Mathlib.Algebra.Order.Ring.Rat
import Mathlib.Data.List.Nodup
import Rekuest.Agents.Retention

/-!
# What an agent owes its server

The purpose of retention, stated without a database or a dictionary: a ledger of every session
an agent name ever opened, of every numbered frame each emitted and of every `JournalAck`. A frame
is owed while its position is above the largest one acked for its session.
-/

namespace Rekuest

variable {φ : Type*}

/-- One session: its id, when it was created and what it emitted, in order. -/
structure SessionLog (φ : Type*) where
  id : String
  created : ℚ
  frames : List (ℤ × φ)

/-- The highest position of the session, 0 before its first frame. -/
def SessionLog.highest (σ : SessionLog φ) : ℤ := σ.frames.foldr (fun f m => max f.1 m) 0

/-- A frame the server did not acknowledge. -/
structure OwedFrame (φ : Type*) where
  session : String
  created : ℚ
  pos : ℤ
  frame : φ

/-- Everything that happened under one agent name: the sessions in the order of their creation,
the last of which may be running, and the acks. -/
structure Ledger (φ : Type*) where
  past : List (SessionLog φ)
  current : Option (SessionLog φ)
  acks : List (String × ℤ)
  running : Bool

/-- What can happen: a process starts a session, emits a numbered frame in it, hears an ack or
ends, cleanly or not. -/
inductive LedgerAct (φ : Type*)
  | astart (session : String) (created : ℚ)
  | emit (pos : ℤ) (frame : φ) (now : ℚ)
  | ack (session : String) (pos : ℤ)
  | exit

namespace Ledger

/-- Nothing happened yet. -/
def empty : Ledger φ := ⟨[], none, [], false⟩

/-- The sessions, in the order of their creation. -/
def sessions (L : Ledger φ) : List (SessionLog φ) := L.past ++ L.current.toList

/-- The largest position acked for `session`, 0 before the first ack. -/
def largestAck (L : Ledger φ) (session : String) : ℤ :=
  (L.acks.filter fun a => a.1 = session).foldr (fun a m => max a.2 m) 0

/-- The highest position emitted in `session`, 0 if it emitted none. -/
def highest (L : Ledger φ) (session : String) : ℤ :=
  ((L.sessions.find? fun σ => σ.id = session).map SessionLog.highest).getD 0

/-- What one session still owes, in emission order. -/
def owedOf (L : Ledger φ) (σ : SessionLog φ) : List (OwedFrame φ) :=
  (σ.frames.filter fun f => L.largestAck σ.id < f.1).map fun f => ⟨σ.id, σ.created, f.1, f.2⟩

/-- Every frame whose position is above the largest one acked for its session, once, by session
creation and position. -/
def owed (L : Ledger φ) : List (OwedFrame φ) := L.sessions.flatMap L.owedOf

/-- One event, where it is possible: a session starts under a new id and later than every other,
positions increase within it, and no ack is above the highest position of its session. -/
def step (L : Ledger φ) : LedgerAct φ → Option (Ledger φ)
  | .astart session created =>
    if L.running = false ∧ ∀ σ ∈ L.sessions, σ.id ≠ session ∧ σ.created < created then
      some ⟨L.sessions, some ⟨session, created, []⟩, L.acks, true⟩
    else none
  | .emit pos frame _ =>
    match L.current with
    | some σ =>
      if L.running = true ∧ σ.highest < pos then
        some { L with current := some { σ with frames := σ.frames ++ [(pos, frame)] } }
      else none
    | none => none
  | .ack session pos =>
    if L.running = true ∧ pos ≤ L.highest session then
      some { L with acks := L.acks ++ [(session, pos)] }
    else none
  | .exit => if L.running = true then some { L with running := false } else none

/-! ## Watermarks -/

theorem foldr_max_append {β : Type*} (l l' : List (β × ℤ)) :
    (l ++ l').foldr (fun a m => max a.2 m) 0
      = max (l.foldr (fun a m => max a.2 m) 0) (l'.foldr (fun a m => max a.2 m) 0) := by
  induction l with
  | nil =>
    have h0 : 0 ≤ l'.foldr (fun a m => max a.2 m) 0 := by
      induction l' with
      | nil => exact le_refl _
      | cons a l' ih => exact le_max_of_le_right ih
    simp [h0]
  | cons a l ih => simp only [List.cons_append, List.foldr_cons, ih, max_assoc]

theorem largestAck_nonneg (L : Ledger φ) (session : String) : 0 ≤ L.largestAck session := by
  rw [largestAck]
  induction L.acks.filter fun a => a.1 = session with
  | nil => exact le_refl _
  | cons a l ih => exact le_max_of_le_right ih

/-- An ack raises the watermark of its own session only. -/
theorem largestAck_append (L : Ledger φ) (session s : String) (pos : ℤ) :
    largestAck { L with acks := L.acks ++ [(session, pos)] } s
      = if s = session then max (L.largestAck s) pos else L.largestAck s := by
  have h0 := L.largestAck_nonneg s
  simp only [largestAck, List.filter_append, foldr_max_append] at h0 ⊢
  by_cases h : s = session
  · subst h
    simp only [decide_true, List.filter_cons_of_pos, List.filter_nil, List.foldr_cons,
      List.foldr_nil, if_true]
    omega
  · simp [h, Ne.symm h, h0]

theorem pos_le_highest {σ : SessionLog φ} {f : ℤ × φ} (hf : f ∈ σ.frames) : f.1 ≤ σ.highest := by
  obtain ⟨id, created, frames⟩ := σ
  simp only [SessionLog.highest] at hf ⊢
  induction frames with
  | nil => cases hf
  | cons g l ih =>
    rcases List.mem_cons.mp hf with rfl | hf
    · exact le_max_left _ _
    · exact le_max_of_le_right (ih hf)

theorem highest_nonneg (σ : SessionLog φ) : 0 ≤ σ.highest := by
  obtain ⟨id, created, frames⟩ := σ
  simp only [SessionLog.highest]
  induction frames with
  | nil => exact le_refl _
  | cons g l ih => exact le_max_of_le_right ih

theorem mem_owed {L : Ledger φ} {o : OwedFrame φ} :
    o ∈ L.owed ↔ ∃ σ ∈ L.sessions, σ.id = o.session ∧ σ.created = o.created ∧
      (o.pos, o.frame) ∈ σ.frames ∧ L.largestAck o.session < o.pos := by
  simp only [owed, owedOf, List.mem_flatMap, List.mem_map, List.mem_filter, decide_eq_true_eq]
  constructor
  · rintro ⟨σ, hσ, f, ⟨hf, ha⟩, rfl⟩
    exact ⟨σ, hσ, rfl, rfl, hf, ha⟩
  · rintro ⟨σ, hσ, hid, hc, hf, ha⟩
    exact ⟨σ, hσ, (o.pos, o.frame), ⟨hf, by rwa [hid]⟩, by rw [hid, hc]⟩

/-! ## Well-formed ledgers -/

/-- What every history keeps: session ids and creation times are distinct and in order, positions
increase from 1 within a session, and a session's watermark is at most its highest position. -/
structure WellFormed (L : Ledger φ) : Prop where
  ids : (L.sessions.map SessionLog.id).Nodup
  created : L.sessions.Pairwise fun σ τ => σ.created < τ.created
  positions : ∀ σ ∈ L.sessions, σ.frames.Pairwise fun f g => f.1 < g.1
  positive : ∀ σ ∈ L.sessions, ∀ f ∈ σ.frames, 0 < f.1
  watermark : ∀ σ ∈ L.sessions, L.largestAck σ.id ≤ σ.highest
  unknown : ∀ s, (∀ σ ∈ L.sessions, σ.id ≠ s) → L.largestAck s = 0
  running : L.running = true → L.current.isSome

theorem wellFormed_empty : WellFormed (empty : Ledger φ) where
  ids := List.nodup_nil
  created := List.Pairwise.nil
  positions := by simp [sessions, empty]
  positive := by simp [sessions, empty]
  watermark := by simp [sessions, empty]
  unknown := fun _ _ => rfl
  running := by simp [empty]

theorem WellFormed.session_unique {L : Ledger φ} (h : L.WellFormed) {σ τ : SessionLog φ}
    (hσ : σ ∈ L.sessions) (hτ : τ ∈ L.sessions) (hid : σ.id = τ.id) : σ = τ :=
  List.inj_on_of_nodup_map h.ids hσ hτ hid

theorem WellFormed.highest_eq {L : Ledger φ} (h : L.WellFormed) {σ : SessionLog φ}
    (hσ : σ ∈ L.sessions) : L.highest σ.id = σ.highest := by
  rw [highest]
  obtain ⟨τ, hτ⟩ : ∃ τ, (L.sessions.find? fun τ => τ.id = σ.id) = some τ := by
    rw [← Option.isSome_iff_exists, List.find?_isSome]
    exact ⟨σ, hσ, by simp⟩
  have hid : τ.id = σ.id := by simpa using List.find?_some hτ
  rw [hτ, h.session_unique (List.mem_of_find?_eq_some hτ) hσ hid]
  rfl

theorem highest_of_unknown {L : Ledger φ} {s : String} (h : ∀ σ ∈ L.sessions, σ.id ≠ s) :
    L.highest s = 0 := by
  rw [highest, List.find?_eq_none.mpr]
  · rfl
  · intro σ hσ
    simpa using h σ hσ

/-- The sessions after a start: the new one is last, and empty. -/
theorem sessions_astart {L L' : Ledger φ} {session : String} {created : ℚ}
    (hs : L.step (.astart session created) = some L') :
    L.running = false ∧ (∀ σ ∈ L.sessions, σ.id ≠ session ∧ σ.created < created) ∧
      L' = ⟨L.sessions, some ⟨session, created, []⟩, L.acks, true⟩ ∧
      L'.sessions = L.sessions ++ [⟨session, created, []⟩] := by
  simp only [step, Option.ite_none_right_eq_some, Option.some.injEq] at hs
  obtain ⟨⟨hr, hnew⟩, rfl⟩ := hs
  exact ⟨hr, hnew, rfl, rfl⟩

theorem wellFormed_astart {L L' : Ledger φ} (h : L.WellFormed) {session : String} {created : ℚ}
    (hs : L.step (.astart session created) = some L') : L'.WellFormed := by
  obtain ⟨-, hnew, hL', hse⟩ := sessions_astart hs
  have hacks : L'.acks = L.acks := by rw [hL']
  have hlargest : ∀ s, L'.largestAck s = L.largestAck s := fun s => by
    rw [largestAck, largestAck, hacks]
  have hack : L.largestAck session = 0 := h.unknown _ fun σ hσ => (hnew σ hσ).1
  refine ⟨?_, ?_, ?_, ?_, ?_, ?_, fun _ => by rw [hL']; rfl⟩
  · rw [hse, List.map_append, List.nodup_append]
    refine ⟨h.ids, by simp, ?_⟩
    rintro a ha b hb rfl
    obtain ⟨σ, hσ, rfl⟩ := List.mem_map.mp ha
    exact (hnew σ hσ).1 (by simpa using hb)
  · rw [hse, List.pairwise_append]
    refine ⟨h.created, by simp, ?_⟩
    intro σ hσ τ hτ
    obtain rfl := List.mem_singleton.mp hτ
    exact (hnew σ hσ).2
  all_goals simp only [hse, hlargest, List.mem_append, List.mem_singleton]
  · rintro σ (hσ | rfl)
    · exact h.positions σ hσ
    · exact List.Pairwise.nil
  · rintro σ (hσ | rfl)
    · exact h.positive σ hσ
    · simp
  · rintro σ (hσ | rfl)
    · exact h.watermark σ hσ
    · exact hack.le
  · intro s hu
    exact h.unknown s fun σ hσ => hu σ (Or.inl hσ)

/-- An emit makes the running session longer by the frame. -/
theorem emit_eq_some {L L' : Ledger φ} {pos : ℤ} {frame : φ} {now : ℚ}
    (hs : L.step (.emit pos frame now) = some L') :
    ∃ σ, L.running = true ∧ L.current = some σ ∧ σ.highest < pos ∧
      L' = { L with current := some { σ with frames := σ.frames ++ [(pos, frame)] } } := by
  simp only [step] at hs
  cases hc : L.current with
  | none => simp [hc] at hs
  | some σ =>
    simp only [hc, Option.ite_none_right_eq_some, Option.some.injEq] at hs
    obtain ⟨⟨hr, hp⟩, rfl⟩ := hs
    exact ⟨σ, hr, rfl, hp, rfl⟩

theorem sessions_of_current {L : Ledger φ} {σ : SessionLog φ} (hc : L.current = some σ) :
    L.sessions = L.past ++ [σ] := by
  simp [sessions, hc]

/-- An emit keeps every session's id and creation time. -/
theorem sessions_kept_emit {L L' : Ledger φ} {pos : ℤ} {frame : φ} {now : ℚ}
    (hs : L.step (.emit pos frame now) = some L') {σ : SessionLog φ} (hσ : σ ∈ L.sessions) :
    ∃ τ ∈ L'.sessions, τ.id = σ.id ∧ τ.created = σ.created := by
  obtain ⟨τ, -, hc, -, rfl⟩ := emit_eq_some hs
  rw [sessions_of_current hc] at hσ
  rw [sessions_of_current rfl]
  rcases List.mem_append.mp hσ with hσ | hσ
  · exact ⟨σ, List.mem_append_left _ hσ, rfl, rfl⟩
  · obtain rfl := List.mem_singleton.mp hσ
    exact ⟨_, List.mem_append_right _ (List.mem_singleton_self _), rfl, rfl⟩

theorem highest_append (σ : SessionLog φ) (pos : ℤ) (frame : φ) :
    SessionLog.highest { σ with frames := σ.frames ++ [(pos, frame)] } = max σ.highest pos := by
  obtain ⟨id, created, frames⟩ := σ
  simp only [SessionLog.highest]
  induction frames with
  | nil => simp [max_comm]
  | cons f l ih => simp only [List.cons_append, List.foldr_cons, ih, max_assoc]

theorem wellFormed_emit {L L' : Ledger φ} (h : L.WellFormed) {pos : ℤ} {frame : φ} {now : ℚ}
    (hs : L.step (.emit pos frame now) = some L') : L'.WellFormed := by
  obtain ⟨σ, -, hc, hp, rfl⟩ := emit_eq_some hs
  have hse := sessions_of_current hc
  have hσ : σ ∈ L.sessions := by simp [hse]
  have hold : ∀ τ ∈ L.past, τ ∈ L.sessions := fun τ hτ => by simp [hse, hτ]
  refine ⟨?_, ?_, ?_, ?_, ?_, ?_, fun _ => rfl⟩
  · have := h.ids
    rw [hse] at this
    simpa [sessions] using this
  · have := h.created
    rw [hse, List.pairwise_append] at this
    simpa [sessions, List.pairwise_append] using this
  all_goals simp only [sessions, Option.toList_some, List.mem_append, List.mem_singleton]
  · rintro τ (hτ | rfl)
    · exact h.positions τ (hold τ hτ)
    · rw [List.pairwise_append]
      refine ⟨h.positions σ hσ, by simp, ?_⟩
      intro f hf g hg
      obtain rfl := List.mem_singleton.mp hg
      exact (pos_le_highest hf).trans_lt hp
  · rintro τ (hτ | rfl) f hf
    · exact h.positive τ (hold τ hτ) f hf
    · rcases List.mem_append.mp hf with hf | hf
      · exact h.positive σ hσ f hf
      · obtain rfl := List.mem_singleton.mp hf
        exact (highest_nonneg σ).trans_lt hp
  · rintro τ (hτ | rfl)
    · exact h.watermark τ (hold τ hτ)
    · rw [highest_append]
      exact le_max_of_le_left (h.watermark σ hσ)
  · intro s hu
    refine h.unknown s fun τ hτ => ?_
    rw [hse, List.mem_append, List.mem_singleton] at hτ
    rcases hτ with hτ | rfl
    · exact hu τ (Or.inl hτ)
    · exact hu { τ with frames := τ.frames ++ [(pos, frame)] } (Or.inr rfl)

theorem wellFormed_ack {L L' : Ledger φ} (h : L.WellFormed) {session : String} {pos : ℤ}
    (hs : L.step (.ack session pos) = some L') : L'.WellFormed := by
  simp only [step, Option.ite_none_right_eq_some, Option.some.injEq] at hs
  obtain ⟨⟨-, hp⟩, rfl⟩ := hs
  refine ⟨h.ids, h.created, h.positions, h.positive, ?_, ?_, h.running⟩
  · intro σ hσ
    rw [largestAck_append]
    split
    · rename_i hid
      subst hid
      exact max_le (h.watermark σ hσ) (h.highest_eq hσ ▸ hp)
    · exact h.watermark σ hσ
  · intro s hu
    rw [largestAck_append]
    split
    · rename_i hid
      subst hid
      have h0 := h.unknown s hu
      rw [highest_of_unknown (by exact hu)] at hp
      omega
    · exact h.unknown s hu

/-- Every possible event keeps the ledger well formed. -/
theorem wellFormed_step {L L' : Ledger φ} (h : L.WellFormed) {act : LedgerAct φ}
    (hs : L.step act = some L') : L'.WellFormed := by
  cases act with
  | astart session created => exact wellFormed_astart h hs
  | emit pos frame now => exact wellFormed_emit h hs
  | ack session pos => exact wellFormed_ack h hs
  | exit =>
    simp only [step, Option.ite_none_right_eq_some, Option.some.injEq] at hs
    obtain ⟨-, rfl⟩ := hs
    exact ⟨h.ids, h.created, h.positions, h.positive, h.watermark, h.unknown, by simp⟩

/-- A session and a position name one frame. -/
theorem WellFormed.owed_unique {L : Ledger φ} (h : L.WellFormed) {o o' : OwedFrame φ}
    (ho : o ∈ L.owed) (ho' : o' ∈ L.owed) (hs : o.session = o'.session) (hp : o.pos = o'.pos) :
    o = o' := by
  obtain ⟨σ, hσ, hid, hc, hf, -⟩ := mem_owed.mp ho
  obtain ⟨τ, hτ, hid', hc', hf', -⟩ := mem_owed.mp ho'
  obtain rfl := h.session_unique hσ hτ (by rw [hid, hid', hs])
  have hnodup : (σ.frames.map Prod.fst).Nodup :=
    List.pairwise_map.mpr ((h.positions σ hσ).imp fun hlt => hlt.ne)
  have hframe := List.inj_on_of_nodup_map hnodup hf hf' hp
  cases o
  cases o'
  simp_all

/-- A session has one creation time. -/
theorem WellFormed.owed_created_eq {L : Ledger φ} (h : L.WellFormed) {o o' : OwedFrame φ}
    (ho : o ∈ L.owed) (ho' : o' ∈ L.owed) (hs : o.session = o'.session) :
    o.created = o'.created := by
  obtain ⟨σ, hσ, hid, hc, -, -⟩ := mem_owed.mp ho
  obtain ⟨τ, hτ, hid', hc', -, -⟩ := mem_owed.mp ho'
  rw [← hc, ← hc', h.session_unique hσ hτ (by rw [hid, hid', hs])]

/-! ## How each event changes what is owed

A start owes nothing new, an emit owes one frame more, and an ack settles what its session owes up
to its position.
-/

/-- A new session owes nothing, and leaves what is owed alone. -/
theorem mem_owed_astart {L L' : Ledger φ} {session : String} {created : ℚ}
    (hs : L.step (.astart session created) = some L') {o : OwedFrame φ} :
    o ∈ L'.owed ↔ o ∈ L.owed := by
  obtain ⟨-, -, hL', hse⟩ := sessions_astart hs
  have hlargest : L'.largestAck o.session = L.largestAck o.session := by
    rw [largestAck, largestAck, hL']
  rw [mem_owed, mem_owed, hlargest, hse]
  constructor
  · rintro ⟨σ, hσ, hid, hc, hf, ha⟩
    rcases List.mem_append.mp hσ with hσ | hσ
    · exact ⟨σ, hσ, hid, hc, hf, ha⟩
    · obtain rfl := List.mem_singleton.mp hσ
      cases hf
  · rintro ⟨σ, hσ, hid, hc, hf, ha⟩
    exact ⟨σ, List.mem_append_left _ hσ, hid, hc, hf, ha⟩

/-- An emitted frame is owed at once, in its session, next to what was owed before. -/
theorem mem_owed_emit {L L' : Ledger φ} (h : L.WellFormed) {pos : ℤ} {frame : φ} {now : ℚ}
    (hs : L.step (.emit pos frame now) = some L') {σ : SessionLog φ} (hcur : L.current = some σ)
    {o : OwedFrame φ} : o ∈ L'.owed ↔ o ∈ L.owed ∨ o = ⟨σ.id, σ.created, pos, frame⟩ := by
  obtain ⟨σ', -, hcur', hp, rfl⟩ := emit_eq_some hs
  obtain rfl : σ = σ' := by simpa [hcur] using hcur'
  have hse := sessions_of_current hcur
  have hσ : σ ∈ L.sessions := by simp [hse]
  have hw := h.watermark σ hσ
  simp only [mem_owed, hse]
  simp only [sessions, Option.toList_some, List.mem_append, List.mem_singleton]
  constructor
  · rintro ⟨τ, hτ | rfl, hid, hc, hf, ha⟩
    · exact Or.inl ⟨τ, Or.inl hτ, hid, hc, hf, ha⟩
    · rcases List.mem_append.mp hf with hf | hf
      · exact Or.inl ⟨σ, Or.inr rfl, hid, hc, hf, ha⟩
      · simp only [List.mem_singleton, Prod.mk.injEq] at hf
        obtain ⟨rfl, rfl⟩ := hf
        exact Or.inr (by cases o; simp_all)
  · rintro (⟨τ, hτ | rfl, hid, hc, hf, ha⟩ | rfl)
    · exact ⟨τ, Or.inl hτ, hid, hc, hf, ha⟩
    · exact ⟨_, Or.inr rfl, hid, hc, List.mem_append_left _ hf, ha⟩
    · exact ⟨_, Or.inr rfl, rfl, rfl, by simp, hw.trans_lt hp⟩

/-- An ack settles what its session owes up to its position, and nothing else. -/
theorem mem_owed_ack {L L' : Ledger φ} {session : String} {pos : ℤ}
    (hs : L.step (.ack session pos) = some L') {o : OwedFrame φ} :
    o ∈ L'.owed ↔ o ∈ L.owed ∧ ¬ (o.session = session ∧ o.pos ≤ pos) := by
  simp only [step, Option.ite_none_right_eq_some, Option.some.injEq] at hs
  obtain ⟨-, rfl⟩ := hs
  simp only [mem_owed, largestAck_append]
  constructor
  · rintro ⟨σ, hσ, hid, hc, hf, ha⟩
    by_cases hk : o.session = session
    · rw [if_pos hk, max_lt_iff] at ha
      exact ⟨⟨σ, hσ, hid, hc, hf, ha.1⟩, by omega⟩
    · rw [if_neg hk] at ha
      exact ⟨⟨σ, hσ, hid, hc, hf, ha⟩, fun h => hk h.1⟩
  · rintro ⟨⟨σ, hσ, hid, hc, hf, ha⟩, hn⟩
    refine ⟨σ, hσ, hid, hc, hf, ?_⟩
    by_cases hk : o.session = session
    · rw [if_pos hk, max_lt_iff]
      exact ⟨ha, not_le.mp fun hle => hn ⟨hk, hle⟩⟩
    · rwa [if_neg hk]

/-- What is owed is by session creation, and by position within a session. -/
theorem WellFormed.owed_pairwise_created {L : Ledger φ} (h : L.WellFormed) :
    L.owed.Pairwise fun o o' =>
      o.created < o'.created ∨ (o.session = o'.session ∧ o.pos < o'.pos) := by
  rw [owed, List.pairwise_flatMap]
  refine ⟨fun σ hσ => ?_, h.created.imp ?_⟩
  · rw [owedOf, List.pairwise_map]
    exact ((h.positions σ hσ).filter _).imp fun hlt => Or.inr ⟨rfl, hlt⟩
  · intro σ τ hlt o ho o' ho'
    simp only [owedOf, List.mem_map] at ho ho'
    obtain ⟨f, -, rfl⟩ := ho
    obtain ⟨g, -, rfl⟩ := ho'
    exact Or.inl hlt

/-- What is owed is strictly in resend order. -/
theorem WellFormed.owed_pairwise {L : Ledger φ} (h : L.WellFormed) :
    L.owed.Pairwise fun o o' =>
      resendRank o.created o.session o.pos < resendRank o'.created o'.session o'.pos := by
  refine h.owed_pairwise_created.imp_of_mem fun {o o'} ho ho' hlt => ?_
  rcases hlt with hlt | ⟨hs, hlt⟩
  · exact resendRank_lt_of_created_lt hlt _ _ _ _
  · rw [h.owed_created_eq ho ho' hs, hs]
    exact resendRank_lt_of_pos_lt hlt _ _

end Ledger

end Rekuest
