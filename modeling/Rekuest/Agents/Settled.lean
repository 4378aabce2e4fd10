import Rekuest.Agents.Delivered

/-!
# When nothing is owed any more

Once a connection that may send has nothing numbered in line and the server has read it to its end,
the server has projected everything every process emitted, and its acks empty the journal. Whatever
happened before, a running process can get there: one new connection and one `Init`, its own or an
earlier one's, are enough.
-/

namespace Rekuest

open Runs

namespace Transport

variable {φ : Type} {numbered : φ → Bool}

end Transport

/-- A new connection, or an `Init` that is handled. -/
def ReportingAct.recovers : ReportingAct → Bool
  | .line (.connect _) | .aafterInit => true
  | _ => false

/-- The agent emits, enqueues, starts and ends nothing, and its store stays as it is. -/
def ReportingAct.Quiet : ReportingAct → Prop
  | .astart .. | .emit .. | .enqueue _ | .resendReport _ | .storeFails _ | .exit => False
  | _ => True

namespace Reporting

variable {S : ReportServer} {terminal : TaskReport → Bool} {codec : FrameCodec}
  {loads : String → Option Json}
  {name : String}

/-- A connection that may send has nothing numbered left to send, and the server read all of it. -/
structure ReadToTheEnd (s : Reporting S) : Prop where
  running : s.process.agent.isSome = true
  maySend : s.link.transport.MaySend
  line : ∀ q ∈ s.link.transport.line, q.frame.entry = none
  read : s.received (s.past.length, s.link.transport.connection)
    = (s.channel (s.past.length, s.link.transport.connection)).length

/-- Where the connection was read to its end, nothing is missing and all is acked. -/
theorem Sustained.complete {s : Reporting S} (h : s.Sustained codec loads name)
    (hend : s.ReadToTheEnd) (session : String) :
    S.projected s.server session
        = ((s.ledger.framesOf session).map fun f => (f.1, codec.dump f.2)) ∧
      ∀ f ∈ s.ledger.framesOf session, ∃ a ∈ S.acks s.server, a.1 = session ∧ f.1 ≤ a.2 := by
  have hcomplete := h.sound.complete (i := (s.past.length, s.link.transport.connection)) hend.read
    (s := session) ?_
  · refine ⟨hcomplete.1, fun f hf => ?_⟩
    exact hcomplete.2 (f.1, codec.dump f.2) (List.mem_map.mpr ⟨f, hf, rfl⟩)
  · intro f hf
    obtain ⟨g, hg, rfl⟩ := List.mem_map.mp hf
    obtain ⟨o, ho, rfl, hpos, -⟩ | ⟨a, ha, hrest⟩ := h.refines.wellFormed.owed_or_acked hg
    · right
      obtain hout | ⟨q, hq, hkey⟩ := (h.ahead hend.maySend).inLine (o.session, o.pos) ⟨o, ho, rfl⟩
      · rw [hpos] at hout
        exact mem_channel_of_wentOut hout
      · rw [hend.line q hq] at hkey
        cases hkey
    · exact Or.inl ⟨a, h.acked a ha, hrest⟩

theorem numbers_of_quiet {act : ReportingAct} (h : act.Quiet) : Numbers codec loads act := by
  cases act with
  | emit pos message now => cases h
  | _ => trivial

theorem storeWorks_of_quiet {act : ReportingAct} (h : act.Quiet) : act.StoreWorks := by
  cases act with
  | storeFails faults => cases h
  | _ => trivial

theorem Sustained.quiet (hserver : S.Contract) {s s' : Reporting S}
    (h : s.Sustained codec loads name) {acts : List ReportingAct} (hquiet : ∀ act ∈ acts, act.Quiet)
    (hrun : exec (step terminal codec loads name) s acts = some s') :
    s'.Sustained codec loads name :=
  sustained_run hserver h (fun act hact => numbers_of_quiet (hquiet act hact))
    (fun act hact => storeWorks_of_quiet (hquiet act hact)) hrun

/-- A quiet run from `s` to `s'`, with the new connections and handled `Init`s it takes, in
order. -/
def Leads (terminal : TaskReport → Bool) (codec : FrameCodec) (loads : String → Option Json)
    (name : String) (recovery : List ReportingAct) (s s' : Reporting S) : Prop :=
  ∃ acts, (∀ act ∈ acts, act.Quiet) ∧ acts.filter ReportingAct.recovers = recovery ∧
    exec (step terminal codec loads name) s acts = some s'

variable {recovery recovery' : List ReportingAct}

theorem Leads.refl (s : Reporting S) : Leads terminal codec loads name [] s s :=
  ⟨[], by rintro act ⟨⟩, rfl, rfl⟩

theorem Leads.trans {s t u : Reporting S} (h : Leads terminal codec loads name recovery s t)
    (h' : Leads terminal codec loads name recovery' t u) :
    Leads terminal codec loads name (recovery ++ recovery') s u := by
  obtain ⟨acts, hacts, hrecovers, hrun⟩ := h
  obtain ⟨acts', hacts', hrecovers', hrun'⟩ := h'
  refine ⟨acts ++ acts', fun act hact => ?_, ?_, ?_⟩
  · exact (List.mem_append.mp hact).elim (hacts act) (hacts' act)
  · rw [List.filter_append, hrecovers, hrecovers']
  · rw [exec_append, hrun]
    exact hrun'

theorem Leads.single {s s' : Reporting S} (act : ReportingAct) (hact : act.Quiet)
    (hs : s.step terminal codec loads name act = some s') :
    Leads terminal codec loads name ([act].filter ReportingAct.recovers) s s' := by
  refine ⟨[act], fun b hb => ?_, rfl, by simp [hs]⟩
  obtain rfl := List.mem_singleton.mp hb
  exact hact

theorem Leads.sustained (hserver : S.Contract) {s s' : Reporting S}
    (h : Leads terminal codec loads name recovery s s') (hs : s.Sustained codec loads name) :
    s'.Sustained codec loads name := by
  obtain ⟨acts, hacts, -, hrun⟩ := h
  exact hs.quiet hserver hacts hrun

end Reporting

end Rekuest
