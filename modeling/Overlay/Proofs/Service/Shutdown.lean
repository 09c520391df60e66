import Mathlib
import Overlay.Proofs.Service.Tidy

/-!
What is left of a service after shutdown. No later step changes the peers, no call is served, and
whoever still waits keeps waiting until the worker runs once more. It looks whether it was stopped
before it takes up any command, so it discards them all, and tells those who wait.
-/

namespace Overlay.Service

/-- True of the two ways to make a shutdown. -/
def Step.isShutdown : Step → Bool
  | .call .shutdown | .pend .shutdown => true
  | _ => false

theorem Step.isShutdown_iff {a : Step} :
    a.isShutdown = true ↔ a = .call .shutdown ∨ a = .pend .shutdown := by
  cases a with
  | call c => cases c <;> simp [Step.isShutdown]
  | pend c => cases c <;> simp [Step.isShutdown]
  | _ => simp [Step.isShutdown]

/-- What a stopped service tells its callers. Only the question who is responsible looks at the
space of its key first. -/
def lastWord (origin : Node) : Call → Outcome
  | .request (.covers key) =>
    if key.space = origin.id.space then .error .stopped
    else .error (.id (.otherSpace origin.id.space key.space))
  | .request _ => .error .stopped
  | .shutdown => .ok .done
  | .status => .ok (.status { origin, stopped := true })

/-- What a caller is told whose command was discarded, or who has been told something before. -/
def Ticket.lastWord : Ticket → Outcome
  | .waiting _ => .error .stopped
  | .settled outcome => outcome

namespace Session

variable {s : Session}

theorem refusal?_stopped (hstopped : s.stopped = true) (r : Request) :
    ∃ e, s.refusal? r = some e ∧ lastWord s.origin (.request r) = .error e := by
  cases r with
  | covers key =>
    by_cases hspace : key.space = s.origin.id.space
    · exact ⟨.stopped, by simp [refusal?, foreign?, stopped?, hspace, hstopped],
        by simp [lastWord, hspace]⟩
    · exact ⟨.id (.otherSpace s.origin.id.space key.space),
        by simp [refusal?, foreign?, hspace], by simp [lastWord, hspace]⟩
  | _ => exact ⟨.stopped, by simp [refusal?, stopped?, hstopped], rfl⟩

theorem immediate?_stopped (hstopped : s.stopped = true) (r : Request) :
    s.immediate? r = some (lastWord s.origin (.request r), []) := by
  obtain ⟨e, hrefusal, hword⟩ := refusal?_stopped hstopped r
  rw [immediate?, hrefusal, hword]

theorem call_stopped (hstopped : s.stopped = true) (c : Call) :
    s.call c = (s, lastWord s.origin c, []) := by
  cases c with
  | request r => simp only [call, ask, immediate?_stopped hstopped r]
  | shutdown => simp only [call, shutdown, hstopped, if_true, lastWord]
  | status => simp only [call, status, hstopped, lastWord]

theorem pend_stopped (hstopped : s.stopped = true) (c : Call) :
    s.pend c = (s.issue (.settled (lastWord s.origin c)), []) := by
  have hsettled : s.pendSettled c = (s.issue (.settled (lastWord s.origin c)), []) := by
    simp only [pendSettled, call_stopped hstopped c]
  cases c with
  | request r => simpa [pend, immediate?_stopped hstopped r] using hsettled
  | shutdown => exact hsettled
  | status => exact hsettled

/-- A session behind a shutdown, which has kept its peers. -/
structure Frozen (s t : Session) : Prop extends Tidy t where
  origin : t.origin = s.origin
  stopped : t.stopped = true
  peers : t.peers = s.peers

theorem Tidy.frozen_shutdown (h : s.Tidy) :
    s.Frozen s.shutdown.1 ∧ s.shutdown.1.released = s.released ∧
      s.shutdown.1.tickets = s.tickets := by
  have htidy := h.shutdown
  rcases s.shutdown_cases with ⟨hstopped, hsame⟩ | ⟨-, hactive, hfinish⟩ | ⟨-, -, hstopping⟩
  · rw [hsame]
    exact ⟨⟨h, rfl, hstopped, rfl⟩, rfl, rfl⟩
  · -- A worker that runs has nothing to discard.
    have hnothing := h.idle (by simp [hactive])
    rw [hfinish] at htidy ⊢
    refine ⟨⟨htidy, rfl, rfl, rfl⟩, rfl, ?_⟩
    rw [finish_eq, hnothing]
    rfl
  · rw [hstopping] at htidy ⊢
    exact ⟨⟨htidy, rfl, rfl, rfl⟩, rfl, rfl⟩

/-- A shutdown is made directly, or started like any other call. -/
theorem Tidy.frozen_step_shutdown (h : s.Tidy) (hhandle : s.released = false) {a : Step}
    (hshutdown : a = .call .shutdown ∨ a = .pend .shutdown) :
    s.Frozen (s.step a).1 ∧ (s.step a).1.released = false ∧
      s.tickets <+: (s.step a).1.tickets := by
  obtain ⟨hfrozen, hreleased, htickets⟩ := h.frozen_shutdown
  have htidy := h.step a
  rcases hshutdown with rfl | rfl
  · rw [step_call hhandle, Session.call]
    exact ⟨hfrozen, hreleased.trans hhandle, htickets ▸ List.prefix_rfl⟩
  · have hpend : (s.pend .shutdown).1 = s.shutdown.1.issue (.settled (.ok .done)) := rfl
    rw [step_pend hhandle, hpend] at htidy ⊢
    exact ⟨⟨htidy, hfrozen.origin, hfrozen.stopped, hfrozen.peers⟩, hreleased.trans hhandle,
      htickets ▸ List.prefix_append _ _⟩

theorem Frozen.not_active {t : Session} (h : s.Frozen t) : t.phase ≠ .active := by
  intro hactive
  have hrunning := h.serving hactive
  rw [h.stopped] at hrunning
  cases hrunning

/-- A stopped worker that wakes up discards all commands. -/
theorem Frozen.wake_eq {t : Session} (h : s.Frozen t) :
    t.phase = .finished ∧ t.wake.1 = t ∨ t.phase = .stalled ∧ t.wake.1 = t.finish.1 := by
  have hactive := h.not_active
  cases hphase : t.phase with
  | active => exact absurd hphase hactive
  | stalled => exact Or.inr ⟨rfl, by rw [wake, if_pos hphase, work_stopped h.stopped]⟩
  | finished => exact Or.inl ⟨rfl, by rw [wake, if_neg (by simp [hphase])]⟩

/-- One step of a stopped service: handles are lost only by a release, and tickets are collected
only by a resumption. -/
theorem Frozen.step {t : Session} (h : s.Frozen t) (a : Step) :
    s.Frozen (t.step a).1 ∧ (a ≠ .release → (t.step a).1.released = t.released) ∧
      (a ≠ .resume → t.tickets <+: (t.step a).1.tickets) := by
  have htidy := h.toTidy.step a
  have hsame : s.Frozen t ∧ (a ≠ .release → t.released = t.released) ∧
      (a ≠ .resume → t.tickets <+: t.tickets) :=
    ⟨h, fun _ => rfl, fun _ => List.prefix_rfl⟩
  cases a with
  | call c =>
    cases hopen : t.released with
    | true =>
      rw [step_released hopen rfl, ← hopen]
      exact hsame
    | false =>
      rw [step_call hopen, call_stopped h.stopped, ← hopen]
      exact hsame
  | pend c =>
    cases hopen : t.released with
    | true =>
      rw [step_released hopen rfl, ← hopen]
      exact hsame
    | false =>
      rw [step_pend hopen, pend_stopped h.stopped] at htidy ⊢
      exact ⟨⟨htidy, h.origin, h.stopped, h.peers⟩, fun _ => hopen,
        fun _ => List.prefix_append _ _⟩
  | stall =>
    rw [step_stall, Session.stall, if_neg h.not_active]
    exact hsame
  | resume =>
    have hwake : t.wake.1.origin = t.origin ∧ t.wake.1.stopped = true ∧
        t.wake.1.peers = t.peers ∧ t.wake.1.released = t.released := by
      rcases h.wake_eq with ⟨-, hwake⟩ | ⟨-, hwake⟩ <;> rw [hwake]
      · exact ⟨rfl, h.stopped, rfl, rfl⟩
      · exact ⟨rfl, rfl, rfl, rfl⟩
    obtain ⟨horigin, hstopped, hpeers, hreleased⟩ := hwake
    rw [step_resume] at htidy ⊢
    exact ⟨⟨htidy, horigin.trans h.origin, hstopped, hpeers.trans h.peers⟩, fun _ => hreleased,
      fun hresume => absurd rfl hresume⟩
  | release =>
    rw [step_release, release, if_neg h.not_active] at htidy ⊢
    exact ⟨⟨htidy, h.origin, h.stopped, h.peers⟩, fun hrelease => absurd rfl hrelease,
      fun _ => List.prefix_rfl⟩

/-- The invariant of everything that can follow a shutdown. -/
theorem Frozen.run {t : Session} (h : s.Frozen t) (steps : List Step) :
    s.Frozen (t.run steps).1 ∧ (.release ∉ steps → (t.run steps).1.released = t.released) ∧
      (.resume ∉ steps → t.tickets <+: (t.run steps).1.tickets) := by
  induction steps generalizing t with
  | nil => exact ⟨h, fun _ => rfl, fun _ => List.prefix_rfl⟩
  | cons a steps ih =>
    obtain ⟨hstep, hreleased, htickets⟩ := h.step a
    obtain ⟨hrun, hreleased', htickets'⟩ := ih hstep
    refine ⟨hrun, ?_, ?_⟩
    · intro hrelease
      obtain ⟨hne, hrest⟩ := not_or.mp (mt List.mem_cons.mpr hrelease)
      exact (hreleased' hrest).trans (hreleased (Ne.symm hne))
    · intro hresume
      obtain ⟨hne, hrest⟩ := not_or.mp (mt List.mem_cons.mpr hresume)
      exact (htickets (Ne.symm hne)).trans (htickets' hrest)

theorem getElem?_of_begins {α : Type} {xs ys : List α} (h : xs <+: ys) {i : Nat} {x : α}
    (hx : xs[i]? = some x) : ys[i]? = some x := by
  obtain ⟨hlt, rfl⟩ := List.getElem?_eq_some_iff.mp hx
  exact List.prefix_iff_getElem?.mp h i hlt

/-- Whoever waited when the service was stopped is told so when the worker runs again. -/
theorem Frozen.resume {t : Session} (h : s.Frozen t) (hbegins : s.tickets <+: t.tickets) {i : Nat}
    {ticket : Ticket} (hticket : s.tickets[i]? = some ticket) :
    t.resume.2.1[i]? = some ticket.lastWord := by
  have hkept : t.tickets[i]? = some ticket := getElem?_of_begins hbegins hticket
  have htold : t.wake.1.tickets[i]? = some (.settled ticket.lastWord) := by
    rcases h.wake_eq with ⟨hfinished, hwake⟩ | ⟨-, hwake⟩
    · rw [hwake]
      cases ticket with
      | settled o => exact hkept
      | waiting r =>
        have hcommand := (h.waiting_iff i r).mp hkept
        rw [h.idle (by simp [hfinished])] at hcommand
        cases hcommand
    · obtain ⟨o, ho, hanswer⟩ := h.settleAll (map_fst_discarded t.commands) hkept
      rw [hwake, finish_eq]
      refine ho.trans ?_
      cases ticket with
      | settled earlier =>
        rw [hanswer]
        rfl
      | waiting r =>
        obtain ⟨c, -, hc⟩ := List.mem_map.mp hanswer
        cases hc
        rfl
  exact h.resume_of_wake htold

end Session

end Overlay.Service
