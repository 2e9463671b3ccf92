import AnonSecNet.Client.SharedDispatch
import AnonSecNet.Evaluation.HardenedDispatch

/-! The mailbox of the clients beside the queue that the evaluation has in its place. -/
namespace AnonSecNet.Evaluation
open Sweep
open Client (SharedDispatch DispatchOp dispatchStep)

/-- What the client does at an event when its paths are ready and its entry node accepts. A real
packet is known by the time of its request. -/
def mailboxOps : ℚ ⊕ ℚ → List (DispatchOp (Option ℚ) ℚ)
  | .inl arrival => [.queue (some arrival)]
  | .inr t => [.drain t true (some none), .connect true]

def mailboxRun (events : List (ℚ ⊕ ℚ)) : SharedDispatch (Option ℚ) ℚ :=
  Machine.run dispatchStep (events.flatMap mailboxOps) (.initial _ _)

/-- The ticks that sent a real packet. -/
def realTicks (s : SharedDispatch (Option ℚ) ℚ) : List ℚ :=
  (s.sent.filter fun e => e.2.1).map Prod.fst

/-- An arrival that the simulated queue has no room for. -/
def Dropped (s : Dispatch) (e : ℚ ⊕ ℚ) : Prop :=
  e.isLeft = true ∧ s.queueDepth = queueDepthHardened

instance (s : Dispatch) (e : ℚ ⊕ ℚ) : Decidable (Dropped s e) :=
  inferInstanceAs (Decidable (_ ∧ _))

/-- What the client has in its mailbox is in the simulated queue; while nothing was overwritten,
that is all there is. -/
structure Follows (s : SharedDispatch (Option ℚ) ℚ) (d : Dispatch) : Prop where
  asleep : s.pc = .asleep
  waiting : s.pending.isSome = true → 0 < d.queueDepth
  real : (realTicks s).Sublist d.dispatchedReal
  same : s.overwritten = [] →
    d.queueDepth = s.pending.toList.length ∧ realTicks s = d.dispatchedReal

theorem Follows.initial : Follows (.initial _ _) .initial where
  asleep := rfl
  waiting h := by cases h
  real := List.Sublist.refl _
  same _ := ⟨rfl, rfl⟩

theorem mailbox_arrive (s : SharedDispatch (Option ℚ) ℚ) (arrival : ℚ) :
    Machine.run dispatchStep (mailboxOps (.inl arrival)) s = s.queue (some arrival) := rfl

theorem mailbox_tick_real {s : SharedDispatch (Option ℚ) ℚ} (hpc : s.pc = .asleep)
    {pkt : Option ℚ} (hpending : s.pending = some pkt) (t : ℚ) :
    Machine.run dispatchStep (mailboxOps (.inr t)) s
      = { s with pending := none, sent := s.sent ++ [(t, true, pkt)] } := by
  simp [mailboxOps, Machine.run, dispatchStep, SharedDispatch.drain, hpc, hpending]

theorem mailbox_tick_cover {s : SharedDispatch (Option ℚ) ℚ} (hpc : s.pc = .asleep)
    (hpending : s.pending = none) (t : ℚ) :
    Machine.run dispatchStep (mailboxOps (.inr t)) s
      = { s with sent := s.sent ++ [(t, false, none)] } := by
  simp [mailboxOps, Machine.run, dispatchStep, SharedDispatch.drain, hpc, hpending]

theorem Follows.arrive {s : SharedDispatch (Option ℚ) ℚ} {d : Dispatch} (h : Follows s d)
    (arrival : ℚ) : Follows (s.queue (some arrival)) (d.arrive arrival) := by
  obtain ⟨hreal, -⟩ := d.arrive_sent arrival
  refine ⟨h.asleep, fun _ => ?_, ?_, fun hnone => ?_⟩
  · unfold Dispatch.arrive
    split
    · exact Nat.succ_pos _
    · rename_i hfull
      exact Nat.lt_of_lt_of_le (by decide) (not_lt.mp hfull)
  · rw [hreal]
    exact h.real
  · obtain ⟨hover, hpending⟩ := List.append_eq_nil_iff.mp
      (show s.overwritten ++ s.pending.toList = [] from hnone)
    obtain ⟨hdepth, hticks⟩ := h.same hover
    rw [hpending] at hdepth
    refine ⟨?_, hticks.trans hreal.symm⟩
    unfold Dispatch.arrive
    rw [hdepth, if_pos (by decide)]
    rfl

theorem Follows.tick {s : SharedDispatch (Option ℚ) ℚ} {d : Dispatch} (h : Follows s d) (t : ℚ) :
    Follows (Machine.run dispatchStep (mailboxOps (.inr t)) s) (d.tick t) := by
  cases hpending : s.pending with
  | some pkt =>
    rw [mailbox_tick_real h.asleep hpending]
    have hdepth := h.waiting (by rw [hpending]; rfl)
    have hticks : realTicks { s with pending := none, sent := s.sent ++ [(t, true, pkt)] }
        = realTicks s ++ [t] := by simp [realTicks]
    unfold Dispatch.tick
    rw [if_pos hdepth]
    refine ⟨h.asleep, fun hsome => (by cases hsome), ?_, fun hnone => ?_⟩
    · rw [hticks]
      exact h.real.append_right [t]
    · obtain ⟨hlength, hsame⟩ := h.same hnone
      rw [hpending] at hlength
      rw [hticks, hsame]
      exact ⟨congrArg (· - 1) hlength, rfl⟩
  | none =>
    rw [mailbox_tick_cover h.asleep hpending]
    have hticks : realTicks { s with sent := s.sent ++ [(t, false, none)] } = realTicks s := by
      simp [realTicks]
    refine ⟨h.asleep, fun hsome => ?_, ?_, fun hnone => ?_⟩
    · dsimp only at hsome
      rw [hpending] at hsome
      cases hsome
    · rw [hticks]
      refine h.real.trans ?_
      unfold Dispatch.tick
      split
      · exact List.sublist_append_left _ _
      · exact List.Sublist.refl _
    · obtain ⟨hlength, hsame⟩ := h.same hnone
      rw [hpending] at hlength
      unfold Dispatch.tick
      rw [if_neg (by rw [hlength]; exact Nat.lt_irrefl 0), hticks]
      dsimp only
      rw [hpending]
      exact ⟨hlength, hsame⟩

theorem Follows.step {s : SharedDispatch (Option ℚ) ℚ} {d : Dispatch} (h : Follows s d)
    (e : ℚ ⊕ ℚ) : Follows (Machine.run dispatchStep (mailboxOps e) s)
      (Sweep.step Dispatch.arrive Dispatch.tick d e) := by
  cases e with
  | inl arrival => exact h.arrive arrival
  | inr t => exact h.tick t

theorem Follows.run (events : List (ℚ ⊕ ℚ)) {s : SharedDispatch (Option ℚ) ℚ} {d : Dispatch}
    (h : Follows s d) : Follows (Machine.run dispatchStep (events.flatMap mailboxOps) s)
      (Machine.run (Sweep.step Dispatch.arrive Dispatch.tick) events d) := by
  induction events generalizing s d with
  | nil => exact h
  | cons e events ih =>
    rw [List.flatMap_cons, Machine.run_append]
    exact ih (h.step e)

/-! Every tick sends, and every arrival is somewhere. -/

theorem mailbox_sendTimes (events : List (ℚ ⊕ ℚ)) {s : SharedDispatch (Option ℚ) ℚ}
    (hpc : s.pc = .asleep) :
    (Machine.run dispatchStep (events.flatMap mailboxOps) s).sendTimes
        = s.sendTimes ++ events.filterMap Sum.getRight? ∧
      (Machine.run dispatchStep (events.flatMap mailboxOps) s).queued.length
        = s.queued.length + events.countP Sum.isLeft ∧
      (Machine.run dispatchStep (events.flatMap mailboxOps) s).unreached = s.unreached ∧
      (Machine.run dispatchStep (events.flatMap mailboxOps) s).pc = .asleep := by
  induction events generalizing s with
  | nil => exact ⟨(List.append_nil _).symm, rfl, rfl, hpc⟩
  | cons e events ih =>
    rw [List.flatMap_cons, Machine.run_append]
    cases e with
    | inl arrival =>
      obtain ⟨htimes, hqueued, hunreached, hend⟩ := ih (s := s.queue (some arrival)) hpc
      refine ⟨htimes, ?_, hunreached, hend⟩
      rw [mailbox_arrive, hqueued, List.countP_cons_of_pos (by rfl), SharedDispatch.queue,
        List.length_append, List.length_singleton]
      omega
    | inr t =>
      cases hpending : s.pending with
      | some pkt =>
        rw [mailbox_tick_real hpc hpending]
        obtain ⟨htimes, hqueued, hunreached, hend⟩ :=
          ih (s := { s with pending := none, sent := s.sent ++ [(t, true, pkt)] }) hpc
        refine ⟨?_, ?_, hunreached, hend⟩
        · rw [htimes]
          simp [SharedDispatch.sendTimes]
        · rw [hqueued, List.countP_cons_of_neg (by simp)]
      | none =>
        rw [mailbox_tick_cover hpc hpending]
        obtain ⟨htimes, hqueued, hunreached, hend⟩ :=
          ih (s := { s with sent := s.sent ++ [(t, false, none)] }) hpc
        refine ⟨?_, ?_, hunreached, hend⟩
        · rw [htimes]
          simp [SharedDispatch.sendTimes]
        · rw [hqueued, List.countP_cons_of_neg (by simp)]

theorem dispatch_arrivals (events : List (ℚ ⊕ ℚ)) {d : Dispatch}
    (hd : d.queueDepth ≤ queueDepthHardened) :
    (Machine.run (Sweep.step Dispatch.arrive Dispatch.tick) events d).dispatchedReal.length
        + (Machine.run (Sweep.step Dispatch.arrive Dispatch.tick) events d).queueDepth
        + Machine.tally (Sweep.step Dispatch.arrive Dispatch.tick) Dropped events d
      = d.dispatchedReal.length + d.queueDepth + events.countP Sum.isLeft := by
  induction events generalizing d with
  | nil => rfl
  | cons e events ih =>
    have hrest := ih (Dispatch.step_queueDepth hd e)
    simp only [Machine.run, Machine.tally]
    cases e with
    | inl arrival =>
      have hstep : (d.arrive arrival).queueDepth + (if Dropped d (.inl arrival) then 1 else 0)
          = d.queueDepth + 1 := by
        unfold Dispatch.arrive Dropped
        by_cases hroom : d.queueDepth < queueDepthHardened
        · simp [hroom, hroom.ne]
        · simp [le_antisymm hd (not_lt.mp hroom)]
      obtain ⟨hreal, -⟩ := d.arrive_sent arrival
      rw [List.countP_cons_of_pos (by rfl)]
      change _ = (d.arrive arrival).dispatchedReal.length + (d.arrive arrival).queueDepth + _
        at hrest
      rw [hreal] at hrest
      omega
    | inr t =>
      have hstep : (d.tick t).dispatchedReal.length + (d.tick t).queueDepth
          = d.dispatchedReal.length + d.queueDepth := by
        unfold Dispatch.tick
        split
        · rw [List.length_append, List.length_singleton]
          dsimp only
          omega
        · rfl
      rw [List.countP_cons_of_neg (by simp), if_neg (by simp [Dropped])]
      change _ = (d.tick t).dispatchedReal.length + (d.tick t).queueDepth + _ at hrest
      omega

theorem realTicks_length (s : SharedDispatch (Option ℚ) ℚ) :
    (realTicks s).length = s.sentReal.length := by
  simp [realTicks, SharedDispatch.sentReal]

/-- On the same arrivals and ticks the client and the simulation send at the same times. Each
tick at which the client sends a real packet is one at which the simulation does, and these are
all as long as no request overwrites another. Beyond that the numbers differ by what the one
overwrites and the other has in its queue or drops. -/
theorem mailbox_follows_simulation (expovariate : Expovariate) (mean : ℚ) (rng : Rng)
    (realArrivalTimes : List ℚ) (durationS : ℚ) :
    let events := hardenedEvents expovariate mean rng realArrivalTimes durationS
    let client := mailboxRun events
    let sim := hardenedLoop expovariate mean rng realArrivalTimes durationS
    client.sendTimes
        = observed (genHardenedDispatch expovariate mean rng realArrivalTimes durationS) ∧
      (realTicks client).Sublist sim.dispatchedReal ∧
      (client.overwritten = [] → realTicks client = sim.dispatchedReal) ∧
      (realTicks client).length + client.overwritten.length + client.pending.toList.length
        = sim.dispatchedReal.length + sim.queueDepth
          + Machine.tally (Sweep.step Dispatch.arrive Dispatch.tick) Dropped events .initial := by
  intro events client sim
  have hsim : sim = Machine.run (Sweep.step Dispatch.arrive Dispatch.tick) events .initial :=
    hardenedLoop_eq expovariate mean rng realArrivalTimes durationS
  have hfollows : Follows client sim := by
    rw [hsim]
    exact Follows.initial.run events
  obtain ⟨htimes, hqueued, hunreached, hpc⟩ :=
    mailbox_sendTimes events (s := .initial _ _) rfl
  have haccounted : client.Accounted := Machine.run_keeps _ _
    (fun s op (h : SharedDispatch.Accounted s) => h.step op) _ SharedDispatch.Accounted.initial
  refine ⟨?_, hfollows.real, fun hnone => (hfollows.same hnone).2, ?_⟩
  · rw [observed_eq]
    exact htimes.trans (ticks_eq _ _ _)
  · have hlength := haccounted.perm.length_eq
    have harrivals := dispatch_arrivals events (d := .initial) (Nat.zero_le _)
    rw [← hsim] at harrivals
    change client.queued.length = _ at hqueued
    change client.unreached = _ at hunreached
    change client.pc = _ at hpc
    rw [hqueued, hunreached, hpc] at hlength
    simp only [List.length_append, ← realTicks_length] at hlength
    have hclient : (SharedDispatch.initial (Option ℚ) ℚ).queued.length
        + (SharedDispatch.initial (Option ℚ) ℚ).unreached.length = 0 := rfl
    have hqueue : Dispatch.initial.dispatchedReal.length + Dispatch.initial.queueDepth = 0 := rfl
    have hreal : (Client.DispatchPc.asleep : Client.DispatchPc (Option ℚ) ℚ).real.length = 0 := rfl
    omega

end AnonSecNet.Evaluation
