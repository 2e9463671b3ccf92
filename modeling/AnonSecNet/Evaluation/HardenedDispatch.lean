import AnonSecNet.Evaluation.CoverClock
import AnonSecNet.Foundation.Sweep

/-! `gen_hardened_dispatch` of `flowcorr_run.py`: one clock for real packets and cover. -/
namespace AnonSecNet.Evaluation
open Sweep

def queueDepthHardened : Nat := 63

/-- The variables of the loop. -/
structure Dispatch where
  queueDepth : Nat
  dispatchedReal : List ℚ
  coverTimes : List ℚ
deriving DecidableEq

def Dispatch.initial : Dispatch := ⟨0, [], []⟩

/-- An arrival; it is lost when the queue is full. -/
def Dispatch.arrive (s : Dispatch) (_arrival : ℚ) : Dispatch :=
  if s.queueDepth < queueDepthHardened then { s with queueDepth := s.queueDepth + 1 } else s

def Dispatch.tick (s : Dispatch) (t : ℚ) : Dispatch :=
  if 0 < s.queueDepth then
    { s with queueDepth := s.queueDepth - 1, dispatchedReal := s.dispatchedReal ++ [t] }
  else { s with coverTimes := s.coverTimes ++ [t] }

variable (expovariate : Expovariate) (mean : ℚ)

def hardenedLoop (rng : Rng) (realArrivalTimes : List ℚ) (durationS : ℚ) : Dispatch :=
  sweep Dispatch.arrive Dispatch.tick (dueBy id)
    (realArrivalTimes.insertionSort (· ≤ ·))
    (clockTicks expovariate mean (durationS * 1000) rng) .initial

/-- The dispatched real times and the cover times. -/
def genHardenedDispatch (rng : Rng) (realArrivalTimes : List ℚ) (durationS : ℚ) :
    List ℚ × List ℚ :=
  ((hardenedLoop expovariate mean rng realArrivalTimes durationS).dispatchedReal,
    (hardenedLoop expovariate mean rng realArrivalTimes durationS).coverTimes)

/-- What an observer sees. -/
def observed (dispatch : List ℚ × List ℚ) : List ℚ :=
  (dispatch.1 ++ dispatch.2).insertionSort (· ≤ ·)

/-- The arrivals and ticks of the loop in the order in which it meets them. -/
def hardenedEvents (rng : Rng) (realArrivalTimes : List ℚ) (durationS : ℚ) : List (ℚ ⊕ ℚ) :=
  merged (dueBy id) (realArrivalTimes.insertionSort (· ≤ ·))
    (clockTicks expovariate mean (durationS * 1000) rng)

/-- The loop with the arrivals that it has let into its queue. -/
structure AdmittedLog where
  dispatch : Dispatch
  admitted : List ℚ

def AdmittedLog.arrive (l : AdmittedLog) (arrival : ℚ) : AdmittedLog :=
  { dispatch := l.dispatch.arrive arrival
    admitted := if l.dispatch.queueDepth < queueDepthHardened then l.admitted ++ [arrival]
      else l.admitted }

def AdmittedLog.tick (l : AdmittedLog) (t : ℚ) : AdmittedLog :=
  { l with dispatch := l.dispatch.tick t }

def admittedLog (events : List (ℚ ⊕ ℚ)) : AdmittedLog :=
  Machine.run (step AdmittedLog.arrive AdmittedLog.tick) events ⟨.initial, []⟩

/-- What holds at time `now`: the packets that have left are the first ones admitted, each of
them was sent no earlier than it came, and the others are in the queue. -/
structure AdmittedLog.Fifo (now : ℚ) (l : AdmittedLog) : Prop where
  queue : l.dispatch.queueDepth + l.dispatch.dispatchedReal.length = l.admitted.length
  past : ∀ a ∈ l.admitted, a ≤ now
  matched : List.Forall₂ (· ≤ ·) (l.admitted.take l.dispatch.dispatchedReal.length)
    l.dispatch.dispatchedReal

/-! Every tick sends one packet. -/

section
omit expovariate mean

theorem Dispatch.arrive_sent (s : Dispatch) (arrival : ℚ) :
    (s.arrive arrival).dispatchedReal = s.dispatchedReal ∧
      (s.arrive arrival).coverTimes = s.coverTimes := by
  unfold Dispatch.arrive
  split <;> exact ⟨rfl, rfl⟩

theorem Dispatch.tick_sent (s : Dispatch) (t : ℚ) :
    ((s.tick t).dispatchedReal ++ (s.tick t).coverTimes).Perm
      (s.dispatchedReal ++ s.coverTimes ++ [t]) := by
  unfold Dispatch.tick
  split
  · simp only [List.append_assoc]
    exact List.perm_append_comm.append_left s.dispatchedReal
  · simp only [List.append_assoc]
    exact List.Perm.refl _

theorem run_sent_perm (events : List (ℚ ⊕ ℚ)) (s : Dispatch) :
    ((Machine.run (step Dispatch.arrive Dispatch.tick) events s).dispatchedReal ++
        (Machine.run (step Dispatch.arrive Dispatch.tick) events s).coverTimes).Perm
      (s.dispatchedReal ++ s.coverTimes ++ events.filterMap Sum.getRight?) := by
  induction events generalizing s with
  | nil =>
    rw [List.filterMap_nil, List.append_nil]
    exact List.Perm.refl _
  | cons e events ih =>
    cases e with
    | inl arrival =>
      obtain ⟨hreal, hcover⟩ := s.arrive_sent arrival
      have hrest := ih (s.arrive arrival)
      rw [hreal, hcover] at hrest
      exact hrest
    | inr t =>
      have hrest := (ih (s.tick t)).trans ((s.tick_sent t).append_right _)
      rw [List.append_assoc] at hrest
      exact hrest

theorem Dispatch.step_queueDepth {s : Dispatch} (h : s.queueDepth ≤ queueDepthHardened)
    (e : ℚ ⊕ ℚ) :
    (step Dispatch.arrive Dispatch.tick s e).queueDepth ≤ queueDepthHardened := by
  cases e with
  | inl arrival =>
    change (s.arrive arrival).queueDepth ≤ _
    unfold Dispatch.arrive
    split
    · rename_i hroom
      exact hroom
    · exact h
  | inr t =>
    change (s.tick t).queueDepth ≤ _
    unfold Dispatch.tick
    split
    · exact (Nat.sub_le _ _).trans h
    · exact h

end

theorem hardenedLoop_eq (rng : Rng) (realArrivalTimes : List ℚ) (durationS : ℚ) :
    hardenedLoop expovariate mean rng realArrivalTimes durationS
      = Machine.run (step Dispatch.arrive Dispatch.tick)
        (hardenedEvents expovariate mean rng realArrivalTimes durationS) .initial :=
  sweep_eq_run _ _ _ _ _ _

theorem observed_eq (rng : Rng) (realArrivalTimes : List ℚ) (durationS : ℚ) :
    observed (genHardenedDispatch expovariate mean rng realArrivalTimes durationS)
      = clockTicks expovariate mean (durationS * 1000) rng := by
  have hperm := run_sent_perm (hardenedEvents expovariate mean rng realArrivalTimes durationS)
    .initial
  rw [← hardenedLoop_eq, hardenedEvents, ticks_eq] at hperm
  exact ((List.perm_insertionSort _ _).trans hperm).eq_of_pairwise'
    (List.pairwise_insertionSort _ _) (clockTicks_sorted expovariate mean _ rng)

/-! The packets in the queue. -/

section
omit expovariate mean

theorem admittedLog_dispatch (events : List (ℚ ⊕ ℚ)) (l : AdmittedLog) :
    (Machine.run (step AdmittedLog.arrive AdmittedLog.tick) events l).dispatch
      = Machine.run (step Dispatch.arrive Dispatch.tick) events l.dispatch := by
  induction events generalizing l with
  | nil => rfl
  | cons e events ih =>
    refine (ih _).trans ?_
    cases e <;> rfl

theorem AdmittedLog.Fifo.arrive {l : AdmittedLog} {a : ℚ} (h : l.Fifo a) :
    (l.arrive a).Fifo a := by
  obtain ⟨hqueue, hpast, hmatched⟩ := h
  by_cases hroom : l.dispatch.queueDepth < queueDepthHardened
  · have hdispatch : (l.arrive a).dispatch
        = { l.dispatch with queueDepth := l.dispatch.queueDepth + 1 } := if_pos hroom
    have hadmitted : (l.arrive a).admitted = l.admitted ++ [a] := if_pos hroom
    refine ⟨?_, ?_, ?_⟩
    · rw [hdispatch, hadmitted, List.length_append, List.length_singleton]
      dsimp only
      omega
    · rw [hadmitted]
      intro b hb
      obtain hb | hb := List.mem_append.mp hb
      · exact hpast b hb
      · exact (List.mem_singleton.mp hb).le
    · rw [hdispatch, hadmitted, List.take_append_of_le_length (by dsimp only; omega)]
      exact hmatched
  · have hsame : l.arrive a = l := by
      unfold AdmittedLog.arrive Dispatch.arrive
      rw [if_neg hroom, if_neg hroom]
    rw [hsame]
    exact ⟨hqueue, hpast, hmatched⟩

theorem AdmittedLog.Fifo.tick {l : AdmittedLog} {t : ℚ} (h : l.Fifo t) : (l.tick t).Fifo t := by
  obtain ⟨hqueue, hpast, hmatched⟩ := h
  by_cases hwaiting : 0 < l.dispatch.queueDepth
  · have hdispatch : (l.tick t).dispatch = { l.dispatch with
        queueDepth := l.dispatch.queueDepth - 1
        dispatchedReal := l.dispatch.dispatchedReal ++ [t] } := if_pos hwaiting
    have hnext : l.dispatch.dispatchedReal.length < l.admitted.length := by omega
    refine ⟨?_, hpast, ?_⟩
    · change (l.tick t).dispatch.queueDepth + _ = l.admitted.length
      rw [hdispatch, List.length_append, List.length_singleton]
      dsimp only
      omega
    · change List.Forall₂ _ (l.admitted.take _) _
      rw [hdispatch]
      dsimp only
      rw [List.length_append, List.length_singleton, List.take_succ_eq_append_getElem hnext]
      exact List.rel_append hmatched (.cons (hpast _ (List.getElem_mem hnext)) .nil)
  · have hdispatch : (l.tick t).dispatch
        = { l.dispatch with coverTimes := l.dispatch.coverTimes ++ [t] } := if_neg hwaiting
    refine ⟨?_, hpast, ?_⟩
    · change (l.tick t).dispatch.queueDepth + _ = l.admitted.length
      rw [hdispatch]
      exact hqueue
    · change List.Forall₂ _ (l.admitted.take _) _
      rw [hdispatch]
      exact hmatched

theorem AdmittedLog.Fifo.later {l : AdmittedLog} {now now' : ℚ} (hle : now ≤ now')
    (h : l.Fifo now) : l.Fifo now' :=
  ⟨h.queue, fun a ha => (h.past a ha).trans hle, h.matched⟩

/-- Only arrivals are let in, in their order. -/
theorem admitted_sublist (events : List (ℚ ⊕ ℚ)) (l : AdmittedLog) :
    (Machine.run (step AdmittedLog.arrive AdmittedLog.tick) events l).admitted.Sublist
      (l.admitted ++ events.filterMap Sum.getLeft?) := by
  induction events generalizing l with
  | nil =>
    rw [List.filterMap_nil, List.append_nil]
    exact List.Sublist.refl _
  | cons e events ih =>
    refine (ih _).trans ?_
    cases e with
    | inl a =>
      change List.Sublist ((l.arrive a).admitted ++ _) (l.admitted ++ a :: _)
      unfold AdmittedLog.arrive
      split
      · rw [List.append_assoc]
        exact List.Sublist.refl _
      · exact (List.sublist_cons_self _ _).append_left _
    | inr t => exact List.Sublist.refl _

end

/-- The arrivals that the dispatch lets into its queue. -/
def admittedArrivals (rng : Rng) (realArrivalTimes : List ℚ) (durationS : ℚ) : List ℚ :=
  (admittedLog (hardenedEvents expovariate mean rng realArrivalTimes durationS)).admitted

theorem admittedLog_fifo (rng : Rng) (realArrivalTimes : List ℚ) (durationS : ℚ) :
    ∃ now, (admittedLog (hardenedEvents expovariate mean rng realArrivalTimes durationS)).Fifo
      now := by
  have hsorted := merged_sorted id (List.pairwise_insertionSort (· ≤ ·) realArrivalTimes)
    (clockTicks_sorted expovariate mean (durationS * 1000) rng)
  have hstart : ∀ now, AdmittedLog.Fifo now ⟨.initial, []⟩ := fun now =>
    ⟨rfl, fun _ h => absurd h List.not_mem_nil, .nil⟩
  refine run_timed_end (P := AdmittedLog.Fifo)
    (fun _ _ _ hle h => AdmittedLog.Fifo.later hle h) ?_ hsorted hstart
  intro l e h
  cases e with
  | inl a => exact AdmittedLog.Fifo.arrive h
  | inr t => exact AdmittedLog.Fifo.tick h

/-- What leaves at the dispatch clock says nothing of the arrivals: one packet at each tick
before the horizon. Real packets leave in the order in which they are let into a queue of
bounded depth, none before it came. -/
theorem hardened_dispatch_hides (rng : Rng) (durationS : ℚ) :
    (∀ realTimes realTimes',
      observed (genHardenedDispatch expovariate mean rng realTimes durationS)
        = observed (genHardenedDispatch expovariate mean rng realTimes' durationS)) ∧
      (∀ realTimes, ∃ n,
        observed (genHardenedDispatch expovariate mean rng realTimes durationS)
            = (List.range n).map (fun i => clockAt expovariate mean noDraw 0 rng (i + 1)) ∧
          ∀ i, i < n ↔ clockAt expovariate mean noDraw 0 rng (i + 1) < durationS * 1000) ∧
      ∀ realTimes,
        (genHardenedDispatch expovariate mean rng realTimes durationS).1.length
            ≤ realTimes.length ∧
          List.Forall₂ (· ≤ ·)
            ((admittedArrivals expovariate mean rng realTimes durationS).take
              (genHardenedDispatch expovariate mean rng realTimes durationS).1.length)
            (genHardenedDispatch expovariate mean rng realTimes durationS).1 ∧
          (admittedArrivals expovariate mean rng realTimes durationS).Sublist
            (realTimes.insertionSort (· ≤ ·)) ∧
          ∀ past, past <+: hardenedEvents expovariate mean rng realTimes durationS →
            (Machine.run (step Dispatch.arrive Dispatch.tick) past .initial).queueDepth
              ≤ queueDepthHardened := by
  refine ⟨fun realTimes realTimes' => ?_, fun realTimes => ?_, fun realTimes => ?_⟩
  · rw [observed_eq, observed_eq]
  · rw [observed_eq]
    exact clockTicks_eq expovariate mean _ rng
  · have hloop : (admittedLog (hardenedEvents expovariate mean rng realTimes durationS)).dispatch
        = hardenedLoop expovariate mean rng realTimes durationS := by
      rw [hardenedLoop_eq]
      exact admittedLog_dispatch _ _
    obtain ⟨now, hfifo⟩ := admittedLog_fifo expovariate mean rng realTimes durationS
    have hadmitted : (admittedArrivals expovariate mean rng realTimes durationS).Sublist
        (realTimes.insertionSort (· ≤ ·)) := by
      refine (admitted_sublist (hardenedEvents expovariate mean rng realTimes durationS)
        ⟨.initial, []⟩).trans ?_
      rw [List.nil_append, ← items_eq (dueBy id) (realTimes.insertionSort (· ≤ ·))
        (clockTicks expovariate mean (durationS * 1000) rng)]
      exact List.sublist_append_left _ _
    have hlen := hadmitted.length_le
    rw [List.length_insertionSort] at hlen
    have hqueue := hfifo.queue
    have hmatched := hfifo.matched
    rw [hloop] at hqueue hmatched
    refine ⟨?_, hmatched, hadmitted, fun past _ => ?_⟩
    · change (hardenedLoop expovariate mean rng realTimes durationS).dispatchedReal.length ≤ _
      change _ = (admittedArrivals expovariate mean rng realTimes durationS).length at hqueue
      omega
    · exact Machine.run_keeps _ (fun s : Dispatch => s.queueDepth ≤ queueDepthHardened)
        (fun s e h => Dispatch.step_queueDepth h e) past (Nat.zero_le _)

end AnonSecNet.Evaluation
