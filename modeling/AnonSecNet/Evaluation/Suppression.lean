import AnonSecNet.Client.CoverCredit
import AnonSecNet.Evaluation.CoverClock
import AnonSecNet.Foundation.SortedSplit

/-! `gen_cover_times_with_suppression` of `flowcorr_run.py`, against the cover thread that it
stands for. -/
namespace AnonSecNet.Evaluation
open Client
variable {T : Type*} [LinearOrder T]

/-- The rounds of the loop over the ticks; `reals` are the real times still to come, in order. -/
def suppressCover (credits : Nat) (reals : List T) : List T → List T
  | [] => []
  | t :: ticks =>
    let passed := reals.takeWhile (· ≤ t)
    let reals := reals.dropWhile (· ≤ t)
    let credits := credits + passed.length
    if 0 < credits then suppressCover (credits - 1) reals ticks
    else t :: suppressCover credits reals ticks

/-- The cover times among the ticks. -/
def coverTimes (realTimes ticks : List T) : List T :=
  suppressCover 0 (realTimes.insertionSort (· ≤ ·)) ticks

def genCoverTimesWithSuppression (expovariate : Expovariate) (mean : ℚ) (rng : Rng)
    (realTimes : List ℚ) (durationS : ℚ) : List ℚ :=
  coverTimes realTimes (clockTicks expovariate mean (durationS * 1000) rng)

/-- Of a send and a tick, the send comes first just if its time is not past the tick. -/
def InTime : CoverOp T → CoverOp T → Prop
  | .credit time, .decrement tick => time ≤ tick
  | .decrement tick, .credit time => tick < time
  | _, _ => True

/-- The operations of the cover thread at the ticks and of the request threads at the sends, in
some order. -/
structure Interleaves (ticks realTimes : List T) (ops : List (CoverOp T)) : Prop where
  program : Machine.StepsMeet coverStep CoverOp.Enabled ops .initial
  finished : (Machine.run coverStep ops .initial).pc = .asleep
  ticks : ops.filterMap CoverOp.tick? = ticks
  sends : (ops.filterMap CoverOp.credit?).Perm realTimes
  inTime : ops.Pairwise InTime

/-! The thread keeps up with the loop. -/

/-- What the loop still emits, where the cover thread stands with `credits` of the loop's own:
it is within the round of its tick until it has restored the counter. -/
def ahead (pc : CoverPc T) (credits : Nat) (reals ticks : List T) : List T :=
  match pc with
  | .asleep => suppressCover credits reals ticks
  | .decremented t _ =>
    if 0 < credits then suppressCover (credits - 1) reals ticks
    else t :: suppressCover credits reals ticks
  | .restoring t => t :: suppressCover credits reals ticks

/-- The counter is the loop's credits and the sends the loop has not come to, less the decrement
of a wake-up under way. -/
structure Simulates (s : CoverThread T) (credits : Nat) (waiting : List T) : Prop where
  pending : s.pending + s.pc.owed = credits + waiting.length
  left : ∀ t left, s.pc = .decremented t left → left + 1 = credits
  restoring : ∀ t, s.pc = .restoring t → credits = 0

section
omit [LinearOrder T]
variable {s : CoverThread T} {credits : Nat} {waiting : List T}

theorem Simulates.credit (h : Simulates s credits waiting) (time : T) :
    Simulates (coverStep s (.credit time)) credits (time :: waiting) := by
  refine ⟨?_, h.left, h.restoring⟩
  have hpending := h.pending
  change s.pending + 1 + s.pc.owed = credits + ((waiting.length + 1 : Nat) : Int)
  omega

theorem Simulates.decrement (h : Simulates s credits waiting) (hpc : s.pc = .asleep) (t : T) :
    Simulates (coverStep s (.decrement t)) (credits + waiting.length) [] := by
  have hpending := h.pending
  have howed : s.pc.owed = 0 := congrArg CoverPc.owed hpc
  rw [coverStep_decrement hpc]
  refine ⟨?_, fun _ _ h => ?_, fun _ h => by cases h⟩
  · change s.pending - 1 + 1 = ((credits + waiting.length : Nat) : Int) + ((0 : Nat) : Int)
    omega
  · cases h
    omega

theorem Simulates.test_spent (h : Simulates s credits waiting) {t : T} {left : Int}
    (hpc : s.pc = .decremented t left) (hleft : 0 ≤ left) :
    0 < credits ∧ Simulates (coverStep s .test) (credits - 1) waiting := by
  have hpending := h.pending
  have hcredits := h.left t left hpc
  have howed : s.pc.owed = 1 := congrArg CoverPc.owed hpc
  rw [coverStep_test_spent hpc hleft]
  refine ⟨by omega, ?_, fun _ _ h => (by cases h), fun _ h => by cases h⟩
  change s.pending + 0 = _
  omega

theorem Simulates.test_none (h : Simulates s credits waiting) {t : T} {left : Int}
    (hpc : s.pc = .decremented t left) (hleft : left < 0) :
    credits = 0 ∧ Simulates (coverStep s .test) credits waiting := by
  have hpending := h.pending
  have hcredits := h.left t left hpc
  have howed : s.pc.owed = 1 := congrArg CoverPc.owed hpc
  rw [coverStep_test_none hpc hleft]
  refine ⟨by omega, ?_, fun _ _ h => (by cases h), fun _ _ => by omega⟩
  change s.pending + 1 = _
  omega

theorem Simulates.restore (h : Simulates s credits waiting) {t : T}
    (hpc : s.pc = .restoring t) : Simulates (coverStep s .restore) credits waiting := by
  have hpending := h.pending
  have howed : s.pc.owed = 1 := congrArg CoverPc.owed hpc
  rw [coverStep_restore hpc]
  refine ⟨?_, fun _ _ h => (by cases h), fun _ h => by cases h⟩
  change s.pending + 1 + 0 = _
  omega

end

theorem ahead_spent {credits : Nat} (h : 0 < credits) (t : T) (left : Int) (reals ticks : List T) :
    ahead (.decremented t left) credits reals ticks
      = suppressCover (credits - 1) reals ticks := if_pos h

theorem ahead_none {credits : Nat} (h : credits = 0) (t : T) (left : Int) (reals ticks : List T) :
    ahead (.decremented t left) credits reals ticks
      = t :: suppressCover credits reals ticks := if_neg (by omega)

/-- `waiting` has been credited since the last tick of the loop; `reals` is what the loop has
still to read, these among it. -/
theorem run_sent (ops : List (CoverOp T)) {s : CoverThread T} {credits : Nat}
    {waiting reals ticks : List T} (hs : Simulates s credits waiting)
    (hsorted : reals.Pairwise (· ≤ ·))
    (hreals : reals.Perm (waiting ++ ops.filterMap CoverOp.credit?))
    (hwaiting : ∀ r ∈ waiting, ∀ t ∈ ops.filterMap CoverOp.tick?, r ≤ t)
    (hticks : ops.filterMap CoverOp.tick? = ticks) (hinTime : ops.Pairwise InTime)
    (hprogram : Machine.StepsMeet coverStep CoverOp.Enabled ops s)
    (hend : (Machine.run coverStep ops s).pc = .asleep) :
    (Machine.run coverStep ops s).sent = s.sent ++ ahead s.pc credits reals ticks := by
  induction ops generalizing s credits waiting reals ticks with
  | nil =>
    subst hticks
    rw [show s.pc = .asleep from hend]
    exact (List.append_nil _).symm
  | cons op ops ih =>
    obtain ⟨henabled, hrun⟩ := hprogram
    obtain ⟨hfirst, hlater⟩ := List.pairwise_cons.mp hinTime
    cases op with
    | credit time =>
      have hmem : ∀ t ∈ ops.filterMap CoverOp.tick?, CoverOp.decrement t ∈ ops := by
        intro t ht
        obtain ⟨op, hop, htick⟩ := List.mem_filterMap.mp ht
        cases op with
        | decrement tick =>
          obtain rfl := Option.some.inj htick
          exact hop
        | test => cases htick
        | restore => cases htick
        | credit time => cases htick
      refine ih (hs.credit time) hsorted (hreals.trans List.perm_middle) ?_ hticks hlater
        hrun hend
      intro r hr t ht
      obtain rfl | hr := List.mem_cons.mp hr
      · exact hfirst _ (hmem t ht)
      · exact hwaiting r hr t ht
    | decrement t =>
      have hafter : ∀ r ∈ ops.filterMap CoverOp.credit?, t < r := by
        intro r hr
        obtain ⟨op, hop, hcredit⟩ := List.mem_filterMap.mp hr
        cases op with
        | credit time =>
          obtain rfl := Option.some.inj hcredit
          exact hfirst _ hop
        | test => cases hcredit
        | restore => cases hcredit
        | decrement tick => cases hcredit
      have hbefore : ∀ r ∈ waiting, r ≤ t := fun r hr => hwaiting r hr t List.mem_cons_self
      obtain ⟨hpassed, hrest⟩ := SortedSplit.split_perm (p := (· ≤ t))
        (fun s u hsu hu => by simpa using hsu.trans (by simpa using hu)) hsorted hreals
        (fun r hr => by simpa using hbefore r hr) fun r hr => by simpa using hafter r hr
      subst hticks
      have hnext := ih (hs.decrement henabled t)
        (hsorted.sublist (List.dropWhile_sublist _)) hrest
        (fun r hr => absurd hr List.not_mem_nil) rfl hlater hrun hend
      rw [show s.pc = .asleep from henabled]
      refine hnext.trans ?_
      rw [coverStep_decrement henabled]
      change s.sent ++ _ = s.sent ++ suppressCover credits reals (t :: _)
      unfold suppressCover ahead
      dsimp only
      rw [hpassed.length_eq]
    | test =>
      obtain ⟨t, left, hpc⟩ := henabled
      by_cases hleft : 0 ≤ left
      · obtain ⟨hpos, hnext⟩ := hs.test_spent hpc hleft
        refine (ih hnext hsorted hreals hwaiting hticks hlater hrun hend).trans ?_
        rw [coverStep_test_spent hpc hleft, hpc, ahead_spent hpos]
        rfl
      · obtain ⟨hzero, hnext⟩ := hs.test_none hpc (not_le.mp hleft)
        refine (ih hnext hsorted hreals hwaiting hticks hlater hrun hend).trans ?_
        rw [coverStep_test_none hpc (not_le.mp hleft), hpc, ahead_none hzero]
        rfl
    | restore =>
      obtain ⟨t, hpc⟩ := henabled
      refine (ih (hs.restore hpc) hsorted hreals hwaiting hticks hlater hrun hend).trans ?_
      rw [coverStep_restore hpc, hpc]
      unfold ahead
      exact List.append_assoc _ _ _

/-- Whatever the order of the operations, the client sends cover at the ticks of the evaluation;
at any time it has skipped at most as many ticks as there were sends, and its counter is not
negative between the wake-ups. -/
theorem suppression_matches_client {ticks realTimes : List T} {ops : List (CoverOp T)}
    (h : Interleaves ticks realTimes ops) :
    (Machine.run coverStep ops .initial).sent = coverTimes realTimes ticks ∧
      ∀ past, past <+: ops →
        (Machine.run coverStep past .initial).skipped.length
          ≤ (past.filterMap CoverOp.credit?).length ∧
        ((Machine.run coverStep past .initial).pc = .asleep →
          0 ≤ (Machine.run coverStep past .initial).pending) := by
  constructor
  · have hstart : Simulates (CoverThread.initial : CoverThread T) 0 [] :=
      ⟨rfl, fun _ _ h => (by cases h), fun _ h => by cases h⟩
    exact run_sent ops hstart (List.pairwise_insertionSort _ _)
      ((List.perm_insertionSort _ _).trans h.sends.symm)
      (fun r hr => absurd hr List.not_mem_nil) h.ticks h.inTime h.program h.finished
  · intro past _
    have hsettled := run_settled past (initial_settled (T := T))
    rw [Nat.zero_add] at hsettled
    exact ⟨hsettled.skipped_le, hsettled.at_rest⟩

/-- The send at 15 falls between the decrement of the tick at 10 and its restore. -/
def transientOps : List (CoverOp Nat) :=
  [.decrement 10, .test, .credit 15, .restore, .decrement 20, .test, .decrement 30, .test, .restore]

theorem transientOps_interleaves : Interleaves [10, 20, 30] [15] transientOps where
  program := ⟨rfl, ⟨_, _, rfl⟩, trivial, ⟨_, rfl⟩, rfl, ⟨_, _, rfl⟩, rfl, ⟨_, _, rfl⟩, ⟨_, rfl⟩,
    trivial⟩
  finished := rfl
  ticks := rfl
  sends := List.Perm.refl _
  inTime := by simp [transientOps, InTime]

theorem suppression_matches_client_transient :
    (Machine.run coverStep transientOps .initial).sent = coverTimes [15] [10, 20, 30] ∧
      coverTimes [15] [10, 20, 30] = [10, 30] :=
  ⟨(suppression_matches_client transientOps_interleaves).1, by decide⟩

end AnonSecNet.Evaluation
