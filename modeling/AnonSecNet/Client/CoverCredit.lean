import AnonSecNet.Foundation.Machine
import Mathlib.Algebra.Order.Group.Int

/-! `outbound_cover_thread` of `client.c` in its default build, one atomic operation on
`g_real_traffic_pending` after the other, and the increments of `send_app_request` among them. -/
namespace AnonSecNet.Client
variable {T : Type*}

/-- Where the cover thread stands in a wake-up: behind the decrement, with what it left, or
behind a test that failed. -/
inductive CoverPc (T : Type*) where
  | asleep
  | decremented (tick : T) (left : Int)
  | restoring (tick : T)
deriving DecidableEq

/-- `pending` is `g_real_traffic_pending`; `skipped` and `sent` log the wake-ups by what the
thread made of them. -/
structure CoverThread (T : Type*) where
  pending : Int
  pc : CoverPc T
  skipped : List T
  sent : List T
deriving DecidableEq

def CoverThread.initial : CoverThread T := ⟨0, .asleep, [], []⟩

/-- `credit` is the increment of a request thread; `time` is when its packet is sent. -/
inductive CoverOp (T : Type*) where
  | decrement (tick : T)
  | test
  | restore
  | credit (time : T)
deriving DecidableEq

/-- An operation that is not the thread's next one does nothing. -/
def coverStep (s : CoverThread T) : CoverOp T → CoverThread T
  | .decrement tick =>
    match s.pc with
    | .asleep => { s with pending := s.pending - 1, pc := .decremented tick (s.pending - 1) }
    | _ => s
  | .test =>
    match s.pc with
    | .decremented tick left =>
      if 0 ≤ left then { s with pc := .asleep, skipped := s.skipped ++ [tick] }
      else { s with pc := .restoring tick }
    | _ => s
  | .restore =>
    match s.pc with
    | .restoring tick =>
      { s with pending := s.pending + 1, pc := .asleep, sent := s.sent ++ [tick] }
    | _ => s
  | .credit _ => { s with pending := s.pending + 1 }

/-- The thread's own operations come in the order of its program. -/
def CoverOp.Enabled (s : CoverThread T) : CoverOp T → Prop
  | .decrement _ => s.pc = .asleep
  | .test => ∃ tick left, s.pc = .decremented tick left
  | .restore => ∃ tick, s.pc = .restoring tick
  | .credit _ => True

def CoverOp.tick? : CoverOp T → Option T
  | .decrement tick => some tick
  | _ => none

def CoverOp.credit? : CoverOp T → Option T
  | .credit time => some time
  | _ => none

/-! One operation. -/

section
variable {s : CoverThread T} {tick : T} {left : Int}

theorem coverStep_decrement (h : s.pc = .asleep) (tick : T) :
    coverStep s (.decrement tick)
      = { s with pending := s.pending - 1, pc := .decremented tick (s.pending - 1) } := by
  unfold coverStep
  rw [h]

theorem coverStep_test_spent (h : s.pc = .decremented tick left) (hleft : 0 ≤ left) :
    coverStep s .test = { s with pc := .asleep, skipped := s.skipped ++ [tick] } := by
  unfold coverStep
  rw [h]
  exact if_pos hleft

theorem coverStep_test_none (h : s.pc = .decremented tick left) (hleft : left < 0) :
    coverStep s .test = { s with pc := .restoring tick } := by
  unfold coverStep
  rw [h]
  exact if_neg (not_le.mpr hleft)

theorem coverStep_restore (h : s.pc = .restoring tick) :
    coverStep s .restore
      = { s with pending := s.pending + 1, pc := .asleep, sent := s.sent ++ [tick] } := by
  unfold coverStep
  rw [h]

/-- An operation that is not the next one. -/
theorem coverStep_of_not_enabled {op : CoverOp T} (h : ¬ op.Enabled s) : coverStep s op = s := by
  cases op with
  | decrement tick =>
    unfold coverStep
    dsimp only
    split
    · rename_i hpc
      exact absurd hpc h
    · rfl
  | test =>
    unfold coverStep
    dsimp only
    split
    · rename_i tick left hpc
      exact absurd ⟨tick, left, hpc⟩ h
    · rfl
  | restore =>
    unfold coverStep
    dsimp only
    split
    · rename_i tick hpc
      exact absurd ⟨tick, hpc⟩ h
    · rfl
  | credit time => exact absurd trivial h

end

/-- A wake-up that no increment comes between. -/
def wakeUp (tick : T) : List (CoverOp T) := [.decrement tick, .test, .restore]

theorem run_wakeUp {s : CoverThread T} (h : s.pc = .asleep) (tick : T) :
    Machine.run coverStep (wakeUp tick) s
      = if 0 < s.pending then { s with pending := s.pending - 1, skipped := s.skipped ++ [tick] }
        else { s with sent := s.sent ++ [tick] } := by
  unfold wakeUp Machine.run Machine.run Machine.run Machine.run
  rw [coverStep_decrement h]
  by_cases hpos : 0 < s.pending
  · rw [if_pos hpos, coverStep_test_spent rfl (by omega), coverStep_of_not_enabled]
    · rw [h]
    · rintro ⟨tick', hpc⟩
      cases hpc
  · rw [if_neg hpos, coverStep_test_none rfl (by omega), coverStep_restore rfl]
    simp [h]

/-! What every interleaving keeps. -/

/-- The decrement that a wake-up has still to account for. -/
def CoverPc.owed : CoverPc T → Int
  | .asleep => 0
  | .decremented _ _ | .restoring _ => 1

/-- Every credit is pending or has been spent on a skipped wake-up; the counter is below zero
only within a wake-up. -/
structure CoverThread.Settled (s : CoverThread T) (credits : Nat) : Prop where
  accounted : s.pending + s.pc.owed + s.skipped.length = credits
  pending : -s.pc.owed ≤ s.pending
  left : ∀ tick left, s.pc = .decremented tick left → left ≤ s.pending

theorem initial_settled : (CoverThread.initial : CoverThread T).Settled 0 :=
  ⟨rfl, Int.le_refl 0, fun _ _ h => by cases h⟩

theorem coverStep_settled {s : CoverThread T} {credits : Nat} (h : s.Settled credits)
    (op : CoverOp T) : (coverStep s op).Settled (credits + op.credit?.toList.length) := by
  obtain ⟨haccounted, hpending, hleft⟩ := h
  by_cases hop : op.Enabled s
  · cases op with
    | decrement tick =>
      have howed : s.pc.owed = 0 := congrArg CoverPc.owed hop
      rw [coverStep_decrement hop]
      refine ⟨?_, ?_, fun _ _ h => ?_⟩
      · change s.pending - 1 + 1 + s.skipped.length = ((credits + 0 : Nat) : Int)
        omega
      · change -1 ≤ s.pending - 1
        omega
      · cases h
        exact Int.le_refl _
    | test =>
      obtain ⟨tick, left, hpc⟩ := hop
      have howed : s.pc.owed = 1 := congrArg CoverPc.owed hpc
      have hle := hleft tick left hpc
      by_cases hpos : 0 ≤ left
      · rw [coverStep_test_spent hpc hpos]
        refine ⟨?_, ?_, fun _ _ h => by cases h⟩
        · change s.pending + 0 + (s.skipped ++ [tick]).length = ((credits + 0 : Nat) : Int)
          rw [List.length_append, List.length_singleton]
          omega
        · change -0 ≤ s.pending
          omega
      · rw [coverStep_test_none hpc (not_le.mp hpos)]
        refine ⟨?_, ?_, fun _ _ h => by cases h⟩
        · change s.pending + 1 + s.skipped.length = ((credits + 0 : Nat) : Int)
          omega
        · change -1 ≤ s.pending
          omega
    | restore =>
      obtain ⟨tick, hpc⟩ := hop
      have howed : s.pc.owed = 1 := congrArg CoverPc.owed hpc
      rw [coverStep_restore hpc]
      refine ⟨?_, ?_, fun _ _ h => by cases h⟩
      · change s.pending + 1 + 0 + s.skipped.length = ((credits + 0 : Nat) : Int)
        omega
      · change -0 ≤ s.pending + 1
        omega
    | credit time =>
      refine ⟨?_, ?_, fun tick left hpc => ?_⟩
      · change s.pending + 1 + s.pc.owed + s.skipped.length = ((credits + 1 : Nat) : Int)
        omega
      · change -s.pc.owed ≤ s.pending + 1
        omega
      · have := hleft tick left hpc
        change left ≤ s.pending + 1
        omega
  · rw [coverStep_of_not_enabled hop]
    cases op with
    | credit time => exact absurd trivial hop
    | decrement tick => exact ⟨haccounted, hpending, hleft⟩
    | test => exact ⟨haccounted, hpending, hleft⟩
    | restore => exact ⟨haccounted, hpending, hleft⟩

/-- Over a run of operations in any order. -/
theorem run_settled (ops : List (CoverOp T)) {s : CoverThread T} {credits : Nat}
    (h : s.Settled credits) :
    (Machine.run coverStep ops s).Settled (credits + (ops.filterMap CoverOp.credit?).length) := by
  induction ops generalizing s credits with
  | nil => exact h
  | cons op ops ih =>
    have hlen : ((op :: ops).filterMap CoverOp.credit?).length
        = op.credit?.toList.length + (ops.filterMap CoverOp.credit?).length := by
      rw [List.filterMap_cons]
      cases op.credit? <;> simp
      omega
    rw [hlen, ← Nat.add_assoc]
    exact ih (coverStep_settled h op)

/-- The counter is not negative between the wake-ups. -/
theorem CoverThread.Settled.at_rest {s : CoverThread T} {credits : Nat} (h : s.Settled credits)
    (hrest : s.pc = .asleep) : 0 ≤ s.pending := by
  have hpending := h.pending
  have howed : s.pc.owed = 0 := congrArg CoverPc.owed hrest
  omega

theorem CoverThread.Settled.skipped_le {s : CoverThread T} {credits : Nat}
    (h : s.Settled credits) : s.skipped.length ≤ credits := by
  have haccounted := h.accounted
  have hpending := h.pending
  omega

end AnonSecNet.Client
