import AnonSecNet.Client.CoverCredit

/-! The cover slots that `sender.c` gives up for real packets, beside those of `client.c`: the
same sends and wake-ups on a flag and on a counter. -/
namespace AnonSecNet.Sender
open Client (CoverThread wakeUp coverStep run_wakeUp)

/-- `g_real_traffic_pending` of `sender.c`, and the wake-ups that its cover thread skipped. -/
structure CoverFlag where
  pending : Bool
  skipped : List Nat
deriving DecidableEq

def CoverFlag.initial : CoverFlag := ⟨false, []⟩

/-- The `InterlockedExchange` of `send_app_request`. -/
def CoverFlag.send (s : CoverFlag) : CoverFlag := { s with pending := true }

/-- The `InterlockedExchange` of `outbound_cover_thread`, and its test. -/
def CoverFlag.wake (s : CoverFlag) (tick : Nat) : CoverFlag :=
  if s.pending then { pending := false, skipped := s.skipped ++ [tick] }
  else { s with pending := false }

/-- What both programs are put through. -/
inductive CoverEvent where
  | send
  | wake
deriving DecidableEq

/-- Both programs, the wake-ups and the sends so far. -/
structure CoverPair where
  client : CoverThread Nat
  sender : CoverFlag
  wakes : Nat
  sends : Nat

def CoverPair.initial : CoverPair := ⟨.initial, .initial, 0, 0⟩

def CoverPair.step (s : CoverPair) : CoverEvent → CoverPair
  | .send =>
    { s with
      client := coverStep s.client (.credit s.sends)
      sender := s.sender.send
      sends := s.sends + 1 }
  | .wake =>
    { s with
      client := Machine.run coverStep (wakeUp s.wakes) s.client
      sender := s.sender.wake s.wakes
      wakes := s.wakes + 1 }

/-- Both have skipped the same wake-ups. -/
def CoverPair.SameSlots (s : CoverPair) : Prop := s.client.skipped = s.sender.skipped

/-- In both, a send has replaced one slot or will replace one. -/
def CoverPair.OneForOne (s : CoverPair) : Prop :=
  s.client.skipped.length + s.client.pending = s.sends ∧
    s.sender.skipped.length + s.sender.pending.toNat = s.sends

/-- No two sends without a wake-up between them; `since` says that there was a send since the
last wake-up. -/
def NoBurst (since : Bool) : List CoverEvent → Prop
  | [] => True
  | .send :: es => since = false ∧ NoBurst true es
  | .wake :: es => NoBurst false es

/-- After two sends without a wake-up between them (`burst`), every wake-up comes after one more
send. -/
def BusyAfterBurst (since burst : Bool) : List CoverEvent → Prop
  | [] => True
  | .send :: es => BusyAfterBurst true (burst || since) es
  | .wake :: es => (since = true ∨ burst = false) ∧ BusyAfterBurst false burst es

/-! One event. -/

section
variable {s : CoverPair}

theorem step_wake_client (h : s.client.pc = .asleep) :
    (s.step .wake).client
      = if 0 < s.client.pending then
          { s.client with
            pending := s.client.pending - 1, skipped := s.client.skipped ++ [s.wakes] }
        else { s.client with sent := s.client.sent ++ [s.wakes] } := run_wakeUp h s.wakes

/-- While the slots agree, the counter is at least the flag. -/
structure CoverPair.Agreed (s : CoverPair) : Prop where
  asleep : s.client.pc = .asleep
  same : s.SameSlots
  ahead : s.sender.pending.toNat ≤ s.client.pending

theorem initial_agreed : CoverPair.initial.Agreed := ⟨rfl, rfl, Int.le_refl 0⟩

theorem CoverPair.Agreed.send (h : s.Agreed) : (s.step .send).Agreed := by
  obtain ⟨hasleep, hsame, hahead⟩ := h
  refine ⟨hasleep, hsame, ?_⟩
  change (1 : Int) ≤ s.client.pending + 1
  omega

/-- A wake-up is skipped by both or by neither just if a send came before it or no credit is
left over. -/
theorem CoverPair.Agreed.wake_iff (h : s.Agreed) :
    (s.step .wake).SameSlots ↔ (s.sender.pending = true ∨ s.client.pending = 0) := by
  obtain ⟨hasleep, hsame, hahead⟩ := h
  unfold CoverPair.SameSlots at hsame ⊢
  rw [step_wake_client hasleep]
  change _ = (s.sender.wake s.wakes).skipped ↔ _
  unfold CoverFlag.wake
  cases hflag : s.sender.pending with
  | true =>
    rw [hflag] at hahead
    have hpos : 0 < s.client.pending := by
      change ((1 : Nat) : Int) ≤ s.client.pending at hahead
      omega
    simp [hpos, hsame]
  | false =>
    rw [hflag] at hahead
    change ((0 : Nat) : Int) ≤ s.client.pending at hahead
    by_cases hpos : 0 < s.client.pending
    · have : s.client.pending ≠ 0 := by omega
      simp [hpos, this, ← hsame]
    · have : s.client.pending = 0 := by omega
      simp [this, hsame]

theorem CoverPair.Agreed.wake (h : s.Agreed)
    (hspent : s.sender.pending = true ∨ s.client.pending = 0) : (s.step .wake).Agreed := by
  have hsame := h.wake_iff.mpr hspent
  obtain ⟨hasleep, -, hahead⟩ := h
  refine ⟨?_, hsame, ?_⟩
  · rw [step_wake_client hasleep]
    split <;> exact hasleep
  · have hflag : (s.step .wake).sender.pending = false := by
      change (s.sender.wake s.wakes).pending = false
      unfold CoverFlag.wake
      split <;> rfl
    rw [hflag, step_wake_client hasleep]
    split
    · change (0 : Int) ≤ s.client.pending - 1
      omega
    · exact (Int.natCast_nonneg _).trans hahead

theorem step_wake_flag (s : CoverPair) : (s.step .wake).sender.pending = false := by
  change (s.sender.wake s.wakes).pending = false
  unfold CoverFlag.wake
  split <;> rfl

/-- A credit is left over: more sends than slots that both gave up. -/
def CoverPair.ahead (s : CoverPair) : Bool := s.sender.pending.toNat < s.client.pending

theorem CoverPair.Agreed.send_ahead (h : s.Agreed) :
    (s.step .send).ahead = (s.ahead || s.sender.pending) := by
  have hahead := h.ahead
  unfold CoverPair.ahead
  change decide (((1 : Nat) : Int) < s.client.pending + 1) = _
  cases hflag : s.sender.pending with
  | true =>
    rw [hflag, Bool.toNat_true] at hahead
    simp
    omega
  | false => simp

theorem CoverPair.Agreed.wake_ahead (h : s.Agreed)
    (hspent : s.sender.pending = true ∨ s.client.pending = 0) :
    (s.step .wake).ahead = s.ahead := by
  have hahead := h.ahead
  unfold CoverPair.ahead
  rw [step_wake_flag, step_wake_client h.asleep]
  cases hflag : s.sender.pending with
  | true =>
    rw [hflag, Bool.toNat_true] at hahead
    rw [if_pos (by omega)]
    simp
  | false =>
    obtain hnone : s.client.pending = 0 := hspent.resolve_left (by simp [hflag])
    simp [hnone]

theorem CoverPair.Agreed.spent_iff (h : s.Agreed) :
    (s.sender.pending = true ∨ s.client.pending = 0) ↔
      (s.sender.pending = true ∨ s.ahead = false) := by
  have hahead := h.ahead
  cases hflag : s.sender.pending with
  | true => simp
  | false =>
    rw [hflag, Bool.toNat_false] at hahead
    simp [CoverPair.ahead, hflag]
    omega

/-- What an event must find for the slots to go on agreeing. -/
def Spent (s : CoverPair) (e : CoverEvent) : Prop :=
  e = .wake → s.sender.pending = true ∨ s.client.pending = 0

theorem stepsMeet_spent_iff (es : List CoverEvent) {s : CoverPair} (h : s.Agreed) :
    Machine.StepsMeet CoverPair.step Spent es s ↔ BusyAfterBurst s.sender.pending s.ahead es := by
  induction es generalizing s with
  | nil => exact Iff.rfl
  | cons e es ih =>
    cases e with
    | send =>
      have htail := ih h.send
      rw [h.send_ahead] at htail
      exact (and_iff_right fun he => by cases he).trans htail
    | wake =>
      have hspent : Spent s .wake ↔ (s.sender.pending = true ∨ s.ahead = false) :=
        (forall_prop_of_true rfl).trans h.spent_iff
      refine (and_congr_right fun hmeets => ?_).trans (and_congr_left' hspent)
      have htail := ih (h.wake (hmeets rfl))
      rwa [step_wake_flag, h.wake_ahead (hmeets rfl)] at htail

theorem CoverPair.Agreed.along_iff (es : List CoverEvent) (h : s.Agreed) :
    Machine.Along CoverPair.step CoverPair.SameSlots es s ↔
      BusyAfterBurst s.sender.pending s.ahead es := by
  rw [← stepsMeet_spent_iff es h]
  refine Machine.along_iff_stepsMeet _ CoverPair.Agreed (fun _ h => h.same) ?_ ?_ h
  · intro s e h hspent
    cases e with
    | send => exact h.send
    | wake => exact h.wake (hspent rfl)
  · intro s e h hsame he
    subst he
    exact h.wake_iff.mp hsame

/-! Without bursts. -/

/-- What holds as long as every packet replaces one slot in both programs. -/
structure CoverPair.Paired (s : CoverPair) : Prop extends s.Agreed where
  oneForOne : s.OneForOne

theorem CoverPair.Paired.credit (h : s.Paired) :
    s.client.pending = s.sender.pending.toNat := by
  obtain ⟨hclient, hsender⟩ := h.oneForOne
  have hsame := congrArg List.length h.same
  omega

theorem CoverPair.Paired.send (h : s.Paired) (hfree : s.sender.pending = false) :
    (s.step .send).Paired := by
  obtain ⟨hclient, hsender⟩ := h.oneForOne
  refine ⟨h.toAgreed.send, ?_, ?_⟩
  · change s.client.skipped.length + (s.client.pending + 1) = ((s.sends + 1 : Nat) : Int)
    omega
  · change s.sender.skipped.length + 1 = s.sends + 1
    rw [hfree, Bool.toNat_false] at hsender
    omega

theorem CoverPair.Paired.wake (h : s.Paired) : (s.step .wake).Paired := by
  have hcredit := h.credit
  obtain ⟨hclient, hsender⟩ := h.oneForOne
  cases hflag : s.sender.pending with
  | true =>
    rw [hflag, Bool.toNat_true] at hcredit hsender
    refine ⟨h.toAgreed.wake (.inl hflag), ?_, ?_⟩
    · rw [step_wake_client h.asleep, if_pos (by omega)]
      change ((s.client.skipped ++ [s.wakes]).length : Int) + (s.client.pending - 1) = s.sends
      rw [List.length_append, List.length_singleton]
      omega
    · rw [step_wake_flag]
      change (s.sender.wake s.wakes).skipped.length + 0 = s.sends
      unfold CoverFlag.wake
      rw [if_pos hflag, List.length_append, List.length_singleton]
      omega
  | false =>
    rw [hflag, Bool.toNat_false] at hcredit hsender
    refine ⟨h.toAgreed.wake (.inr hcredit), ?_, ?_⟩
    · rw [step_wake_client h.asleep, if_neg (by omega)]
      exact hclient
    · rw [step_wake_flag]
      change (s.sender.wake s.wakes).skipped.length + 0 = s.sends
      unfold CoverFlag.wake
      rw [if_neg (by simp [hflag])]
      exact hsender

/-- A send that finds the flag set replaces no slot of the sender. -/
theorem CoverPair.Paired.send_free (h : s.Paired) (hnext : (s.step .send).OneForOne) :
    s.sender.pending = false := by
  have hnow := h.oneForOne.2
  have hlater : s.sender.skipped.length + 1 = s.sends + 1 := hnext.2
  cases hflag : s.sender.pending with
  | true =>
    rw [hflag, Bool.toNat_true] at hnow
    omega
  | false => rfl

def Unsignalled (s : CoverPair) (e : CoverEvent) : Prop := e = .send → s.sender.pending = false

theorem stepsMeet_unsignalled_iff (es : List CoverEvent) (s : CoverPair) :
    Machine.StepsMeet CoverPair.step Unsignalled es s ↔ NoBurst s.sender.pending es := by
  induction es generalizing s with
  | nil => exact Iff.rfl
  | cons e es ih =>
    cases e with
    | send => exact and_congr (forall_prop_of_true rfl) (ih (s.step .send))
    | wake =>
      have htail := ih (s.step .wake)
      rw [step_wake_flag] at htail
      exact (and_iff_right fun he => by cases he).trans htail

end

/-- The wake-ups that are skipped are the same in both programs just if no wake-up without a send
since the one before follows a burst; every packet replaces one slot in both just if there is
no burst. -/
theorem cover_slots_agree_iff (es : List CoverEvent) :
    (Machine.Along CoverPair.step CoverPair.SameSlots es .initial ↔
        BusyAfterBurst false false es) ∧
      (Machine.Along CoverPair.step (fun s => s.SameSlots ∧ s.OneForOne) es .initial ↔
        NoBurst false es) := by
  refine ⟨initial_agreed.along_iff es, ?_⟩
  rw [← show CoverPair.initial.sender.pending = false from rfl, ← stepsMeet_unsignalled_iff]
  refine Machine.along_iff_stepsMeet _ CoverPair.Paired (fun _ h => ⟨h.same, h.oneForOne⟩) ?_ ?_
    ⟨initial_agreed, rfl, rfl⟩
  · intro s e h hfree
    cases e with
    | send => exact h.send (hfree rfl)
    | wake => exact h.wake
  · intro s e h hnext he
    subst he
    exact h.send_free hnext.2

/-- Two packets before two wake-ups: the client gives up both slots, the sender the first. -/
theorem burst_replaces_one_slot :
    (Machine.run CoverPair.step [.send, .send, .wake, .wake] .initial).client.skipped = [0, 1] ∧
      (Machine.run CoverPair.step [.send, .send, .wake, .wake] .initial).sender.skipped = [0] ∧
      ¬ ∀ es, Machine.Along CoverPair.step CoverPair.SameSlots es .initial := by
  refine ⟨by decide, by decide, fun h => ?_⟩
  have hsame := (h [.send, .send, .wake, .wake]).last
  revert hsame
  unfold CoverPair.SameSlots
  decide

end AnonSecNet.Sender
