import AnonSecNet.Client.LatencyHistory
import AnonSecNet.Client.Paths

/-! A probe that failed, in the two places of `client.c` that go by the probes: the RTTs of the
legs and the roles of the paths. -/
namespace AnonSecNet.Client
open NodePool
variable {D : Type*} [LinearOrder D] [Zero D] [One D] [Add D] [Sub D] [Neg D] [NatCast D] {k : Nat}

/-- What `probe_rtt_ms` returns, as a `double`; `none` is a connect that failed. -/
def probeRttMs : Option Nat → D
  | none => -1
  | some ms => ms

/-- The RTTs that `build_extra_legs` leaves in the legs. -/
def probeLegs (rttFromEnv : Bool) (probe : Fin k → Option Nat) (s : Striping D k) :
    Striping D k :=
  if rttFromEnv then s
  else { s with legs := fun i => { s.legs i with rttMs := probeRttMs (probe i) } }

variable [NeZero k]

/-- Where the pick takes a leg that failed its probe, every leg that passed is at its window. -/
def PicksAlive (batchMs : D → D → Nat) (probe : Fin k → Option Nat) (s : Striping D k)
    (call : StripeCall D) : Prop :=
  probe (stripePickLeg batchMs s call).1 = none → ∀ i, (probe i).isSome →
    s.window ≤ ((s.legs i).expire call.nowMs).recent.count

/-- The candidate that sends for the client passed its probe, or the other one failed too. -/
def BuiltPaths.AliveOutbound (outcomes : PathOutcomes) (paths : BuiltPaths) : Prop :=
  ∃ probed sp cands, Laid outcomes paths probed sp cands ∧
    ((sp = probed ∧ (outcomes.rttA = none → outcomes.rttB = none)) ∨
      (sp = swapTriples probed ∧ (outcomes.rttB = none → outcomes.rttA = none)))

/-- `build_paths`, on whatever consensus, guard sets, probes and draws. -/
def RolesAlive : Prop :=
  ∀ (F : Doubles) (weight : Node → F.D) (guardA guardB : GuardSet) (config : StripeConfig)
    (outcomes : PathOutcomes) (responsePort : UInt16) (rng : UInt64) (paths : BuiltPaths),
    buildPaths F weight guardA guardB config outcomes responsePort rng = some paths →
      paths.AliveOutbound outcomes

theorem aSlowerOrDead_alive (rttA rttB : Option Nat) :
    if aSlowerOrDead rttA rttB then rttB = none → rttA = none else rttA = none → rttB = none := by
  cases rttA <;> cases rttB <;> simp [aSlowerOrDead]

theorem rolesAlive : RolesAlive := by
  intro F weight guardA guardB config outcomes responsePort rng paths h
  obtain ⟨probed, sp, cands, hlaid⟩ := buildPaths_laid h
  refine ⟨probed, sp, cands, hlaid, ?_⟩
  have halive := aSlowerOrDead_alive outcomes.rttA outcomes.rttB
  have hassigned := hlaid.assigned
  by_cases hslower : aSlowerOrDead outcomes.rttA outcomes.rttB = true
  · rw [if_pos hslower] at halive hassigned
    exact .inr ⟨hassigned, halive⟩
  · rw [if_neg hslower] at halive hassigned
    exact .inl ⟨hassigned, halive⟩

section
omit [One D] [Zero D] [Add D] [Neg D] [NeZero k]

theorem count_expire_empty {l : LegShare D} (h : l.recent.contents = []) (nowMs : Nat) :
    (l.expire nowMs).recent.count = 0 := by
  have hnil : (l.expire nowMs).recent.contents = [] := by
    refine (RingBuffer.contents_dropFrontWhile _ _).trans ?_
    rw [h]
    rfl
  rw [← RingBuffer.length_contents, hnil]
  rfl

end

/-- The first pick takes a leg that failed its probe, when one did: its RTT is the lowest. -/
theorem first_pick_dead (hdead : ∀ ms : Nat, (-1 : D) < ms) {s : Striping D k}
    (hpolicy : s.policy = .latency) (hempty : ∀ i, (s.legs i).recent.contents = [])
    {probe : Fin k → Option Nat} (hk : k ≠ 1) {i : Fin k} (hi : probe i = none)
    (batchMs : D → D → Nat) (call : StripeCall D) :
    probe (stripePickLeg batchMs (probeLegs false probe s) call).1 = none := by
  let legs := fun j => ((probeLegs false probe s).legs j).expire call.nowMs
  have hroom : (legs i).recent.count < s.window :=
    (count_expire_empty (l := (probeLegs false probe s).legs i) (hempty i) call.nowMs).trans_lt
      s.window_pos
  have hpick : (stripePickLeg batchMs (probeLegs false probe s) call).1
      = chooseLeg legs s.window (byRtt legs) := by
    unfold stripePickLeg
    rw [if_neg hk, show (probeLegs false probe s).policy = .latency from hpolicy]
    rfl
  obtain ⟨-, hfastest⟩ := chooseLeg_fastest ⟨i, hroom⟩
  rw [hpick]
  generalize chooseLeg legs s.window (byRtt legs) = chosen at hfastest ⊢
  have hrtt : (probeRttMs (probe chosen) : D) ≤ probeRttMs (probe i) := hfastest i hroom
  rw [hi] at hrtt
  cases hchosen : probe chosen with
  | none => rfl
  | some ms =>
    rw [hchosen] at hrtt
    exact absurd (hdead ms) (not_lt.mpr hrtt)

omit [Neg D] in
theorem stepsMeet_picksAlive {probe : Fin k → Option Nat} (hall : ∀ i, (probe i).isSome)
    (batchMs : D → D → Nat) (calls : List (StripeCall D)) (s : Striping D k) :
    Machine.StepsMeet (fun s c => (stripePickLeg batchMs s c).2) (PicksAlive batchMs probe)
      calls s := by
  induction calls generalizing s with
  | nil => trivial
  | cons c calls ih =>
    refine ⟨fun hnone => ?_, ih _⟩
    have := hall (stripePickLeg batchMs s c).1
    rw [hnone] at this
    cases this

/-- Picks by latency among legs that were probed keep off the dead ones exactly when there are
none; the roles of the paths always do. -/
theorem dead_never_wins_iff (hdead : ∀ ms : Nat, (-1 : D) < ms) {s : Striping D k}
    (hpolicy : s.policy = .latency) (hempty : ∀ i, (s.legs i).recent.contents = [])
    {probe : Fin k → Option Nat} (hlive : ∃ i, (probe i).isSome) (batchMs : D → D → Nat)
    (calls : List (StripeCall D)) :
    Machine.StepsMeet (fun s c => (stripePickLeg batchMs s c).2) (PicksAlive batchMs probe)
        calls (probeLegs false probe s) ∧ RolesAlive ↔
      calls = [] ∨ ∀ i, (probe i).isSome := by
  constructor
  · rintro ⟨hpicks, -⟩
    cases calls with
    | nil => exact .inl rfl
    | cons call calls =>
      refine .inr fun i => ?_
      by_contra hi
      obtain ⟨live, hlive⟩ := hlive
      have hi : probe i = none := by simpa using hi
      have hk : k ≠ 1 := by
        rintro rfl
        rw [Subsingleton.elim live i, hi] at hlive
        cases hlive
      have hfull := hpicks.1 (first_pick_dead hdead hpolicy hempty hk hi batchMs call) live hlive
      have hidle := count_expire_empty (l := (probeLegs false probe s).legs live) (hempty live)
        call.nowMs
      have hwindow := s.window_pos
      change s.window ≤ _ at hfull
      omega
  · rintro (rfl | hall)
    · exact ⟨trivial, rolesAlive⟩
    · exact ⟨stepsMeet_picksAlive hall batchMs calls _, rolesAlive⟩

/-- Two legs as a client starts with them; the entry of the second cannot be reached. -/
def freshLegs : Striping ℚ 2 :=
  .twoLegs .latency true fun _ => ⟨1 / 2, 0, 0, RingBuffer.empty 0⟩

def oneDead : Fin 2 → Option Nat := ![some 20, none]

/-- The packet goes to the dead leg, though nothing is under way on the other one. -/
theorem dead_leg_preferred :
    (stripePickLeg (fun _ _ => 0) (probeLegs false oneDead freshLegs) ⟨1000, 0, 0⟩).1 = 1 ∧
      ¬ Machine.StepsMeet (fun s c => (stripePickLeg (fun _ _ => 0) s c).2)
        (PicksAlive (fun _ _ => 0) oneDead) [⟨1000, 0, 0⟩] (probeLegs false oneDead freshLegs) := by
  have hpick : (stripePickLeg (fun _ _ => 0) (probeLegs false oneDead freshLegs)
      ⟨1000, 0, 0⟩).1 = 1 := by decide +kernel
  refine ⟨hpick, fun h => ?_⟩
  have hfull := h.1 (by rw [hpick]; rfl) 0 rfl
  revert hfull
  decide +kernel

theorem dead_never_wins_iff_fresh :
    Machine.StepsMeet (fun s c => (stripePickLeg (fun _ _ => 0) s c).2)
        (PicksAlive (fun _ _ => 0) oneDead) [⟨1000, 0, 0⟩] (probeLegs false oneDead freshLegs) ∧
        RolesAlive ↔
      [(⟨1000, 0, 0⟩ : StripeCall ℚ)] = [] ∨ ∀ i, (oneDead i).isSome :=
  dead_never_wins_iff (fun ms => (by norm_num : (-1 : ℚ) < 0).trans_le (Nat.cast_nonneg ms)) rfl
    (fun _ => rfl) ⟨0, rfl⟩ (fun _ _ => 0) _

end AnonSecNet.Client
