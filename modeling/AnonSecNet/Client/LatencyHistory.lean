import AnonSecNet.Client.Striping
import AnonSecNet.Foundation.Machine
import AnonSecNet.Foundation.SortedSplit
import Mathlib.Data.List.TakeDrop
import Mathlib.Tactic.Linarith

/-! The send times that the latency policy keeps, against all it was asked for. -/
namespace AnonSecNet.Client
variable {D : Type*} [LinearOrder D] {k : Nat}

/-! The choice. -/

section
variable {legs : Fin k → LegShare D}

theorem mem_byRtt (i : Fin k) : i ∈ byRtt legs := by
  unfold byRtt
  rw [List.mem_reverse, ← List.foldr_reverse]
  exact (List.mem_insertionSort _).mpr (by simp)

theorem byRtt_sorted (legs : Fin k → LegShare D) :
    (byRtt legs).Pairwise fun i j => (legs i).rttMs ≤ (legs j).rttMs := by
  have : Std.Total fun i j => (legs j).rttMs ≤ (legs i).rttMs := ⟨fun i j => le_total _ _⟩
  have : IsTrans (Fin k) fun i j => (legs j).rttMs ≤ (legs i).rttMs :=
    ⟨fun _ _ _ h h' => h'.trans h⟩
  unfold byRtt
  rw [List.pairwise_reverse, ← List.foldr_reverse]
  exact List.pairwise_insertionSort _ _

theorem foldl_fewest (count : Fin k → Nat) (l : List (Fin k)) (chosen : Fin k) :
    ∀ i, i = chosen ∨ i ∈ l →
      count (l.foldl (fun chosen i => if count i < count chosen then i else chosen) chosen)
        ≤ count i := by
  induction l generalizing chosen with
  | nil =>
    intro i hi
    obtain rfl : i = chosen := by simpa using hi
    exact le_rfl
  | cons j l ih =>
    intro i hi
    rw [List.foldl_cons]
    by_cases hj : count j < count chosen
    · rw [if_pos hj]
      rcases hi with rfl | hi
      · exact (ih j j (Or.inl rfl)).trans hj.le
      · exact ih j i (List.mem_cons.mp hi)
    · rw [if_neg hj]
      rcases hi with rfl | hi
      · exact ih i i (Or.inl rfl)
      · rcases List.mem_cons.mp hi with rfl | hi
        · exact (ih chosen chosen (Or.inl rfl)).trans (not_lt.mp hj)
        · exact ih chosen i (Or.inr hi)

variable [NeZero k]

theorem chooseLeg_fastest {window : Nat} (h : ∃ i, (legs i).recent.count < window) :
    (legs (chooseLeg legs window (byRtt legs))).recent.count < window ∧
      ∀ i, (legs i).recent.count < window →
        (legs (chooseLeg legs window (byRtt legs))).rttMs ≤ (legs i).rttMs := by
  obtain ⟨open₀, hopen⟩ := h
  have hsorted := byRtt_sorted legs
  have hmem : ∀ i, i ∈ byRtt legs := mem_byRtt
  generalize byRtt legs = order at hsorted hmem
  cases hfind : order.find? fun i => (legs i).recent.count < window with
  | none =>
    have := List.find?_eq_none.mp hfind open₀ (hmem open₀)
    exact absurd hopen (by simpa using this)
  | some leg =>
    have hchoose : chooseLeg legs window order = leg := by
      cases order with
      | nil => cases hfind
      | cons first rest =>
        unfold chooseLeg
        dsimp only
        rw [hfind]
    obtain ⟨hleg, before, after, rfl, hbefore⟩ := List.find?_eq_some_iff_append.mp hfind
    rw [hchoose]
    refine ⟨by simpa using hleg, fun i hi => ?_⟩
    rcases List.mem_append.mp (hmem i) with hin | hin
    · exact absurd hi (by simpa using hbefore i hin)
    · rcases List.mem_cons.mp hin with rfl | hin
      · exact le_rfl
      · exact (List.pairwise_cons.mp (List.pairwise_append.mp hsorted).2.1).1 i hin

theorem chooseLeg_idlest {window : Nat} (h : ¬ ∃ i, (legs i).recent.count < window) (i : Fin k) :
    (legs (chooseLeg legs window (byRtt legs))).recent.count ≤ (legs i).recent.count := by
  have hmem : ∀ i, i ∈ byRtt legs := mem_byRtt
  generalize byRtt legs = order at hmem
  cases order with
  | nil => cases hmem i
  | cons first rest =>
    have hnone : (first :: rest).find? (fun i => (legs i).recent.count < window) = none :=
      List.find?_eq_none.mpr fun j _ hj => h ⟨j, by simpa using hj⟩
    unfold chooseLeg
    dsimp only
    rw [hnone]
    exact foldl_fewest (fun i => (legs i).recent.count) rest first i (List.mem_cons.mp (hmem i))

end

variable [Sub D] [NatCast D]

/-- The striping state, and the time and leg of every pick so far. -/
structure StripeLog (D : Type*) (k : Nat) where
  state : Striping D k
  sent : List (Nat × Fin k)

/-- The times of the picks of leg `i` that are later than an RTT ago. -/
def recentSends (s : Striping D k) (sent : List (Nat × Fin k)) (nowMs : Nat) (i : Fin k) :
    List Nat :=
  ((sent.filter fun p => p.2 = i).map Prod.fst).filter
    fun t => (nowMs : D) - (s.legs i).rttMs < (t : D)

/-- Leg `i` has room in its window. -/
def OpenLeg (s : Striping D k) (sent : List (Nat × Fin k)) (nowMs : Nat) (i : Fin k) : Prop :=
  (recentSends s sent nowMs i).length < s.window

/-- What a pick of `leg` at `nowMs` leaves behind the picks `earlier`. -/
structure PickExact (s : Striping D k) (earlier : List (Nat × Fin k)) (nowMs : Nat)
    (leg : Fin k) : Prop where
  queues : ∀ i, (s.legs i).recent.contents
    = recentSends s earlier nowMs i ++ if i = leg then [nowMs] else []
  fastest : (∃ i, OpenLeg s earlier nowMs i) →
    OpenLeg s earlier nowMs leg ∧
      ∀ i, OpenLeg s earlier nowMs i → (s.legs leg).rttMs ≤ (s.legs i).rttMs
  idlest : (¬ ∃ i, OpenLeg s earlier nowMs i) → ∀ i,
    (recentSends s earlier nowMs leg).length ≤ (recentSends s earlier nowMs i).length

/-- The last pick was exact. -/
def StripeLog.Exact (g : StripeLog D k) : Prop :=
  ∀ earlier nowMs leg, g.sent = earlier ++ [(nowMs, leg)] → PickExact g.state earlier nowMs leg

/-- The legs are more than one, and not every buffer is full of sends within the last RTT. -/
def StripeLog.Room (g : StripeLog D k) (call : StripeCall D) : Prop :=
  k ≠ 1 ∧ ∃ i, (recentSends g.state g.sent call.nowMs i).length < stripeRecentMax

/-! The buffers. -/

/-- The picks of leg `i`: those its buffer holds come last, and the others have left the RTT at
some pick since. -/
structure StripeLog.Kept (g : StripeLog D k) : Prop where
  policy : g.state.policy = .latency
  sorted : (g.sent.map Prod.fst).Pairwise (· ≤ ·)
  split : ∀ i, ∃ gone, (g.sent.filter fun p => p.2 = i).map Prod.fst
      = gone ++ (g.state.legs i).recent.contents ∧
    ∀ t ∈ gone, ∃ p ∈ g.sent, (g.state.legs i).Expired p.1 t
  oneLeg : k = 1 → ∀ i, (g.state.legs i).recent.contents = []

/-- A buffer with room keeps what it holds. -/
theorem LegShare.contents_record {D : Type*} {l : LegShare D} (nowMs : Nat)
    (h : l.recent.count < stripeRecentMax) :
    (l.record nowMs).recent.contents = l.recent.contents ++ [nowMs] := by
  unfold LegShare.record RingBuffer.push
  rw [dif_neg h.ne]
  exact RingBuffer.contents_fillBack _ _ _

section
variable {g : StripeLog D k} {c : StripeCall D}

/-- After the expiry at the start of a pick each buffer holds what was sent within the RTT. -/
theorem StripeLog.Kept.expired (hcast : Monotone (Nat.cast : Nat → D))
    (hsub : ∀ rtt : D, Monotone fun x => x - rtt) (hg : g.Kept)
    (htime : ∀ p ∈ g.sent, p.1 ≤ c.nowMs) (i : Fin k) :
    ((g.state.legs i).expire c.nowMs).recent.contents = recentSends g.state g.sent c.nowMs i ∧
      ∃ gone, (g.sent.filter fun p => p.2 = i).map Prod.fst
          = gone ++ recentSends g.state g.sent c.nowMs i ∧
        ∀ t ∈ gone, (g.state.legs i).Expired c.nowMs t := by
  obtain ⟨gone, hsplit, hgone⟩ := hg.split i
  have hsorted : (g.state.legs i).recent.contents.Pairwise (· ≤ ·) := by
    have htimes : ((g.sent.filter fun p => p.2 = i).map Prod.fst).Pairwise (· ≤ ·) :=
      hg.sorted.sublist (List.filter_sublist.map Prod.fst)
    rw [hsplit] at htimes
    exact (List.pairwise_append.mp htimes).2.1
  have hold : ∀ t ∈ gone, (g.state.legs i).Expired c.nowMs t := by
    intro t ht
    obtain ⟨p, hp, hexpired⟩ := hgone t ht
    exact hexpired.trans (hsub _ (hcast (htime p hp)))
  have hearlier : ∀ s t, s ≤ t → decide ((g.state.legs i).Expired c.nowMs t) = true →
      decide ((g.state.legs i).Expired c.nowMs s) = true := by
    intro s t hst ht
    rw [decide_eq_true_eq] at ht ⊢
    exact (hcast hst).trans ht
  have hrecent : (g.state.legs i).recent.contents.dropWhile
      (fun t => (g.state.legs i).Expired c.nowMs t) = recentSends g.state g.sent c.nowMs i := by
    have hnone : gone.filter
        (fun t : Nat => (c.nowMs : D) - (g.state.legs i).rttMs < (t : D)) = [] := by
      rw [List.filter_eq_nil_iff]
      intro t ht
      rw [decide_eq_true_eq, not_lt]
      exact hold t ht
    unfold recentSends
    rw [SortedSplit.dropWhile_eq_filter hearlier hsorted, hsplit, List.filter_append, hnone,
      List.nil_append]
    congr 1
    funext t
    rw [← decide_not]
    exact decide_eq_decide.mpr not_le
  refine ⟨(RingBuffer.contents_dropFrontWhile _ _).trans hrecent,
    gone ++ (g.state.legs i).recent.contents.takeWhile
      (fun t => (g.state.legs i).Expired c.nowMs t), ?_, ?_⟩
  · rw [hsplit, ← hrecent, List.append_assoc, List.takeWhile_append_dropWhile]
  · intro t ht
    rcases List.mem_append.mp ht with ht | ht
    · exact hold t ht
    · simpa using List.mem_takeWhile_imp ht

variable [Zero D] [One D] [Add D] [NeZero k] {batchMs : D → D → Nat}

def StripeLog.call (batchMs : D → D → Nat) (g : StripeLog D k) (call : StripeCall D) :
    StripeLog D k :=
  let (leg, s) := stripePickLeg batchMs g.state call
  ⟨s, g.sent ++ [(call.nowMs, leg)]⟩

/-- A pick among several legs goes by the sends within the RTT; only the leg it takes records
one more. -/
theorem StripeLog.Kept.call_eq (batchMs : D → D → Nat) (hcast : Monotone (Nat.cast : Nat → D))
    (hsub : ∀ rtt : D, Monotone fun x => x - rtt) (hg : g.Kept)
    (htime : ∀ p ∈ g.sent, p.1 ≤ c.nowMs) (hk : k ≠ 1) :
    ∃ chosen, g.call batchMs c = ⟨{ g.state with
        legs := Function.update (fun i => (g.state.legs i).expire c.nowMs) chosen
          (((g.state.legs chosen).expire c.nowMs).record c.nowMs) },
        g.sent ++ [(c.nowMs, chosen)]⟩ ∧
      ((∃ i, OpenLeg g.state g.sent c.nowMs i) → OpenLeg g.state g.sent c.nowMs chosen ∧
        ∀ i, OpenLeg g.state g.sent c.nowMs i →
          (g.state.legs chosen).rttMs ≤ (g.state.legs i).rttMs) ∧
      ((¬ ∃ i, OpenLeg g.state g.sent c.nowMs i) → ∀ i,
        (recentSends g.state g.sent c.nowMs chosen).length
          ≤ (recentSends g.state g.sent c.nowMs i).length) := by
  have hcount : ∀ i, (recentSends g.state g.sent c.nowMs i).length
      = ((g.state.legs i).expire c.nowMs).recent.count := by
    intro i
    rw [← (hg.expired hcast hsub htime i).1, RingBuffer.length_contents]
  refine ⟨chooseLeg (fun i => (g.state.legs i).expire c.nowMs) g.state.window
    (byRtt fun i => (g.state.legs i).expire c.nowMs), ?_, ?_, ?_⟩
  · unfold StripeLog.call stripePickLeg
    rw [if_neg hk, hg.policy]
    rfl
  · intro hopen
    simp only [OpenLeg, hcount] at hopen ⊢
    exact chooseLeg_fastest hopen
  · intro hclosed
    simp only [OpenLeg, hcount] at hclosed ⊢
    exact chooseLeg_idlest hclosed

/-- With room in some buffer no send within the RTT is lost. -/
theorem StripeLog.Kept.pick (hcast : Monotone (Nat.cast : Nat → D))
    (hsub : ∀ rtt : D, Monotone fun x => x - rtt) (hg : g.Kept)
    (htime : ∀ p ∈ g.sent, p.1 ≤ c.nowMs) (hroom : g.Room c) :
    (g.call batchMs c).Exact ∧ (g.call batchMs c).Kept := by
  obtain ⟨hk, roomy, hroomy⟩ := hroom
  obtain ⟨chosen, hcall, hfastest, hidlest⟩ := hg.call_eq batchMs hcast hsub htime hk
  have hexpired := hg.expired hcast hsub htime
  have hchosen : ((g.state.legs chosen).expire c.nowMs).recent.count < stripeRecentMax := by
    rw [← RingBuffer.length_contents, (hexpired chosen).1]
    by_cases hopen : ∃ i, OpenLeg g.state g.sent c.nowMs i
    · exact (hfastest hopen).1.trans_le g.state.window_le
    · exact (hidlest hopen roomy).trans_lt hroomy
  rw [hcall]
  generalize hlegs : Function.update (fun i => (g.state.legs i).expire c.nowMs) chosen
    (((g.state.legs chosen).expire c.nowMs).record c.nowMs) = legs
  have hrtt : ∀ i, (legs i).rttMs = (g.state.legs i).rttMs := by
    intro i
    rw [← hlegs]
    by_cases hi : i = chosen
    · subst hi
      simp [LegShare.record, LegShare.expire]
    · simp [hi, LegShare.expire]
  have hqueue : ∀ i, (legs i).recent.contents
      = recentSends g.state g.sent c.nowMs i ++ if i = chosen then [c.nowMs] else [] := by
    intro i
    rw [← hlegs]
    by_cases hi : i = chosen
    · subst hi
      rw [Function.update_self, LegShare.contents_record _ hchosen, (hexpired i).1, if_pos rfl]
    · rw [Function.update_of_ne hi, (hexpired i).1, if_neg hi, List.append_nil]
  have hrecent : ∀ i, recentSends { g.state with legs := legs } g.sent c.nowMs i
      = recentSends g.state g.sent c.nowMs i := by
    intro i
    unfold recentSends
    rw [hrtt i]
  refine ⟨?_, ?_⟩
  · intro earlier nowMs leg hsent
    obtain ⟨rfl, hlast⟩ := List.append_inj' hsent rfl
    obtain ⟨rfl, rfl⟩ := Prod.mk.inj (List.singleton_inj.mp hlast)
    refine ⟨fun i => ?_, ?_, ?_⟩
    · rw [hrecent]
      exact hqueue i
    · simp only [OpenLeg, hrecent, hrtt]
      exact hfastest
    · simp only [OpenLeg, hrecent]
      exact hidlest
  · refine ⟨hg.policy, ?_, fun i => ?_, fun h => absurd h hk⟩
    · rw [List.map_append, List.pairwise_append]
      refine ⟨hg.sorted, by simp, fun t ht u hu => ?_⟩
      obtain ⟨p, hp, rfl⟩ := List.mem_map.mp ht
      obtain rfl : u = c.nowMs := by simpa using hu
      exact htime p hp
    · obtain ⟨gone, hsplit, hgone⟩ := (hexpired i).2
      refine ⟨gone, ?_, fun t ht => ⟨(c.nowMs, chosen), by simp, ?_⟩⟩
      · rw [hqueue, List.filter_append, List.map_append, hsplit, List.append_assoc]
        by_cases hi : chosen = i
        · simp [hi]
        · simp [hi, Ne.symm hi]
      · have := hgone t ht
        unfold LegShare.Expired at this ⊢
        rwa [hrtt]

/-- Where no buffer has room, the pick overwrites a send within the RTT. -/
theorem StripeLog.Kept.room (hcast : Monotone (Nat.cast : Nat → D))
    (hsub : ∀ rtt : D, Monotone fun x => x - rtt) (hg : g.Kept)
    (htime : ∀ p ∈ g.sent, p.1 ≤ c.nowMs) (hexact : (g.call batchMs c).Exact) : g.Room c := by
  have hk : k ≠ 1 := by
    intro hk
    have hcall : g.call batchMs c = ⟨g.state, g.sent ++ [(c.nowMs, 0)]⟩ := by
      unfold StripeLog.call stripePickLeg
      rw [if_pos hk]
    rw [hcall] at hexact
    have hqueue := (hexact _ _ _ rfl).queues 0
    dsimp only at hqueue
    rw [hg.oneLeg hk, if_pos rfl] at hqueue
    simp at hqueue
  refine ⟨hk, ?_⟩
  by_contra hfull
  obtain ⟨chosen, hcall, -, -⟩ := hg.call_eq batchMs hcast hsub htime hk
  rw [hcall] at hexact
  have hqueue := congrArg List.length ((hexact _ _ _ rfl).queues chosen)
  dsimp only at hqueue
  rw [RingBuffer.length_contents, List.length_append, if_pos rfl, List.length_singleton] at hqueue
  have hcount := RingBuffer.count_le (Function.update
    (fun i => (g.state.legs i).expire c.nowMs) chosen
    (((g.state.legs chosen).expire c.nowMs).record c.nowMs) chosen).recent
  have hrecent : ∀ legs : Fin k → LegShare D,
      (legs chosen).rttMs = (g.state.legs chosen).rttMs →
      recentSends { g.state with legs := legs } g.sent c.nowMs chosen
        = recentSends g.state g.sent c.nowMs chosen := by
    intro legs hrtt
    unfold recentSends
    rw [hrtt]
  rw [hrecent _ (by rw [Function.update_self]; rfl)] at hqueue
  have hmany : stripeRecentMax ≤ (recentSends g.state g.sent c.nowMs chosen).length := by
    by_contra hlt
    exact hfull ⟨chosen, Nat.lt_of_not_le hlt⟩
  omega

/-- Calls at times that do not decrease come after all that was sent before. -/
theorem inOrder {calls : List (StripeCall D)}
    (hcalls : (calls.map StripeCall.nowMs).Pairwise (· ≤ ·))
    (hsent : ∀ p ∈ g.sent, ∀ c ∈ calls, p.1 ≤ c.nowMs) :
    Machine.StepsMeet (StripeLog.call batchMs) (fun g c => ∀ p ∈ g.sent, p.1 ≤ c.nowMs)
      calls g := by
  induction calls generalizing g with
  | nil => trivial
  | cons c calls ih =>
    obtain ⟨hle, hcalls⟩ := List.pairwise_cons.mp hcalls
    refine ⟨fun p hp => hsent p hp c List.mem_cons_self, ih hcalls fun p hp c' hc' => ?_⟩
    rcases List.mem_append.mp hp with hp | hp
    · exact hsent p hp c' (List.mem_cons_of_mem c hc')
    · obtain rfl := List.mem_singleton.mp hp
      exact hle _ (List.mem_map_of_mem hc')

/-- Every pick of a run is exact just if every one of them finds more than one leg, and a buffer
that is not full of sends within the RTT. -/
theorem latency_history_exact_iff (hcast : Monotone (Nat.cast : Nat → D))
    (hsub : ∀ rtt : D, Monotone fun x => x - rtt) {s : Striping D k} (hpolicy : s.policy = .latency)
    (hempty : ∀ i, (s.legs i).recent.contents = []) {calls : List (StripeCall D)}
    (hcalls : (calls.map StripeCall.nowMs).Pairwise (· ≤ ·)) (batchMs : D → D → Nat) :
    Machine.Along (StripeLog.call batchMs) StripeLog.Exact calls ⟨s, []⟩ ↔
      Machine.StepsMeet (StripeLog.call batchMs) StripeLog.Room calls ⟨s, []⟩ := by
  have hstart : StripeLog.Exact ⟨s, []⟩ ∧ StripeLog.Kept ⟨s, []⟩ := by
    refine ⟨fun _ _ _ h => by simp at h, hpolicy, List.Pairwise.nil, fun i => ⟨[], ?_, ?_⟩,
      fun _ => hempty⟩
    · exact (hempty i).symm
    · exact fun _ h => absurd h List.not_mem_nil
  exact Machine.along_iff_stepsMeet_allowed _ (fun g => g.Exact ∧ g.Kept) (fun _ hg => hg.1)
    (fun _ _ hg htime hroom => StripeLog.Kept.pick hcast hsub hg.2 htime hroom)
    (fun _ _ hg htime hexact => StripeLog.Kept.room hcast hsub hg.2 htime hexact)
    hstart (inOrder (g := ⟨s, []⟩) hcalls (by simp))

/-- What a run of picks among several legs leaves alone, and the times it logs. -/
theorem StripeLog.run_times (g : StripeLog D k) (batchMs : D → D → Nat) (hk : k ≠ 1)
    (hpolicy : g.state.policy = .latency)
    (calls : List (StripeCall D)) :
    (∀ i, ((Machine.run (StripeLog.call batchMs) calls g).state.legs i).rttMs
        = (g.state.legs i).rttMs) ∧
      (Machine.run (StripeLog.call batchMs) calls g).sent.map Prod.fst
        = g.sent.map Prod.fst ++ calls.map StripeCall.nowMs := by
  induction calls generalizing g with
  | nil => exact ⟨fun _ => rfl, by simp [Machine.run]⟩
  | cons c calls ih =>
    obtain ⟨chosen, hcall⟩ : ∃ chosen, g.call batchMs c = ⟨{ g.state with
        legs := Function.update (fun i => (g.state.legs i).expire c.nowMs) chosen
          (((g.state.legs chosen).expire c.nowMs).record c.nowMs) },
        g.sent ++ [(c.nowMs, chosen)]⟩ := by
      unfold StripeLog.call stripePickLeg
      rw [if_neg hk, hpolicy]
      exact ⟨_, rfl⟩
    have hkept : (g.call batchMs c).state.policy = .latency := by
      rw [hcall]
      exact hpolicy
    obtain ⟨hrtt, hsent⟩ := ih _ hkept
    refine ⟨fun i => (hrtt i).trans ?_, hsent.trans ?_⟩
    · rw [hcall]
      by_cases hi : i = chosen
      · subst hi
        simp [LegShare.record, LegShare.expire]
      · simp [hi, LegShare.expire]
    · rw [hcall]
      simp

end

/-- Two legs as a client starts with them, an RTT of over an hour set for either. -/
def slowLegs : Striping ℚ 2 :=
  .twoLegs .latency true fun i =>
    ⟨1 / 2, 0, if i.1 = 0 then 4000000 else 5000000, RingBuffer.empty 0⟩

/-- Within one RTT of both legs, picks are exact only as far as they fit the two buffers. -/
theorem length_le_buffers {calls : List (StripeCall ℚ)} (hcalls : ∀ c ∈ calls, c.nowMs < 4000000)
    (h : Machine.Along (StripeLog.call fun _ _ => 0) StripeLog.Exact calls ⟨slowLegs, []⟩) :
    calls.length ≤ 2 * stripeRecentMax := by
  obtain ⟨hrtt, htimes⟩ := StripeLog.run_times ⟨slowLegs, []⟩ (fun _ _ => 0)
    (by decide) rfl calls
  have hexact := h.last
  generalize Machine.run (StripeLog.call fun _ _ => 0) calls ⟨slowLegs, []⟩ = g
    at hrtt htimes hexact
  rw [List.map_nil, List.nil_append] at htimes
  have hlen := congrArg List.length htimes
  rw [List.length_map, List.length_map] at hlen
  by_cases hne : g.sent = []
  · rw [hne] at hlen
    exact hlen ▸ Nat.zero_le _
  have hsent := (List.dropLast_append_getLast hne).symm
  generalize g.sent.dropLast = earlier at hsent
  generalize g.sent.getLast hne = last at hsent
  obtain ⟨nowMs, leg⟩ := last
  rw [hsent] at htimes hlen
  have hnow : nowMs < 4000000 := by
    have hmem : nowMs ∈ (earlier ++ [(nowMs, leg)]).map Prod.fst := by simp
    rw [htimes] at hmem
    obtain ⟨c, hc, rfl⟩ := List.mem_map.mp hmem
    exact hcalls c hc
  -- nothing has left the RTT, so each buffer would hold every pick of its leg
  have hall : ∀ i, (recentSends g.state earlier nowMs i).length
      = (earlier.filter fun p => p.2 = i).length := by
    intro i
    unfold recentSends
    rw [List.filter_eq_self.mpr, List.length_map]
    intro t ht
    obtain ⟨p, -, rfl⟩ := List.mem_map.mp ht
    have hrttle : (4000000 : ℚ) ≤ (slowLegs.legs i).rttMs := by
      have hi : i = 0 ∨ i = 1 := by omega
      rcases hi with rfl | rfl <;> norm_num [slowLegs, Striping.twoLegs]
    have hearly : (nowMs : ℚ) < 4000000 := by exact_mod_cast hnow
    have hpos : (0 : ℚ) ≤ p.1 := Nat.cast_nonneg p.1
    rw [hrtt i, decide_eq_true_eq]
    linarith
  have hqueue : ∀ i, (earlier.filter fun p => p.2 = i).length ≤ stripeRecentMax ∧
      (leg = i → (earlier.filter fun p => p.2 = i).length + 1 ≤ stripeRecentMax) := by
    intro i
    have hcount := RingBuffer.count_le (g.state.legs i).recent
    rw [← RingBuffer.length_contents, (hexact _ _ _ hsent).queues i, List.length_append,
      hall] at hcount
    refine ⟨(Nat.le_add_right _ _).trans hcount, fun hleg => ?_⟩
    rwa [if_pos hleg.symm] at hcount
  have hsplit := List.length_eq_length_filter_add (l := earlier) fun p => p.2 = 0
  have hother : (fun p : Nat × Fin 2 => !decide (p.2 = 0)) = fun p => decide (p.2 = 1) := by
    funext p
    have : p.2 = 0 ∨ p.2 = 1 := by omega
    rcases this with h | h <;> simp [h]
  rw [hother] at hsplit
  rw [List.length_append, List.length_singleton] at hlen
  have hnear := hqueue 0
  have hfar := hqueue 1
  have hleg : leg = 0 ∨ leg = 1 := by omega
  rcases hleg with hleg | hleg
  · have := hnear.2 hleg
    omega
  · have := hfar.2 hleg
    omega

def everySecond (n : Nat) : List (StripeCall ℚ) :=
  (List.range n).map fun i => ⟨1000 * i, 0, 0⟩

theorem everySecond_lt {n : Nat} (hn : n ≤ 4000) : ∀ c ∈ everySecond n, c.nowMs < 4000000 := by
  intro c hc
  obtain ⟨i, hi, rfl⟩ := List.mem_map.mp hc
  have := List.mem_range.mp hi
  dsimp only
  omega

theorem everySecond_le {n : Nat} (hn : n ≤ 4000)
    (h : Machine.Along (StripeLog.call fun _ _ => 0) StripeLog.Exact (everySecond n)
      ⟨slowLegs, []⟩) : n ≤ 2 * stripeRecentMax := by
  have hle := length_le_buffers (everySecond_lt hn) h
  unfold everySecond at hle
  rwa [List.length_map, List.length_range] at hle

/-- A packet every second: the 513th finds both buffers full. -/
theorem full_buffers_forget :
    ¬ Machine.Along (StripeLog.call fun _ _ => 0) StripeLog.Exact (everySecond 513)
      ⟨slowLegs, []⟩ :=
  mt (everySecond_le (by norm_num)) (by norm_num [stripeRecentMax])

/-- Three packets a second apart. -/
theorem latency_history_exact_iff_slowLegs :
    Machine.Along (StripeLog.call fun _ _ => 0) StripeLog.Exact
        [⟨0, 0, 0⟩, ⟨1000, 0, 0⟩, ⟨2000, 0, 0⟩] ⟨slowLegs, []⟩ ↔
      Machine.StepsMeet (StripeLog.call fun _ _ => 0) StripeLog.Room
        [⟨0, 0, 0⟩, ⟨1000, 0, 0⟩, ⟨2000, 0, 0⟩] ⟨slowLegs, []⟩ :=
  latency_history_exact_iff Nat.mono_cast (fun _ _ _ h => sub_le_sub_right h _) rfl
    (fun _ => rfl) (by decide) fun _ _ => 0

end AnonSecNet.Client
