import AnonSecNet.MixNode.HintWindow
import AnonSecNet.Sender.Outbound

/-! What the requests that a program rejects cost it: values of the counters, until the relays no
longer know the hint of the next packet. -/
namespace AnonSecNet.Retrieval
open Octets Machine MixNode

/-- The windows of a relay in the session with this seed, neither of them wrapped around. -/
structure Tracks (P : Primitives) (h : HintState) (seed : AesKey) : Prop where
  windows : ∃ confirmed, WindowOk P h confirmed
  seed : h.hintSeed = seed
  unwrapped : ∀ d, h.hintBase d + hintWindow ≤ 2 ^ 64

def InWindow (h : HintState) (c : Nat) : Prop :=
  ∃ d, h.hintBase d ≤ c ∧ c < h.hintBase d + hintWindow

variable {P : Primitives}

theorem Tracks.found_iff {h : HintState} {seed : AesKey} (ht : Tracks P h seed)
    (hfree : CountersDistinct P) (v : Nat) :
    (matchHint h (packetDeriveHopHint P seed (longValue v))).isSome
      ↔ InWindow h (longValue v) := by
  obtain ⟨confirmed, ok⟩ := ht.windows
  have hlt := longValue_lt v
  have hiff : (matchHint h (packetDeriveHopHint P seed (longValue v))).isSome
      ↔ ∃ d w, h.Covers d w (longValue v) := by
    rw [← ht.seed]
    constructor
    · intro hsome
      obtain ⟨⟨d, w⟩, hm⟩ := Option.isSome_iff_exists.mp hsome
      exact ⟨d, w, (ok.matchHint_iff hfree hlt d w).mp hm⟩
    · rintro ⟨d, w, hw⟩
      rw [(ok.matchHint_iff hfree hlt d w).mpr hw]
      rfl
  rw [hiff, exists_covers_iff]
  unfold InWindow HintState.matchedAbs
  refine exists_congr fun d => ?_
  have hfits := ht.unwrapped d
  constructor
  · rintro ⟨w, hw⟩
    have hlt := w.isLt
    rw [Nat.mod_eq_of_lt (by omega)] at hw
    omega
  · rintro ⟨hlo, hhi⟩
    refine ⟨⟨longValue v - h.hintBase d, by omega⟩, ?_⟩
    rw [Nat.mod_eq_of_lt (by dsimp only; omega)]
    dsimp only
    omega

/-! What requests cost. -/

section
variable (P) {D : Type*} [LinearOrder D] [Zero D] [One D] [Add D] [Sub D] [NatCast D]
  {k : Nat} [NeZero k] (batchMs : D → D → Nat) (mixing : Bool)

/-- A client: a request that sends nothing returns and consumes nothing exactly if the paths are not
ready; over a run no buffer is overrun and the return counter counts the packets that got away
exactly if all requests are such or get away; and behind a run without an overrun a relay knows the
next hint exactly if one of its windows has the counter value behind all requests of the run that
took one. -/
structure ClientCosts : Prop where
  call : ∀ (w : Client.RequestGlobals D k) (c : Client.RequestCall D),
    ((w.sendAppRequest P batchMs mixing c).1.isSent = false →
        (w.sendAppRequest P batchMs mixing c).1 = .refused ∧
          w.Unconsumed (w.sendAppRequest P batchMs mixing c).2) ↔
      w.requests.ready = false ∨ w.Sends batchMs mixing c
  count : ∀ (w : Client.RequestGlobals D k) (cs : List (Client.RequestCall D)),
    StepsMeet (Client.RequestGlobals.request P batchMs mixing)
        (fun w c => ¬ w.Overruns batchMs mixing c) cs w ∧
      (run (Client.RequestGlobals.request P batchMs mixing) cs w).requests.returnPkt
        = w.requests.returnPkt + tally (Client.RequestGlobals.request P batchMs mixing)
            (fun w c => w.Sends batchMs mixing c) cs w ↔
      StepsMeet (Client.RequestGlobals.request P batchMs mixing)
        (fun w c => w.requests.ready = false ∨ w.Sends batchMs mixing c) cs w
  window : ∀ (w w' : Client.RequestGlobals D k) (cs : List (Client.RequestCall D)) x hop h,
    StepsMeet (Client.RequestGlobals.request P batchMs mixing)
        (fun w c => ¬ w.Overruns batchMs mixing c) cs w →
      run (Client.RequestGlobals.request P batchMs mixing) cs w = w' →
      Tracks P h (w'.hintSeed x hop) →
        ((matchHint h (w'.nextHint P x hop)).isSome ↔
          InWindow h (longValue (w.counter x
            + tally (Client.RequestGlobals.request P batchMs mixing)
                (fun w c => w.Draws batchMs mixing c x) cs w)))

/-- The sender, where every slot has its counters. -/
structure SenderCosts : Prop where
  call : ∀ (w : Sender.RequestGlobals) (c : Sender.RequestCall),
    ((w.sendAppRequest P mixing c).1.isSent = false →
        (w.sendAppRequest P mixing c).1 = .refused ∧
          w.Unconsumed (w.sendAppRequest P mixing c).2) ↔
      w.state.ready = false ∨ w.Sends mixing c
  count : ∀ (w : Sender.RequestGlobals) (cs : List Sender.RequestCall),
    (StepsMeet (Sender.RequestGlobals.request P mixing) (fun w c => ¬ w.Overruns c) cs w ∧
      ∀ i, ((run (Sender.RequestGlobals.request P mixing) cs w).state.slots i).counters.returnPkt
        = (w.state.slots i).counters.returnPkt
          + tally (Sender.RequestGlobals.request P mixing)
              (fun w c => w.Sends mixing c ∧ c.inp.slot = i) cs w) ↔
      StepsMeet (Sender.RequestGlobals.request P mixing)
        (fun w c => w.state.ready = false ∨ w.Sends mixing c) cs w
  slot : ∀ (w : Sender.RequestGlobals) (cs : List Sender.RequestCall) i,
    StepsMeet (Sender.RequestGlobals.request P mixing) (fun w c => ¬ w.Overruns c) cs w →
    (((run (Sender.RequestGlobals.request P mixing) cs w).state.slots i).counters.returnPkt
        = (w.state.slots i).counters.returnPkt
          + tally (Sender.RequestGlobals.request P mixing)
              (fun w c => w.Sends mixing c ∧ c.inp.slot = i) cs w ↔
      StepsMeet (Sender.RequestGlobals.request P mixing)
        (fun w c => c.inp.slot = i → w.state.ready = false ∨ w.Sends mixing c) cs w)
  window : ∀ (w w' : Sender.RequestGlobals) (cs : List Sender.RequestCall) x hop h,
    StepsMeet (Sender.RequestGlobals.request P mixing) (fun w c => ¬ w.Overruns c) cs w →
      run (Sender.RequestGlobals.request P mixing) cs w = w' →
      Tracks P h (w'.hintSeed x hop) →
        ((matchHint h (w'.nextHint P x hop)).isSome ↔
          InWindow h (longValue (w.counter x
            + tally (Sender.RequestGlobals.request P mixing) (fun w c => w.Draws c x) cs w)))

theorem clientCosts (hfree : CountersDistinct P) :
    ClientCosts P batchMs mixing (k := k) where
  call w c := w.unconsumed_iff P batchMs mixing c
  count w cs := w.returnPkt_run_iff P batchMs mixing cs
  window w w' cs x hop h _ hrun ht := by
    subst hrun
    rw [← w.counter_run P batchMs mixing x cs]
    exact ht.found_iff hfree _

theorem senderCosts (hfree : CountersDistinct P) : SenderCosts P mixing where
  call w c := w.unconsumed_iff P mixing c
  count w cs := w.returnPkts_run_iff P mixing cs
  slot w cs i _ := w.returnPkt_run_iff P mixing i cs
  window w w' cs x hop h _ hrun ht := by
    subst hrun
    rw [← w.counter_run P mixing x cs]
    exact ht.found_iff hfree _

/-- In both programs, rejected requests consume counters exactly if the paths are ready. -/
theorem rejected_requests_iff (hfree : CountersDistinct P) :
    ClientCosts P batchMs mixing (k := k) ∧ SenderCosts P mixing :=
  ⟨clientCosts P batchMs mixing hfree, senderCosts P mixing hfree⟩

end

/-! A sample client. -/

/-- One leg; it has sent nothing yet. -/
def readyClient : Client.RequestGlobals Nat 1 where
  requests :=
    { ready := true
      mncPubkey := Bytes.zero _
      mncAddr := addrPlain 9041
      route := .sample
      returnPkt := 0
      legs _ := ⟨.sample, 0⟩ }
  striping :=
    { policy := .iid
      legs := fun _ => ⟨1, 0, 0, RingBuffer.empty 0⟩
      equalWeights := true
      rrNext := 0
      batchOpen := false
      batchLeg := 0
      batchEndMs := 0
      batchMeanMs := 0
      window := 1
      window_pos := by decide
      window_le := by decide }
  outbound := ⟨0, none⟩
  legs_le := by decide

/-- A GET with a key of 64 characters. -/
def tooLongKey : Client.RequestCall Nat where
  type := .get
  key := ⟨List.replicate 64 97, by decide⟩
  data := none
  headerNonces := some fun _ => Bytes.zero _
  pick := ⟨0, 0, 0⟩
  packetRandom := some (.sample 0)
  connects := true

/-- The first relay of the receiving path, before any packet. -/
def unusedRelay : HintState := sessionInitHintWindow .sample (readyClient.hintSeed .returnPkt 0)

theorem rejected_requests_iff_tooLong :
    ¬ ((readyClient.sendAppRequest .sample (fun _ _ => 0) false tooLongKey).1.isSent = false →
      (readyClient.sendAppRequest .sample (fun _ _ => 0) false tooLongKey).1 = .refused ∧
        readyClient.Unconsumed
          (readyClient.sendAppRequest .sample (fun _ _ => 0) false tooLongKey).2) := fun h =>
  absurd (((rejected_requests_iff .sample (fun _ _ => 0) false
    countersDistinct_sample).1.call readyClient tooLongKey).mp h) (by decide)

/-- A GET whose packet is built, but the entry node refuses the connection. -/
def refusedGet : Client.RequestCall Nat :=
  { tooLongKey with key := ⟨[97], by decide⟩, connects := false }

set_option maxRecDepth 100000 in
/-- One request takes a value from the return counter, and after 64 of them the relay does not know
the hint of the next header; a refused connection leaves its credit. -/
theorem too_long_keys_lose_the_relay :
    let request := Client.RequestGlobals.request .sample (fun _ _ : Nat => 0) false
    let w := run request (List.replicate 64 tooLongKey) readyClient
    StepsMeet request (fun w c =>
        (w.sendAppRequest .sample (fun _ _ => 0) false c).1 = .refused)
      (List.replicate 64 tooLongKey) readyClient ∧
    (request readyClient tooLongKey).requests.returnPkt = readyClient.requests.returnPkt + 1 ∧
      (matchHint unusedRelay (readyClient.nextHint .sample .returnPkt 0)).isSome ∧
      matchHint unusedRelay (w.nextHint .sample .returnPkt 0) = none ∧
      (readyClient.sendAppRequest .sample (fun _ _ => 0) false refusedGet).1 = .refused ∧
      (request readyClient refusedGet).outbound.realTrafficPending = 1 := by
  decide +kernel

end AnonSecNet.Retrieval
