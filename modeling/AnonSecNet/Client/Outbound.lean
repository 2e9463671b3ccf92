import AnonSecNet.Client.Requests
import AnonSecNet.Client.Striping

/-! `send_app_request` of `client.c` with all that it changes: the counters, the choice of the leg
and the credit that holds cover back. -/
namespace AnonSecNet.Client
open Octets
open Sender (CString SendOutcome fillPayload maxSendKeyLen)

/-- `g_real_traffic_pending`, and `g_pending_real_pkt` while its flag is set. -/
structure Outbound where
  realTrafficPending : BitVec 32
  pendingRealPkt : Option WirePacket

/-- What is done with a packet: under `ASN_LOOPIX_MIXING` it waits for the dispatch clock; else the
credit is given, and then the entry node is connected to. Tells whether the packet got away. -/
def Outbound.dispatch (o : Outbound) (mixing : Bool) (credit : BitVec 32 → BitVec 32)
    (connects : Bool) (pkt : WirePacket) : Bool × Outbound :=
  if mixing then (true, { o with pendingRealPkt := some pkt })
  else (connects, { o with realTrafficPending := credit o.realTrafficPending })

/-- The globals that `send_app_request` works on. -/
structure RequestGlobals (D : Type*) (k : Nat) where
  requests : RequestState
  striping : Striping D k
  outbound : Outbound
  legs_le : k ≤ maxStripeLegs

/-- The arguments of a request, and what it gets from outside. -/
structure RequestCall (D : Type*) where
  type : RequestType
  key : CString
  data : Option (List UInt8)
  headerNonces : Option (Fin nPathHops → Bytes returnNonceBytes)
  pick : StripeCall D
  packetRandom : Option SphinxRandom
  connects : Bool

variable (P : Primitives) {D : Type*} [LinearOrder D] [Zero D] [One D] [Add D] [Sub D] [NatCast D]
  {k : Nat} [NeZero k] (batchMs : D → D → Nat) (mixing : Bool)

/-- With the packet that got away. -/
def RequestGlobals.sendAppRequest (w : RequestGlobals D k) (c : RequestCall D) :
    SendOutcome WirePacket × RequestGlobals D k :=
  if w.requests.ready = false then (.refused, w)
  else
    match buildFreshReturnHeader P w.requests c.headerNonces with
    | (none, r) => (.refused, { w with requests := r })
    | (some hdr, r) =>
      if maxSendKeyLen < c.key.1.length then (.refused, { w with requests := r })
      else
        match fillPayload (appSection c.type c.key c.data) (requestPayload r hdr) with
        | .refused => (.refused, { w with requests := r })
        | .overrun => (.overrun, { w with requests := r })
        | .sent payload =>
          let (leg, striping) := stripePickLeg batchMs w.striping c.pick
          let leg := Fin.castLE w.legs_le leg
          let (ctr, r) := nextLegCounter r leg
          match c.packetRandom.bind (packetSphinxBuild P (r.legs leg).path payload
              (pktReal ||| pktDestService) ctr) with
          | none => (.refused, { w with requests := r, striping := striping })
          | some pkt =>
            let (away, outbound) := w.outbound.dispatch mixing (· + 1) c.connects pkt
            (if away then .sent pkt else .refused,
              { w with requests := r, striping := striping, outbound := outbound })

/-- The request on the leg that is picked. -/
def RequestGlobals.input (w : RequestGlobals D k) (c : RequestCall D) : RequestInput where
  leg := Fin.castLE w.legs_le (stripePickLeg batchMs w.striping c.pick).1
  headerNonces := c.headerNonces
  packetRandom := c.packetRandom
  connects := mixing || c.connects

/-- Nothing stops the request. -/
def RequestGlobals.Sends (w : RequestGlobals D k) (c : RequestCall D) : Prop :=
  Able w.requests (w.input batchMs mixing c) ∧ c.key.1.length ≤ maxSendKeyLen ∧
    returnHdrInPayload + appLen c.key (c.data.map List.length) ≤ maxInnerPayload

instance (w : RequestGlobals D k) (c : RequestCall D) : Decidable (w.Sends batchMs mixing c) := by
  unfold RequestGlobals.Sends Able
  infer_instance

/-- The copy of the request runs past the end of its buffer. -/
def RequestGlobals.Overruns (w : RequestGlobals D k) (c : RequestCall D) : Prop :=
  Client.Overruns w.requests c.key (c.data.map List.length) (w.input batchMs mixing c)

/-- The counters, the striping state and the credit are as before. -/
structure RequestGlobals.Unconsumed (w w' : RequestGlobals D k) : Prop where
  returnPkt : w'.requests.returnPkt = w.requests.returnPkt
  legs : ∀ i, (w'.requests.legs i).counter = (w.requests.legs i).counter
  striping : w'.striping = w.striping
  credit : w'.outbound.realTrafficPending = w.outbound.realTrafficPending

variable (w : RequestGlobals D k) (c : RequestCall D)

/-- As far as the paths and counters go, it is the request on the leg that is picked. -/
theorem RequestGlobals.sendAppRequest_requests :
    (w.sendAppRequest P batchMs mixing c).1
        = (Client.sendAppRequest P w.requests c.type c.key c.data (w.input batchMs mixing c)).1 ∧
      (w.sendAppRequest P batchMs mixing c).2.requests
        = (Client.sendAppRequest P w.requests c.type c.key c.data
            (w.input batchMs mixing c)).2 := by
  unfold RequestGlobals.sendAppRequest Client.sendAppRequest RequestGlobals.input
  by_cases hready : w.requests.ready = false
  · rw [if_pos hready, if_pos hready]
    exact ⟨rfl, rfl⟩
  · rw [if_neg hready, if_neg hready]
    dsimp only
    cases buildFreshReturnHeader P w.requests c.headerNonces with
    | mk hdr r =>
      cases hdr with
      | none => exact ⟨rfl, rfl⟩
      | some hdr =>
        dsimp only
        by_cases hkey : maxSendKeyLen < c.key.1.length
        · rw [if_pos hkey, if_pos hkey]
          exact ⟨rfl, rfl⟩
        · rw [if_neg hkey, if_neg hkey]
          cases fillPayload (appSection c.type c.key c.data) (requestPayload r hdr) with
          | refused => exact ⟨rfl, rfl⟩
          | overrun => exact ⟨rfl, rfl⟩
          | sent payload =>
            dsimp only
            generalize c.packetRandom.bind _ = built
            cases built with
            | none => exact ⟨rfl, rfl⟩
            | some pkt =>
              unfold Outbound.dispatch
              cases mixing <;> cases c.connects <;> exact ⟨rfl, rfl⟩

theorem RequestGlobals.sendAppRequest_isSent :
    (w.sendAppRequest P batchMs mixing c).1.isSent = true ↔ w.Sends batchMs mixing c := by
  rw [(w.sendAppRequest_requests P batchMs mixing c).1]
  exact (Client.sendAppRequest_spec P w.requests (w.input batchMs mixing c)).1

/-- A request that is rejected consumes nothing exactly if the paths are not ready. -/
theorem RequestGlobals.unconsumed_iff :
    ((w.sendAppRequest P batchMs mixing c).1.isSent = false →
        (w.sendAppRequest P batchMs mixing c).1 = .refused ∧
          w.Unconsumed (w.sendAppRequest P batchMs mixing c).2) ↔
      w.requests.ready = false ∨ w.Sends batchMs mixing c := by
  constructor
  · intro h
    by_contra hnot
    obtain ⟨hready, hstopped⟩ := not_or.mp hnot
    rw [Bool.not_eq_false] at hready
    have hnone : (w.sendAppRequest P batchMs mixing c).1.isSent = false := by
      rw [← Bool.not_eq_true, w.sendAppRequest_isSent]
      exact hstopped
    have hdrawn := (sendAppRequest_counters P w.requests c.type c.key c.data
      (w.input batchMs mixing c)).1
    have hkept := (h hnone).2.returnPkt
    rw [(w.sendAppRequest_requests P batchMs mixing c).2, hdrawn, if_pos hready] at hkept
    omega
  · rintro (hready | hsends) hnone
    · unfold RequestGlobals.sendAppRequest
      rw [if_pos hready]
      exact ⟨rfl, rfl, fun _ => rfl, rfl, rfl⟩
    · have hsome := (w.sendAppRequest_isSent P batchMs mixing c).mpr hsends
      rw [hnone] at hsome
      cases hsome

/-! Runs of requests. -/

/-- The counters of a client. -/
inductive CounterOf where
  | returnPkt
  | leg (i : Fin maxStripeLegs)

def RequestGlobals.counter (w : RequestGlobals D k) : CounterOf → Nat
  | .returnPkt => w.requests.returnPkt
  | .leg i => (w.requests.legs i).counter

/-- The seeds of the hops that look for the hints of the counter. -/
def RequestGlobals.hintSeed (w : RequestGlobals D k) : CounterOf → Fin nPathHops → AesKey
  | .returnPkt, hop => (w.requests.route.recvHops hop).hintSeed
  | .leg i, hop => ((w.requests.legs i).path.hops hop).hintSeed

/-- The hint of the next header, or of the next packet on the leg, at one of its hops. -/
def RequestGlobals.nextHint (w : RequestGlobals D k) (x : CounterOf) (hop : Fin nPathHops) : Hint :=
  packetDeriveHopHint P (w.hintSeed x hop) (longValue (w.counter x))

/-- The request takes a value from the counter. -/
def RequestGlobals.Draws (w : RequestGlobals D k) (c : RequestCall D) : CounterOf → Prop
  | .returnPkt => w.requests.ready = true
  | .leg i => Reaches w.requests c.key (c.data.map List.length) (w.input batchMs mixing c) ∧
      (w.input batchMs mixing c).leg = i

instance (x : CounterOf) : Decidable (w.Draws batchMs mixing c x) := by
  cases x <;> (unfold RequestGlobals.Draws; infer_instance)

def RequestGlobals.request (w : RequestGlobals D k) (c : RequestCall D) : RequestGlobals D k :=
  (w.sendAppRequest P batchMs mixing c).2

theorem RequestGlobals.counter_request (x : CounterOf) :
    (w.request P batchMs mixing c).counter x
      = w.counter x + if w.Draws batchMs mixing c x then 1 else 0 := by
  have hdrawn := sendAppRequest_counters P w.requests c.type c.key c.data (w.input batchMs mixing c)
  rw [← (w.sendAppRequest_requests P batchMs mixing c).2] at hdrawn
  cases x with
  | returnPkt => exact hdrawn.1
  | leg i => exact hdrawn.2 i

theorem RequestGlobals.counter_run (x : CounterOf) (cs : List (RequestCall D)) :
    (Machine.run (RequestGlobals.request P batchMs mixing) cs w).counter x
      = w.counter x + Machine.tally (RequestGlobals.request P batchMs mixing)
          (fun w c => w.Draws batchMs mixing c x) cs w :=
  Machine.counter_run (RequestGlobals.request P batchMs mixing)
    (f := fun w => w.counter x) (G := fun w c => w.Draws batchMs mixing c x)
    (fun w c => w.counter_request P batchMs mixing c x) cs w

/-- A request that meets the condition stays in its buffer. -/
theorem RequestGlobals.not_overruns {w : RequestGlobals D k} {c : RequestCall D}
    (h : w.requests.ready = false ∨ w.Sends batchMs mixing c) : ¬ w.Overruns batchMs mixing c := by
  intro hcopy
  obtain hready | hsends := h
  · exact Bool.noConfusion (hready.symm.trans hcopy.1)
  · exact absurd hsends.2.2 (Nat.not_le_of_lt hcopy.2.2.2.2)

/-- Over a run no buffer is overrun and the return counter goes up with the packets that got away,
and with nothing else, exactly if no request was rejected while the paths were ready. -/
theorem RequestGlobals.returnPkt_run_iff (cs : List (RequestCall D)) :
    Machine.StepsMeet (RequestGlobals.request P batchMs mixing)
        (fun w c => ¬ w.Overruns batchMs mixing c) cs w ∧
      (Machine.run (RequestGlobals.request P batchMs mixing) cs w).requests.returnPkt
        = w.requests.returnPkt + Machine.tally (RequestGlobals.request P batchMs mixing)
            (fun w c => w.Sends batchMs mixing c) cs w ↔
      Machine.StepsMeet (RequestGlobals.request P batchMs mixing)
        (fun w c => w.requests.ready = false ∨ w.Sends batchMs mixing c) cs w := by
  have hcount := RequestGlobals.counter_run P batchMs mixing w .returnPkt cs
  have hsent := Machine.tally_eq_iff (RequestGlobals.request P batchMs mixing)
    (G := fun w c => w.Sends batchMs mixing c) (H := fun w c => w.Draws batchMs mixing c .returnPkt)
    (fun _ _ h => h.1.1) cs w
  have hcond : (fun (w : RequestGlobals D k) c =>
        w.requests.ready = false ∨ w.Sends batchMs mixing c)
      = fun w c => w.Draws batchMs mixing c .returnPkt → w.Sends batchMs mixing c := by
    funext w c
    rw [← Bool.not_eq_true, ← imp_iff_not_or]
    rfl
  have hequal : (Machine.run (RequestGlobals.request P batchMs mixing) cs w).requests.returnPkt
        = w.requests.returnPkt + Machine.tally (RequestGlobals.request P batchMs mixing)
            (fun w c => w.Sends batchMs mixing c) cs w ↔
      Machine.StepsMeet (RequestGlobals.request P batchMs mixing)
        (fun w c => w.requests.ready = false ∨ w.Sends batchMs mixing c) cs w := by
    rw [hcond, ← hsent]
    change (Machine.run (RequestGlobals.request P batchMs mixing) cs w).counter .returnPkt = _ ↔ _
    rw [hcount]
    exact Nat.add_left_cancel_iff
  exact ⟨fun h => hequal.mp h.2, fun h =>
    ⟨h.mono _ fun w c hc => RequestGlobals.not_overruns batchMs mixing hc, hequal.mpr h⟩⟩

end AnonSecNet.Client
