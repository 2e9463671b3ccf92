import AnonSecNet.Client.Requests
import AnonSecNet.Retrieval.SetupExchange
import AnonSecNet.Sender.Receive

/-! `send_setup_leg` of `client.c` and `send_setup_for_slot` of `sender.c`: two attempts, each with
a packet of its own around the same payload, and so the same return header. -/
namespace AnonSecNet.Retrieval
open Octets Courier
open Gateway (setupRequest)
open MixNode (Alone SessionFor)
variable (P : Primitives)

/-- What a call comes to: its return value, and the fates of the packets it sent. -/
structure SetupRun (σ : Type) where
  ret : Int
  fates : List (Fate WirePacket)
  state : σ
  net : Network

/-- The response wait of an attempt ends well. -/
def acknowledges (hears : WirePacket → Bool) : Fate WirePacket → Bool
  | .through wire => hears wire
  | _ => false

/-- The loop over the attempts; `build` takes the next send counter. -/
def setupAttempts {σ : Type} (hopDecoy : Bool)
    (build : σ → Option SphinxRandom → Option WirePacket × σ) (hears : WirePacket → Bool) :
    List Attempt → σ → Network → SetupRun σ
  | [], s, net => ⟨-1, [], s, net⟩
  | a :: rest, s, net =>
    match build s a.packetRandom with
    | (none, s) => ⟨-1, [], s, net⟩
    | (some pkt, s) =>
      if a.connects then
        let (fate, net) := travel P hopDecoy a net pkt
        if acknowledges hears fate then ⟨0, [fate], s, net⟩
        else
          let run := setupAttempts hopDecoy build hears rest s net
          { run with fates := fate :: run.fates }
      else ⟨-1, [], s, net⟩

/-- What a call gets from outside. -/
structure SetupInput where
  headerNonces : Option (Fin nPathHops → Bytes returnNonceBytes)
  first : Attempt
  second : Attempt

/-! The client. -/

/-- `packet_sphinx_build` on the path of the leg and its next counter. -/
def buildForLeg (s : Client.RequestState) (leg : Fin Client.maxStripeLegs) (payload : List UInt8)
    (rnd : Option SphinxRandom) : Option WirePacket × Client.RequestState :=
  let (ctr, s') := Client.nextLegCounter s leg
  (rnd.bind (packetSphinxBuild P (s.legs leg).path payload (pktReal ||| pktDestService) ctr), s')

/-- The listener keeps the packet and `wait_response` returns 0. -/
def clientHears (kRSgB : AesKey) (wire : WirePacket) : Bool :=
  Client.listenerAccepts P kRSgB wire && (Client.waitResponse P kRSgB wire).isSome

def sendSetupLeg (hopDecoy : Bool) (s : Client.RequestState) (kRSgB : AesKey)
    (leg : Fin Client.maxStripeLegs) (inp : SetupInput) (net : Network) :
    SetupRun Client.RequestState :=
  match Client.buildFreshReturnHeader P s inp.headerNonces with
  | (none, s) => ⟨-1, [], s, net⟩
  | (some hdr, s) =>
    let payload := setupRequest (fun i => (s.route.recvHops i).blindKey)
      (packetDeriveBindingTag P (s.legs leg).path.e2eKey kRSgB) s.mncPubkey s.mncAddr hdr
    setupAttempts P hopDecoy (fun s rnd => buildForLeg P s leg payload rnd) (clientHears P kRSgB)
      [inp.first, inp.second] s net

/-! The sender. -/

/-- The wait is for the event that the listener sets. -/
def sendSetupForSlot (hopDecoy : Bool) (s : Sender.SenderState) (kSSgB : AesKey)
    (slot : Fin senderResponsePortCount) (inp : SetupInput) (net : Network) :
    SetupRun Sender.SenderState :=
  match Sender.buildReturnHeaderForSlot P s slot inp.headerNonces with
  | (none, s) => ⟨-1, [], s, net⟩
  | (some hdr, s) =>
    let payload := setupRequest (fun i => ((s.slots slot).recvHops i).blindKey)
      (packetDeriveBindingTag P (s.slots slot).path.e2eKey kSSgB) (s.slots slot).mnzPubkey
      (s.slots slot).mnzAddr hdr
    setupAttempts P hopDecoy (fun s rnd => Sender.buildForSlot P s slot payload rnd)
      (Sender.listenerAccepts P kSSgB) [inp.first, inp.second] s net

/-! Either of them. -/

inductive SetupCall where
  | client (s : Client.RequestState) (kRSgB : AesKey) (leg : Fin Client.maxStripeLegs)
  | sender (s : Sender.SenderState) (kSSgB : AesKey) (slot : Fin senderResponsePortCount)

/-- The return value, and the fates of the packets sent. -/
def SetupCall.run (hopDecoy : Bool) (inp : SetupInput) (net : Network) :
    SetupCall → Int × List (Fate WirePacket)
  | .client s kRSgB leg =>
    let run := sendSetupLeg P hopDecoy s kRSgB leg inp net
    (run.ret, run.fates)
  | .sender s kSSgB slot =>
    let run := sendSetupForSlot P hopDecoy s kSSgB slot inp net
    (run.ret, run.fates)

/-- The paths of the caller, and where the stations keep its sessions. -/
def SetupCall.requester (slot : Station → Fin maxSessions) (slotB : Fin maxSessions) :
    SetupCall → Requester
  | .client s kRSgB leg =>
    ⟨(s.legs leg).path, s.route, kRSgB, longValue s.returnPkt, slot, slotB⟩
  | .sender s kSSgB i =>
    ⟨(s.slots i).path, ⟨(s.slots i).recvHops, Function.update s.returnAddrs 2 (s.slots i).addr⟩,
      kSSgB, longValue (s.slots i).counters.returnPkt, slot, slotB⟩

/-- How many packets were built on the sending path before. -/
def SetupCall.sent : SetupCall → Nat
  | .client s _ leg => (s.legs leg).counter
  | .sender s _ slot => (s.slots slot).counters.sendPkt

/-- The send counter of an attempt. -/
def SetupCall.counter (call : SetupCall) (attempt : Nat) : Nat :=
  longValue (call.sent + attempt)

def SetupCall.hears : SetupCall → WirePacket → Bool
  | .client _ kRSgB _ => clientHears P kRSgB
  | .sender _ kSSgB _ => Sender.listenerAccepts P kSSgB

/-! The call where the first exchange is lost. -/

/-- Both packets are sent: nothing fails before, and the entry node takes both connections. -/
structure SetupInput.Sends (inp : SetupInput) (nonces : Fin nPathHops → Bytes returnNonceBytes)
    (rnd₁ rnd₂ : SphinxRandom) : Prop where
  header : inp.headerNonces = some nonces
  first : inp.first.packetRandom = some rnd₁ ∧ inp.first.connects = true
  second : inp.second.packetRandom = some rnd₂ ∧ inp.second.connects = true

variable {P}

theorem setupAttempts_lost {σ : Type} {hopDecoy : Bool}
    {build : σ → Option SphinxRandom → Option WirePacket × σ} {hears : WirePacket → Bool}
    {first second : Attempt} {s s₁ s₂ : σ} {pkt₁ pkt₂ : WirePacket} {net net₁ net₂ : Network}
    {fate : Fate WirePacket} (hbuild₁ : build s first.packetRandom = (some pkt₁, s₁))
    (hbuild₂ : build s₁ second.packetRandom = (some pkt₂, s₂)) (hconnects₁ : first.connects = true)
    (hconnects₂ : second.connects = true)
    (hlost : travel P hopDecoy first net pkt₁ = (.lost, net₁))
    (hfate : travel P hopDecoy second net₁ pkt₂ = (fate, net₂)) :
    setupAttempts P hopDecoy build hears [first, second] s net
      = ⟨if acknowledges hears fate then 0 else -1, [.lost, fate], s₂, net₂⟩ := by
  have hunheard : acknowledges hears .lost = false := rfl
  simp only [setupAttempts, hbuild₁, hbuild₂, hconnects₁, hconnects₂, if_true, hlost, hfate,
    hunheard, Bool.false_eq_true, if_false]
  by_cases hheard : acknowledges hears fate = true
  · rw [if_pos hheard, if_pos hheard]
  · rw [if_neg hheard, if_neg hheard]

variable (P)

/-- An attempt of the client takes the next counter of the leg. -/
theorem buildForLeg_eq {s : Client.RequestState} {leg : Fin Client.maxStripeLegs}
    {path : SphinxPath} {k : Nat} (h : s.legs leg = ⟨path, k⟩) (payload : List UInt8)
    (rnd : SphinxRandom) :
    ∃ s', buildForLeg P s leg payload (some rnd)
        = (packetSphinxBuild P path payload (pktReal ||| pktDestService) (longValue k) rnd,
            s') ∧
      s'.legs leg = ⟨path, k + 1⟩ := by
  refine ⟨(Client.nextLegCounter s leg).2, ?_, ?_⟩
  · simp only [buildForLeg, Client.nextLegCounter, h, Option.bind_some]
  · simp only [Client.nextLegCounter, h, Function.update_self]

theorem buildForSlot_eq {s : Sender.SenderState} {i : Fin senderResponsePortCount}
    {path : SphinxPath} {k : Nat}
    (h : (s.slots i).path = path ∧ (s.slots i).counters.sendPkt = k) (payload : List UInt8)
    (rnd : SphinxRandom) :
    ∃ s', Sender.buildForSlot P s i payload (some rnd)
        = (packetSphinxBuild P path payload (pktReal ||| pktDestService) (longValue k) rnd,
            s') ∧
      (s'.slots i).path = path ∧ (s'.slots i).counters.sendPkt = k + 1 := by
  refine ⟨(Sender.buildForSlot P s i payload (some rnd)).2, ?_, ?_⟩
  · rw [← h.1, ← h.2]
    rfl
  · simp only [Sender.buildForSlot, Client.buildReal, Client.nextSendPktCounter,
      Sender.SenderState.setSlot, Function.update_self, h, and_self]

variable {P}

theorem SetupCall.run_lost (call : SetupCall) {inp : SetupInput}
    {nonces : Fin nPathHops → Bytes returnNonceBytes} {rnd₁ rnd₂ : SphinxRandom}
    (hsends : inp.Sends nonces rnd₁ rnd₂) (hopDecoy : Bool) (slot : Station → Fin maxSessions)
    (slotB : Fin maxSessions) :
    let q := call.requester slot slotB
    ∃ pub addr pkt₁ pkt₂,
      packetSphinxBuild P q.path (q.setup P nonces pub addr) (pktReal ||| pktDestService)
        (call.counter 0) rnd₁ = some pkt₁ ∧
      packetSphinxBuild P q.path (q.setup P nonces pub addr) (pktReal ||| pktDestService)
        (call.counter 1) rnd₂ = some pkt₂ ∧
      ∀ net net₁ net₂ fate, travel P hopDecoy inp.first net pkt₁ = (.lost, net₁) →
        travel P hopDecoy inp.second net₁ pkt₂ = (fate, net₂) →
        call.run P hopDecoy inp net
          = (if acknowledges (call.hears P) fate then 0 else -1, [.lost, fate]) := by
  intro q
  have hbuilt : ∀ pub addr ctr rnd, ∃ pkt, packetSphinxBuild P q.path (q.setup P nonces pub addr)
      (pktReal ||| pktDestService) ctr rnd = some pkt := by
    intro pub addr ctr rnd
    refine Option.isSome_iff_exists.mp (Sender.packetSphinxBuild_isSome P _ _ _ _ ?_)
    rw [Requester.setup, Gateway.length_setupRequest]
    decide
  obtain ⟨hheader, ⟨hrnd₁, hconn₁⟩, hrnd₂, hconn₂⟩ := hsends
  cases call with
  | client s kRSgB leg =>
    obtain ⟨pkt₁, hpkt₁⟩ := hbuilt s.mncPubkey s.mncAddr
      (longValue (s.legs leg).counter) rnd₁
    obtain ⟨pkt₂, hpkt₂⟩ := hbuilt s.mncPubkey s.mncAddr
      (longValue ((s.legs leg).counter + 1)) rnd₂
    refine ⟨_, _, pkt₁, pkt₂, hpkt₁, hpkt₂, fun net net₁ net₂ fate hlost hfate => ?_⟩
    let s₀ : Client.RequestState := { s with returnPkt := s.returnPkt + 1 }
    have hs₀ : s₀.legs leg = ⟨(s.legs leg).path, (s.legs leg).counter⟩ := rfl
    obtain ⟨s₁, hbuild₁, hs₁⟩ := buildForLeg_eq P hs₀ (q.setup P nonces s.mncPubkey s.mncAddr) rnd₁
    obtain ⟨s₂, hbuild₂, -⟩ := buildForLeg_eq P hs₁ (q.setup P nonces s.mncPubkey s.mncAddr) rnd₂
    have hrun : setupAttempts P hopDecoy
        (fun s rnd => buildForLeg P s leg (q.setup P nonces s₀.mncPubkey s₀.mncAddr) rnd)
        (clientHears P kRSgB) [inp.first, inp.second] s₀ net = _ :=
      setupAttempts_lost (by rw [hrnd₁, ← hpkt₁]; exact hbuild₁)
        (by rw [hrnd₂, ← hpkt₂]; exact hbuild₂) hconn₁ hconn₂ hlost hfate
    simp only [SetupCall.run, sendSetupLeg, Client.buildFreshReturnHeader, hheader, Option.map_some]
    exact congrArg (fun run : SetupRun Client.RequestState => (run.ret, run.fates)) hrun
  | sender s kSSgB i =>
    obtain ⟨pkt₁, hpkt₁⟩ := hbuilt (s.slots i).mnzPubkey (s.slots i).mnzAddr
      (longValue (s.slots i).counters.sendPkt) rnd₁
    obtain ⟨pkt₂, hpkt₂⟩ := hbuilt (s.slots i).mnzPubkey (s.slots i).mnzAddr
      (longValue ((s.slots i).counters.sendPkt + 1)) rnd₂
    refine ⟨_, _, pkt₁, pkt₂, hpkt₁, hpkt₂, fun net net₁ net₂ fate hlost hfate => ?_⟩
    obtain ⟨c, hc⟩ : ∃ c, Client.nextReturnPktCounter (s.slots i).counters = c := ⟨_, rfl⟩
    let s₀ : Sender.SenderState := s.setSlot i { s.slots i with counters := c.2 }
    have hs₀ : s₀.slots i = { s.slots i with counters := c.2 } := Function.update_self _ _ _
    have hslot : (s₀.slots i).path = (s.slots i).path ∧
        (s₀.slots i).counters.sendPkt = (s.slots i).counters.sendPkt := by
      rw [hs₀, ← hc]
      exact ⟨rfl, rfl⟩
    obtain ⟨s₁, hbuild₁, hs₁⟩ := buildForSlot_eq P hslot
      (q.setup P nonces (s.slots i).mnzPubkey (s.slots i).mnzAddr) rnd₁
    obtain ⟨s₂, hbuild₂, -⟩ := buildForSlot_eq P hs₁
      (q.setup P nonces (s.slots i).mnzPubkey (s.slots i).mnzAddr) rnd₂
    have hrun : setupAttempts P hopDecoy (fun s' rnd => Sender.buildForSlot P s' i
        (q.setup P nonces (s.slots i).mnzPubkey (s.slots i).mnzAddr) rnd)
        (Sender.listenerAccepts P kSSgB) [inp.first, inp.second] s₀ net = _ :=
      setupAttempts_lost (by rw [hrnd₁, ← hpkt₁]; exact hbuild₁)
        (by rw [hrnd₂, ← hpkt₂]; exact hbuild₂) hconn₁ hconn₂ hlost hfate
    have hheader' : Sender.buildReturnHeaderForSlot P s i (some nonces)
        = (some (packetBuildReturnHeader P (fun h => (q.route.recvHops h).headerEncKey)
            (fun h => (q.route.recvHops h).headerMacKey)
            (MixNode.returnHint P q.route.recvHops q.returnCtr) q.route.returnAddrs nonces),
            s₀) := by
      simp only [s₀, ← hc]
      rfl
    simp only [SetupCall.run, sendSetupForSlot, hheader, hheader', hs₀]
    exact congrArg (fun run : SetupRun Sender.SenderState => (run.ret, run.fates)) hrun

/-- Either caller hears an acknowledgement that decrypts under the key of its receiving session. -/
theorem SetupCall.hears_of (call : SetupCall) {slot : Station → Fin maxSessions}
    {slotB : Fin maxSessions} {wire : WirePacket} {resp : List UInt8}
    (haccepts : Client.listenerAccepts P (call.requester slot slotB).kSgB wire = true)
    (hwait : Client.waitResponse P (call.requester slot slotB).kSgB wire = some resp) :
    call.hears P wire = true := by
  cases call with
  | client s kRSgB leg =>
    have hsome : (Client.waitResponse P kRSgB wire).isSome = true :=
      Option.isSome_iff_exists.mpr ⟨resp, hwait⟩
    exact Bool.and_eq_true_iff.mpr ⟨haccepts, hsome⟩
  | sender s kSSgB i => exact haccepts

/-! The retry. -/

variable (P)

/-- Both packets are sent, with nonces that are new to the relays; the stations hold the caller's
sessions, and other traffic keeps off them. -/
structure SetupReady (call : SetupCall) (inp : SetupInput) (slot : Station → Fin maxSessions)
    (slotB : Fin maxSessions) (net : Network) (nonces : Fin nPathHops → Bytes returnNonceBytes)
    (rnd₁ rnd₂ : SphinxRandom) : Prop where
  sends : inp.Sends nonces rnd₁ rnd₂
  distinct : ∀ i, rnd₁.hopNonce i ≠ rnd₂.hopNonce i
  routable : Routable (call.requester slot slotB)
  held : ∀ st, Holds P (call.requester slot slotB) (call.counter 0) (call.counter 1)
    (fun i r => r.Misses [rnd₁.hopNonce i, rnd₂.hopNonce i]) (fun i r => r.Misses [nonces i]) st
    (net st)
  first : ∀ st, KeepsOff P (call.requester slot slotB) (call.counter 0) (call.counter 1) st
    (inp.first.others st)
  second : ∀ st, KeepsOff P (call.requester slot slotB) (call.counter 0) (call.counter 1) st
    (inp.second.others st)

/-- No relay drops the second exchange as a replay, and the call succeeds. -/
def RetryWorks (run : Int × List (Fate WirePacket)) : Prop :=
  run.2[1]? ≠ some .replayed ∧ run.1 = 0

theorem take_back {reach : Nat} {i : Fin nPathHops} (h : Station.back i ∈ stations.take reach) :
    Station.back 0 ∈ stations.take reach := by
  by_cases hreach : reach ≤ 4
  · have hforward : ∀ i, Station.back i ∉ stations.take 4 := by decide
    exact absurd ((List.take_prefix_take_left hreach).subset h) (hforward i)
  · have hfive : stations.take 5 <+: stations.take reach := List.take_prefix_take_left (by omega)
    exact hfive.subset (by decide)

variable {P}

theorem SetupReady.run {call : SetupCall} {inp : SetupInput} {slot : Station → Fin maxSessions}
    {slotB : Fin maxSessions} {net : Network} {nonces : Fin nPathHops → Bytes returnNonceBytes}
    {rnd₁ rnd₂ : SphinxRandom} (ready : SetupReady P call inp slot slotB net nonces rnd₁ rnd₂)
    (hfree : MixNode.CountersDistinct P) (hopDecoy : Bool)
    (hlost : inp.first.reach ≤ stations.length) (hcarried : stations.length < inp.second.reach) :
    (Station.back 0 ∈ stations.take inp.first.reach →
        call.run P hopDecoy inp net = (-1, [.lost, .replayed])) ∧
      (Station.back 0 ∉ stations.take inp.first.reach →
        ∃ wire, call.run P hopDecoy inp net = (0, [.lost, .through wire])) := by
  obtain ⟨pub, addr, pkt₁, pkt₂, hbuild₁, hbuild₂, hrun⟩ :=
    call.run_lost ready.sends hopDecoy slot slotB
  have hordered := (ready.held (.out 0)).1.ordered
  obtain ⟨fate₁, net₁, htravel₁, hfate₁, -, hmet, hrest⟩ :=
    travel_fresh hfree ready.routable ⟨le_rfl, hordered⟩ (fun i => by simpa using ready.distinct i)
      hopDecoy ready.first hbuild₁ ready.held
  obtain rfl := hfate₁ hlost
  -- Whether the first packet came by or not, the second nonce is still new.
  have hmono : ∀ st, Holds P (call.requester slot slotB) (call.counter 0) (call.counter 1)
      (fun i r => r.Misses [rnd₁.hopNonce i, rnd₂.hopNonce i]) (fun i r => r.Misses [nonces i]) st
      (net₁ st) →
      Holds P (call.requester slot slotB) (call.counter 0) (call.counter 1)
        (fun i r => r.Misses [rnd₂.hopNonce i]) (fun i r => r.Misses [nonces i]) st (net₁ st) := by
    intro st hst
    cases st with
    | out i => exact ⟨hst.1, hst.2.1, hst.2.2.mono (List.subset_cons_self _ _)⟩
    | gateway => exact hst
    | back i => exact hst
  have hforward : ∀ st ∉ returnStations, Holds P (call.requester slot slotB) (call.counter 0)
      (call.counter 1) (fun i r => r.Misses [rnd₂.hopNonce i]) (fun i r => r.Misses [nonces i]) st
      (net₁ st) := by
    intro st hst
    by_cases hin : st ∈ stations.take inp.first.reach
    · have hafter := hmet st hin
      cases st with
      | out i => exact hafter
      | gateway => exact hafter
      | back i => exact absurd (by simp [returnStations]) hst
    · exact hmono st (hrest st hin)
  have hsecond : ∀ i, rnd₂.hopNonce i ∉ ([] : List (Bytes nonceBytes)) := fun _ => List.not_mem_nil
  constructor
  · intro hmnc
    have hreplayed := travel_replayed hfree ready.routable ⟨hordered, le_rfl⟩ hsecond hopDecoy
      ready.second hbuild₂ hcarried hforward (hmet (.back 0) hmnc)
    rcases htravel₂ : travel P hopDecoy inp.second net₁ pkt₂ with ⟨fate₂, net₂⟩
    rw [htravel₂] at hreplayed
    obtain rfl : fate₂ = .replayed := hreplayed
    rw [hrun net net₁ net₂ _ htravel₁ htravel₂]
    rfl
  · intro hmnc
    have hheld : ∀ st, Holds P (call.requester slot slotB) (call.counter 0) (call.counter 1)
        (fun i r => r.Misses [rnd₂.hopNonce i]) (fun i r => r.Misses [nonces i]) st (net₁ st) := by
      intro st
      cases st with
      | out i => exact hforward (.out i) (by simp [returnStations])
      | gateway => exact hforward .gateway (by simp [returnStations])
      | back i => exact hmono (.back i) (hrest (.back i) fun hin => hmnc (take_back hin))
    obtain ⟨fate₂, net₂, htravel₂, -, harrived, -⟩ :=
      travel_fresh hfree ready.routable ⟨hordered, le_rfl⟩ hsecond hopDecoy ready.second hbuild₂
        hheld
    obtain ⟨wire, rfl, haccepts, hwait⟩ := harrived hcarried
    refine ⟨wire, ?_⟩
    rw [hrun net net₁ net₂ _ htravel₁ htravel₂]
    have hhears : acknowledges (call.hears P) (.through wire) = true := call.hears_of haccepts hwait
    rw [if_pos hhears]

/-- Where the first exchange is lost and the second is not, the retry works exactly if MNc has not
had the first acknowledgement: it remembers the nonce of the return header that both go out with. -/
theorem setup_retry_iff (hfree : MixNode.CountersDistinct P) (hopDecoy : Bool) (call : SetupCall)
    (inp : SetupInput) (slot : Station → Fin maxSessions) (slotB : Fin maxSessions) (net : Network)
    (nonces : Fin nPathHops → Bytes returnNonceBytes) (rnd₁ rnd₂ : SphinxRandom)
    (ready : SetupReady P call inp slot slotB net nonces rnd₁ rnd₂)
    (hlost : inp.first.reach ≤ stations.length) (hcarried : stations.length < inp.second.reach) :
    RetryWorks (call.run P hopDecoy inp net) ↔ Station.back 0 ∉ stations.take inp.first.reach := by
  obtain ⟨hfails, hworks⟩ := ready.run hfree hopDecoy hlost hcarried
  constructor
  · intro h hmnc
    rw [hfails hmnc] at h
    exact h.1 rfl
  · intro hmnc
    obtain ⟨wire, hwire⟩ := hworks hmnc
    rw [hwire]
    exact ⟨fun h => (nomatch h), rfl⟩

/-! The client's first SETUP, right behind the handshakes, with the first acknowledgement lost
behind a relay. -/

def freshRelay (master : AesKey) (role : UInt8) : MixNode.Table :=
  ((MixNode.extendSession .sample (fun _ => MixNode.zeroEntry) master role 0).map Prod.snd).getD
    fun _ => MixNode.zeroEntry

def sampleNetwork : Network
  | .out i => freshRelay (sampleMaster i) sessionRoleA
  | .gateway => Machine.run (Gateway.gwStep .sample)
      [.extend (sampleMaster 3) sessionRoleA 0, .extend (sampleMaster 9) sessionRoleB 0]
      Gateway.GwState.initial
  | .back i => freshRelay (sampleMaster (i + 4)) sessionRoleB

def sampleSetupCall : SetupCall :=
  .client ⟨true, Bytes.zero _, addrPlain 9041, .sample, 1, fun _ => ⟨.sample, 0⟩⟩ (sampleMaster 9)
    ⟨0, Client.maxStripeLegs_pos⟩

def sampleAttempt (k reach : Nat) : Attempt where
  packetRandom := some (.sample k)
  connects := true
  reach := reach
  others _ s := s
  now _ := 0
  pad _ := Bytes.zero _
  headerPad _ := Bytes.zero _
  junk := Bytes.zero _
  gcmNonce := Bytes.zero _

def sampleSetup (reach : Nat) : SetupInput :=
  ⟨some fun i => bigEndian returnNonceBytes i, sampleAttempt 0 reach, sampleAttempt 1 8⟩

theorem freshRelay_holds (master : AesKey) (role : UInt8) {lo hi : Nat} (hlo : lo ≤ hi)
    (hhi : hi < hintWindow) :
    SessionFor .sample (freshRelay master role 0) (deriveHop .sample master) lo hi ∧
      Alone .sample (freshRelay master role) 0 (deriveHop .sample master) lo hi ∧
      (∀ nonces, (freshRelay master role 0).seenNonces.Misses nonces) ∧
      ∀ nonces, (freshRelay master role 0).seenReturnNonces.Misses nonces := by
  obtain ⟨t, hext⟩ : ∃ t, MixNode.extendSession .sample (fun _ => MixNode.zeroEntry) master role 0
      = some (0, t) := by
    unfold MixNode.extendSession MixNode.sessionAlloc
    rw [Slots.alloc_free (i := 0) rfl fun j hj => absurd hj (Fin.not_lt_zero j)]
    exact ⟨_, rfl⟩
  have hrelay : freshRelay master role = t := by
    rw [freshRelay, hext]
    rfl
  rw [hrelay]
  obtain ⟨hsess, hseen, hseenReturn⟩ := MixNode.sessionFor_extend hext hlo hhi
  refine ⟨hsess, fun c _ _ j hj => ?_, hseen, hseenReturn⟩
  obtain ⟨sess, rfl, -⟩ := MixNode.extendSession_eq_some .sample hext
  unfold MixNode.foundAt
  rw [Function.update_of_ne hj]
  rfl

theorem sampleSetup_ready (reach : Nat) :
    SetupReady .sample sampleSetupCall (sampleSetup reach) (fun _ => 0) 1 sampleNetwork
      (fun i => bigEndian returnNonceBytes i) (.sample 0) (.sample 1) where
  sends := ⟨rfl, ⟨rfl, rfl⟩, rfl, rfl⟩
  distinct := by decide
  routable := by
    refine ⟨?_, ?_⟩
    · decide
    · decide +kernel
  held st := by
    cases st with
    | out i =>
      obtain ⟨hsess, halone, hmiss, -⟩ := freshRelay_holds (sampleMaster i) sessionRoleA
        (show 0 ≤ 1 by decide) (by decide)
      exact ⟨hsess, halone, hmiss _⟩
    | gateway =>
      exact ⟨by decide +kernel, by decide +kernel, by decide +kernel, by decide +kernel,
        by decide +kernel, by decide +kernel, by decide +kernel, by decide +kernel,
        by decide +kernel, by decide +kernel⟩
    | back i =>
      obtain ⟨hsess, halone, -, hmiss⟩ := freshRelay_holds (sampleMaster (i + 4)) sessionRoleB
        (show 1 ≤ 1 by decide) (by decide)
      exact ⟨hsess, halone, hmiss _⟩
  first st := by
    cases st with
    | out i => exact fun t => ⟨rfl, id⟩
    | gateway => exact fun s => id
    | back i => exact fun t => ⟨rfl, id⟩
  second st := by
    cases st with
    | out i => exact fun t => ⟨rfl, id⟩
    | gateway => exact fun s => id
    | back i => exact fun t => ⟨rfl, id⟩

/-- MNc drops the acknowledgement of the second SETUP. -/
theorem setup_retry_replayed :
    (sampleSetup 5).first.reach ≤ stations.length ∧
      stations.length < (sampleSetup 5).second.reach ∧
      sampleSetupCall.run .sample false (sampleSetup 5) sampleNetwork = (-1, [.lost, .replayed]) ∧
      ¬ RetryWorks (sampleSetupCall.run .sample false (sampleSetup 5) sampleNetwork) := by
  have hrun := ((sampleSetup_ready 5).run MixNode.countersDistinct_sample false (by decide)
    (by decide)).1 (by decide)
  refine ⟨by decide, by decide, hrun, fun h => ?_⟩
  rw [hrun] at h
  exact h.1 rfl

/-- The gateway has acknowledged both SETUPs, and the first acknowledgement is lost before MNc. -/
theorem setup_retry_iff_unrecorded :
    RetryWorks (sampleSetupCall.run .sample false (sampleSetup 4) sampleNetwork) :=
  (setup_retry_iff MixNode.countersDistinct_sample false sampleSetupCall (sampleSetup 4)
    (fun _ => 0) 1 sampleNetwork (fun i => bigEndian returnNonceBytes i) (.sample 0) (.sample 1)
    (sampleSetup_ready 4) (by decide) (by decide)).mpr (by decide)

end AnonSecNet.Retrieval
