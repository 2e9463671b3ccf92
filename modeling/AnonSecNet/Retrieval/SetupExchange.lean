import AnonSecNet.Client.Packets
import AnonSecNet.Foundation.Courier
import AnonSecNet.Gateway.SetupReply
import AnonSecNet.MixNode.HeldSession

/-! One SETUP packet on its way over the relays to the gateway, and the acknowledgement on its way
back, in a network that may lose either. -/
namespace AnonSecNet.Retrieval
open Octets Courier
open Gateway (Registered setupRequest setupOk)
open MixNode (Alone SessionFor ReturnCarries returnHint)
variable (P : Primitives)

/-- The relays of the sending path, the gateway, and the relays of the receiving path. -/
inductive Station where
  | out (i : Fin nPathHops)
  | gateway
  | back (i : Fin nPathHops)
deriving DecidableEq

abbrev Station.State : Station → Type
  | .out _ => MixNode.Table
  | .gateway => Gateway.GwState
  | .back _ => MixNode.Table

abbrev Network : Type := ∀ st : Station, st.State

def returnStations : List Station := (List.finRange nPathHops).map .back

def stations : List Station := (List.finRange nPathHops).map .out ++ .gateway :: returnStations

/-- What one attempt gets from outside: the random bytes (`none` when drawing them or what is
computed from them fails), whether the entry node takes the connection, how far the network carries
the exchange, what other traffic makes of the stations before it gets there, and what the stations
read and draw. -/
structure Attempt where
  packetRandom : Option SphinxRandom
  connects : Bool
  reach : Nat
  others : ∀ st : Station, st.State → st.State
  now : Station → Nat
  pad : Fin nPathHops → WirePacket
  headerPad : Fin nPathHops → ReturnHeader
  junk : Bytes 32
  gcmNonce : Bytes gcmNonceLen

/-- What becomes of a packet at a station that has dropped it as a replay or not. -/
def stationFate (replayed : Bool) (out : Option WirePacket) : Fate WirePacket :=
  if replayed then .replayed else out.elim .refused .through

def handle (hopDecoy : Bool) (a : Attempt) :
    ∀ st : Station, st.State → WirePacket → Fate WirePacket × st.State
  | .out i, t, pkt =>
    let (out, t') := MixNode.handleData P hopDecoy t pkt (a.now (.out i)) (a.pad i)
    (stationFate (MixNode.dataReplayed P t pkt (a.now (.out i)) (a.pad i)) (out.map Prod.snd), t')
  | .gateway, s, pkt =>
    let s' := Gateway.gwStep P s (.receive pkt (a.now .gateway) a.junk a.gcmNonce)
    (stationFate false ((s'.sent.drop s.sent.length).head?.bind fun e => e.packet P), s')
  | .back i, t, wire =>
    let (out, t') := MixNode.handleReturn P t wire (a.now (.back i)) (a.headerPad i)
    (stationFate (MixNode.returnReplayed P t wire (a.now (.back i)) (a.headerPad i))
      (out.map MixNode.Delivery.wire), t')

/-- The packet of an attempt, until the acknowledgement is at the requester's port. -/
def travel (hopDecoy : Bool) (a : Attempt) (net : Network) (pkt : WirePacket) :
    Fate WirePacket × Network :=
  carry (handle P hopDecoy a) a.reach stations (fun st => a.others st (net st)) pkt

/-! What the stations hold. -/

/-- The two paths of a requester, the key of its receiving session, the counter of its return
header, and the slots in which the stations keep its sessions. -/
structure Requester where
  path : SphinxPath
  route : Client.ReturnRoute
  kSgB : AesKey
  returnCtr : Nat
  slot : Station → Fin maxSessions
  slotB : Fin maxSessions

section
variable (q : Requester)

/-- The sessions of the requester, with a window for the send counters from `lo` to `hi` and nonce
caches as `seen` and `seenReturn` say, and no other sessions that answer its hints. -/
def Holds (lo hi : Nat) (seen : Fin nPathHops → Recent (Bytes nonceBytes) replayWindow → Prop)
    (seenReturn : Fin nPathHops → Recent (Bytes returnNonceBytes) replayWindow → Prop) :
    ∀ st : Station, st.State → Prop
  | .out i, t =>
    SessionFor P (t (q.slot (.out i))) (q.path.hops i) lo hi ∧
      Alone P t (q.slot (.out i)) (q.path.hops i) lo hi ∧ seen i (t (q.slot (.out i))).seenNonces
  | .gateway, s =>
    Registered P s.table (q.slot .gateway) q.slotB q.path.e2eKey q.kSgB q.path.sgHint
  | .back i, t =>
    SessionFor P (t (q.slot (.back i))) (q.route.recvHops i) q.returnCtr q.returnCtr ∧
      Alone P t (q.slot (.back i)) (q.route.recvHops i) q.returnCtr q.returnCtr ∧
      seenReturn i (t (q.slot (.back i))).seenReturnNonces

/-- Other traffic leaves the requester's sessions alone and sets up none that answers its hints. -/
def KeepsOff (lo hi : Nat) : ∀ st : Station, (st.State → st.State) → Prop
  | .out i, others =>
    ∀ t, others t (q.slot (.out i)) = t (q.slot (.out i)) ∧
      (Alone P t (q.slot (.out i)) (q.path.hops i) lo hi →
        Alone P (others t) (q.slot (.out i)) (q.path.hops i) lo hi)
  | .gateway, others =>
    ∀ s, Registered P s.table (q.slot .gateway) q.slotB q.path.e2eKey q.kSgB q.path.sgHint →
      Registered P (others s).table (q.slot .gateway) q.slotB q.path.e2eKey q.kSgB q.path.sgHint
  | .back i, others =>
    ∀ t, others t (q.slot (.back i)) = t (q.slot (.back i)) ∧
      (Alone P t (q.slot (.back i)) (q.route.recvHops i) q.returnCtr q.returnCtr →
        Alone P (others t) (q.slot (.back i)) (q.route.recvHops i) q.returnCtr q.returnCtr)

/-- All addresses on the way are ones the relays connect to. -/
def Routable : Prop :=
  (∀ i, MixNode.isAllowedNextHop localhostBytes (nextHopPort q.path i)) ∧
    ∀ i, MixNode.isAllowedNextHop (addrIp (q.route.returnAddrs i))
      (addrPort (q.route.returnAddrs i))

variable {P q} {lo hi : Nat}
  {seen seen' : Fin nPathHops → Recent (Bytes nonceBytes) replayWindow → Prop}
  {seenReturn seenReturn' : Fin nPathHops → Recent (Bytes returnNonceBytes) replayWindow → Prop}

theorem Holds.undisturbed {st : Station} {s : st.State} (h : Holds P q lo hi seen seenReturn st s)
    {others : st.State → st.State} (hoff : KeepsOff P q lo hi st others) :
    Holds P q lo hi seen seenReturn st (others s) := by
  cases st with
  | out i =>
    obtain ⟨hkept, halone⟩ := hoff s
    obtain ⟨hsess, hothers, hseen⟩ := h
    exact ⟨hkept ▸ hsess, halone hothers, hkept ▸ hseen⟩
  | gateway => exact hoff s h
  | back i =>
    obtain ⟨hkept, halone⟩ := hoff s
    obtain ⟨hsess, hothers, hseen⟩ := h
    exact ⟨hkept ▸ hsess, halone hothers, hkept ▸ hseen⟩

/-! What the packet carries. -/

section
variable (P q)

/-- The payload of a requester's SETUP. The return header is one the requester built. -/
def Requester.setup (nonces : Fin nPathHops → Bytes returnNonceBytes) (pub : PubKey) (addr : Addr) :
    List UInt8 :=
  setupRequest (fun i => (q.route.recvHops i).blindKey)
    (packetDeriveBindingTag P q.path.e2eKey q.kSgB) pub addr
    (packetBuildReturnHeader P (fun i => (q.route.recvHops i).headerEncKey)
      (fun i => (q.route.recvHops i).headerMacKey) (returnHint P q.route.recvHops q.returnCtr)
      q.route.returnAddrs nonces)

/-- A packet with these stations still ahead: the SETUP with its header blocks, or behind the
gateway the acknowledgement. -/
def InTransit (ctr : Nat) (rnd : SphinxRandom) (sect : Bytes payloadSectionSize)
    (nonces : Fin nPathHops → Bytes returnNonceBytes) (gcmNonce : Bytes gcmNonceLen)
    (ahead : List Station) (pkt : WirePacket) : Prop :=
  (∃ hops, hops.length ≤ nPathHops ∧ ahead = hops.map .out ++ .gateway :: returnStations ∧
      Carries P q.path ctr (-1) rnd sect hops pkt) ∨
    ∃ hops enc, hops.length ≤ nPathHops ∧ ahead = hops.map .back ∧
      cryptoAesEncrypt P q.kSgB gcmNonce (pktReal :: setupOk) (returnPayloadSize - 2) = some enc ∧
      ReturnCarries P q.route.recvHops q.route.returnAddrs q.returnCtr nonces
        (Gateway.returnPayload enc) hops pkt

end

section
variable {ctr : Nat} {rnd : SphinxRandom} {sect : Bytes payloadSectionSize}
  {nonces : Fin nPathHops → Bytes returnNonceBytes} {gcmNonce : Bytes gcmNonceLen}
  {ahead : List Station} {pkt : WirePacket}

theorem InTransit.at_out {i : Fin nPathHops}
    (h : InTransit P q ctr rnd sect nonces gcmNonce (.out i :: ahead) pkt) :
    ∃ hops, hops.length < nPathHops ∧ ahead = hops.map .out ++ .gateway :: returnStations ∧
      Carries P q.path ctr (-1) rnd sect (i :: hops) pkt := by
  rcases h with ⟨hops, hlen, hahead, hcar⟩ | ⟨hops, -, -, hahead, -⟩
  · cases hops with
    | nil => cases hahead
    | cons j hops =>
      obtain ⟨hj, hrest⟩ := List.cons_eq_cons.mp hahead
      cases hj
      exact ⟨hops, hlen, hrest, hcar⟩
  · cases hops with
    | nil => cases hahead
    | cons j hops => cases (List.cons_eq_cons.mp hahead).1

theorem InTransit.at_gateway
    (h : InTransit P q ctr rnd sect nonces gcmNonce (.gateway :: ahead) pkt) :
    ahead = returnStations ∧ Carries P q.path ctr (-1) rnd sect [] pkt := by
  rcases h with ⟨hops, -, hahead, hcar⟩ | ⟨hops, -, -, hahead, -⟩
  · cases hops with
    | nil => exact ⟨(List.cons_eq_cons.mp hahead).2, hcar⟩
    | cons j hops => cases (List.cons_eq_cons.mp hahead).1
  · cases hops with
    | nil => cases hahead
    | cons j hops => cases (List.cons_eq_cons.mp hahead).1

theorem InTransit.at_back {i : Fin nPathHops}
    (h : InTransit P q ctr rnd sect nonces gcmNonce (.back i :: ahead) pkt) :
    ∃ hops enc, hops.length < nPathHops ∧ ahead = hops.map .back ∧
      cryptoAesEncrypt P q.kSgB gcmNonce (pktReal :: setupOk) (returnPayloadSize - 2) = some enc ∧
      ReturnCarries P q.route.recvHops q.route.returnAddrs q.returnCtr nonces
        (Gateway.returnPayload enc) (i :: hops) pkt := by
  rcases h with ⟨hops, -, hahead, -⟩ | ⟨hops, enc, hlen, hahead, henc, hcar⟩
  · cases hops with
    | nil => cases (List.cons_eq_cons.mp hahead).1
    | cons j hops => cases (List.cons_eq_cons.mp hahead).1
  · cases hops with
    | nil => cases hahead
    | cons j hops =>
      obtain ⟨hj, hrest⟩ := List.cons_eq_cons.mp hahead
      cases hj
      exact ⟨hops, enc, hlen, hrest, henc, hcar⟩

/-- Behind the last station the requester can decrypt the acknowledgement. -/
theorem InTransit.arrived (h : InTransit P q ctr rnd sect nonces gcmNonce [] pkt) :
    Client.listenerAccepts P q.kSgB pkt = true ∧
      Client.waitResponse P q.kSgB pkt = some setupOk := by
  rcases h with ⟨hops, -, hahead, -⟩ | ⟨hops, enc, -, hahead, henc, hcar⟩
  · cases hops with
    | nil => cases hahead
    | cons j hops => cases hahead
  · obtain rfl := List.map_eq_nil_iff.mp hahead.symm
    exact Client.receives_real P (by decide) henc hcar.2

/-! One station. -/

section
variable {hopDecoy : Bool} {a : Attempt} {net : Network}
  {more : Fin nPathHops → List (Bytes nonceBytes)}
  {seenAfter : Fin nPathHops → Recent (Bytes returnNonceBytes) replayWindow → Prop}

theorem passes_out (hfree : MixNode.CountersDistinct P) (hroute : Routable q) {i : Fin nPathHops}
    (hheld : Holds P q lo hi (fun i r => r.Misses (rnd.hopNonce i :: more i)) seenReturn (.out i)
      (net (.out i))) (hctr : lo ≤ ctr ∧ ctr ≤ hi) (hnew : rnd.hopNonce i ∉ more i) :
    Passes (handle P hopDecoy a) (InTransit P q ctr rnd sect nonces gcmNonce)
      (Holds P q ctr hi (fun i r => r.Misses (more i)) seenAfter) net (.out i) ahead := by
  intro pkt hpkt
  obtain ⟨hops, hlen, hahead, hcar⟩ := hpkt.at_out
  obtain ⟨hsess, halone, hmiss⟩ := hheld
  obtain ⟨out, hpeel, hcar'⟩ := hcar.peel P ctr q.path (-1) rnd sect hlen (a.pad i)
  have hflag : hopFlagOf (-1) i ≠ hopDropMarker := by
    unfold hopFlagOf
    rw [if_neg (by omega)]
    decide
  obtain ⟨sess, hhandle, hreplayed, hsess', hmiss'⟩ := hsess.forwards halone hfree hctr.1 hctr.2
    hopDecoy (a.now (.out i)) hmiss hnew (hcar.outerHint P ctr q.path (-1) rnd sect) hpeel hflag
    (hroute.1 i)
  refine ⟨out, Function.update (net (.out i)) (q.slot (.out i)) sess, ?_,
    .inl ⟨hops, hlen.le, hahead, hcar'⟩, ?_, ?_, ?_⟩
  · simp only [handle, hhandle, hreplayed]
    rfl
  · rw [Function.update_self]
    exact hsess'
  · intro c hlo hhi
    exact (halone.update sess) c (hctr.1.trans hlo) hhi
  · rw [Function.update_self]
    exact hmiss'

theorem passes_back (hfree : MixNode.CountersDistinct P) (hroute : Routable q) {i : Fin nPathHops}
    (hheld : Holds P q lo hi seen (fun i r => r.Misses [nonces i]) (.back i) (net (.back i))) :
    Passes (handle P hopDecoy a) (InTransit P q ctr rnd sect nonces gcmNonce)
      (Holds P q ctr hi seen' fun i r => r.Holds (nonces i)) net (.back i) ahead := by
  intro wire hwire
  obtain ⟨hops, enc, hlen, hahead, henc, hcar⟩ := hwire.at_back
  obtain ⟨hsess, halone, hmiss⟩ := hheld
  obtain ⟨hhint, shifted, hpeel, hcar'⟩ := hcar.peel P q.route.recvHops q.route.returnAddrs
    q.returnCtr nonces hlen (a.headerPad i)
  obtain ⟨sess, hhandle, hreplayed, hsess', hheld'⟩ := hsess.returns halone hfree (a.now (.back i))
    hmiss hhint hpeel (hroute.2 i)
  refine ⟨_, Function.update (net (.back i)) (q.slot (.back i)) sess, ?_,
    .inr ⟨hops, enc, hlen.le, hahead, henc, hcar'⟩, ?_, ?_, ?_⟩
  · simp only [handle, hhandle, hreplayed]
    rfl
  · rw [Function.update_self]
    exact hsess'
  · exact halone.update sess
  · rw [Function.update_self]
    exact hheld'

theorem stopped_back (hfree : MixNode.CountersDistinct P) {i : Fin nPathHops} {t : MixNode.Table}
    (hheld : Holds P q lo hi seen (fun i r => r.Holds (nonces i)) (.back i) t)
    {wire : WirePacket}
    (hwire : InTransit P q ctr rnd sect nonces gcmNonce (.back i :: ahead) wire) :
    (handle P hopDecoy a (.back i) t wire).1 = .replayed := by
  obtain ⟨hops, enc, hlen, hahead, henc, hcar⟩ := hwire.at_back
  obtain ⟨hsess, halone, hseen⟩ := hheld
  obtain ⟨hhint, shifted, hpeel, hcar'⟩ := hcar.peel P q.route.recvHops q.route.returnAddrs
    q.returnCtr nonces hlen (a.headerPad i)
  have hreplayed := hsess.drops_replay halone hfree (a.now (.back i)) hseen hhint hpeel
  simp only [handle, hreplayed]
  rfl

theorem passes_gateway {pub : PubKey} {addr : Addr}
    (hheld : Holds P q lo hi seen seenReturn .gateway (net .gateway))
    (hsect : e2eSection P q.path (q.setup P nonces pub addr) (pktReal ||| pktDestService)
      rnd.gcmNonce = some sect) :
    Passes (handle P hopDecoy a) (InTransit P q ctr rnd sect nonces a.gcmNonce)
      (Holds P q ctr hi seen' seenAfter) net .gateway ahead := by
  intro pkt hpkt
  obtain ⟨rfl, hcar⟩ := hpkt.at_gateway
  have hlen : (q.setup P nonces pub addr).length ≤ maxInnerPayload := by
    rw [Requester.setup, Gateway.length_setupRequest]
    decide
  have hread : pkt.read headerSize payloadSectionSize = sect := hcar.2
  obtain ⟨sect', -, hsect', -, -, -, htail⟩ := e2eSection_fields P q.path
    (q.setup P nonces pub addr) (pktReal ||| pktDestService) rnd.gcmNonce hlen
  obtain rfl : sect' = sect := Option.some.inj (hsect'.symm.trans hsect)
  have hhint := (Bytes.read_within hread (payloadSectionSize - sgHintBytes) sgHintBytes
    (by decide)).trans htail
  have hunwrap := packetSphinxUnwrap_section P hlen hsect hread
  obtain ⟨e, hsent, hpacket, hreg⟩ := hheld.acknowledged ⟨pub, addr, rfl⟩ hhint hunwrap
    (a.now .gateway) a.junk a.gcmNonce
  obtain ⟨enc, henc, -, hreply⟩ := Gateway.sendResponseEx_of_fits P
    (fun i => (q.route.recvHops i).blindKey) q.kSgB
    (packetBuildReturnHeader P (fun i => (q.route.recvHops i).headerEncKey)
      (fun i => (q.route.recvHops i).headerMacKey) (returnHint P q.route.recvHops q.returnCtr)
      q.route.returnAddrs nonces) pktReal setupOk a.gcmNonce (by decide)
  refine ⟨_, _, ?_, .inr ⟨List.finRange nPathHops, enc, (List.length_finRange).le, rfl, henc,
    MixNode.returnCarries_build P q.route.recvHops q.route.returnAddrs q.returnCtr nonces _⟩, hreg⟩
  simp only [handle, hsent, List.drop_left, List.head?_cons, Option.bind_some, hpacket, hreply]
  rfl

end

end

/-! The whole way. -/

section
variable {pub : PubKey} {addr : Addr} {ctr : Nat} {rnd : SphinxRandom} {pkt : WirePacket}
  {nonces : Fin nPathHops → Bytes returnNonceBytes}

theorem stations_nodup : stations.Nodup := by decide

/-- A packet that was built is ready for the first station. -/
theorem inTransit_build
    (hbuild : packetSphinxBuild P q.path (q.setup P nonces pub addr) (pktReal ||| pktDestService)
      ctr rnd = some pkt) (gcmNonce : Bytes gcmNonceLen) :
    ∃ sect, e2eSection P q.path (q.setup P nonces pub addr) (pktReal ||| pktDestService)
        rnd.gcmNonce = some sect ∧
      InTransit P q ctr rnd sect nonces gcmNonce stations pkt := by
  have hlen : (q.setup P nonces pub addr).length ≤ maxInnerPayload := by
    rw [Requester.setup, Gateway.length_setupRequest]
    decide
  obtain ⟨sect, -, hsect, -⟩ := e2eSection_fields P q.path (q.setup P nonces pub addr)
    (pktReal ||| pktDestService) rnd.gcmNonce hlen
  obtain ⟨p₀, hp₀, c₀⟩ := carries_build P ctr q.path (q.setup P nonces pub addr)
    (pktReal ||| pktDestService) (-1) rnd sect (by simp) hlen hsect
  obtain rfl : p₀ = pkt := Option.some.inj (hp₀.symm.trans hbuild)
  exact ⟨sect, hsect, .inl ⟨_, (List.length_finRange).le, rfl, c₀⟩⟩

variable (hfree : MixNode.CountersDistinct P) (hroute : Routable q) (hctr : lo ≤ ctr ∧ ctr ≤ hi)
  {more : Fin nPathHops → List (Bytes nonceBytes)} (hnew : ∀ i, rnd.hopNonce i ∉ more i)
  (hopDecoy : Bool) {a : Attempt} {net : Network}
  (hoff : ∀ st, KeepsOff P q lo hi st (a.others st))
  (hbuild : packetSphinxBuild P q.path (q.setup P nonces pub addr) (pktReal ||| pktDestService)
    ctr rnd = some pkt)
include hfree hroute hctr hnew hoff hbuild

/-- Where all nonces are new, only the network stops the exchange, and the stations it met have
recorded them. -/
theorem travel_fresh
    (hheld : ∀ st, Holds P q lo hi (fun i r => r.Misses (rnd.hopNonce i :: more i))
      (fun i r => r.Misses [nonces i]) st (net st)) :
    ∃ fate net', travel P hopDecoy a net pkt = (fate, net') ∧
      (a.reach ≤ stations.length → fate = .lost) ∧
      (stations.length < a.reach → ∃ wire, fate = .through wire ∧
        Client.listenerAccepts P q.kSgB wire = true ∧
        Client.waitResponse P q.kSgB wire = some setupOk) ∧
      (∀ st ∈ stations.take a.reach, Holds P q ctr hi (fun i r => r.Misses (more i))
        (fun i r => r.Holds (nonces i)) st (net' st)) ∧
      ∀ st, st ∉ stations.take a.reach →
        Holds P q lo hi (fun i r => r.Misses (rnd.hopNonce i :: more i))
          (fun i r => r.Misses [nonces i]) st (net' st) := by
  obtain ⟨sect, hsect, hstart⟩ := inTransit_build hbuild a.gcmNonce
  have hready := fun st => (hheld st).undisturbed (hoff st)
  have hpass : ∀ st ahead, Passes (handle P hopDecoy a)
      (InTransit P q ctr rnd sect nonces a.gcmNonce)
      (Holds P q ctr hi (fun i r => r.Misses (more i)) fun i r => r.Holds (nonces i))
      (fun st => a.others st (net st)) st ahead := by
    intro st ahead
    cases st with
    | out i => exact passes_out hfree hroute (hready (.out i)) hctr (hnew i)
    | gateway => exact passes_gateway (hready .gateway) hsect
    | back i => exact passes_back hfree hroute (hready (.back i))
  obtain ⟨fate, net', hcarry, hlost, harrived, hmet, hrest⟩ :=
    carry_through stations_nodup (fun st ahead _ => hpass st ahead) a.reach hstart
  refine ⟨fate, net', hcarry, hlost, fun h => ?_, hmet, fun st hst => ?_⟩
  · obtain ⟨wire, hwire, hin⟩ := harrived h
    exact ⟨wire, hwire, hin.arrived⟩
  · rw [hrest st hst]
    exact hready st

/-- Where MNc has recorded its nonce before, the acknowledgement ends there. -/
theorem travel_replayed (hreach : stations.length < a.reach)
    (hheld : ∀ st ∉ returnStations, Holds P q lo hi
      (fun i r => r.Misses (rnd.hopNonce i :: more i)) seenReturn st (net st))
    (hseen : Holds P q lo hi seen (fun i r => r.Holds (nonces i)) (.back 0) (net (.back 0))) :
    (travel P hopDecoy a net pkt).1 = .replayed := by
  obtain ⟨sect, hsect, hstart⟩ := inTransit_build hbuild a.gcmNonce
  have hsplit : stations = ((List.finRange nPathHops).map .out ++ [.gateway]) ++
      .back 0 :: [.back 1, .back 2] := by decide
  have hpass : ∀ st u, st :: u <:+ (List.finRange nPathHops).map .out ++ [.gateway] →
      Passes (handle P hopDecoy a) (InTransit P q ctr rnd sect nonces a.gcmNonce)
        (Holds P q ctr hi (fun i r => r.Misses (more i)) seenReturn)
        (fun st => a.others st (net st)) st (u ++ .back 0 :: [.back 1, .back 2]) := by
    intro st u hsuffix
    have hst := hsuffix.subset List.mem_cons_self
    cases st with
    | out i =>
      exact passes_out hfree hroute ((hheld (.out i) (by simp [returnStations])).undisturbed
        (hoff (.out i))) hctr (hnew i)
    | gateway =>
      exact passes_gateway ((hheld .gateway (by simp [returnStations])).undisturbed
        (hoff .gateway)) hsect
    | back i => simp at hst
  have hstop : ∀ wire, InTransit P q ctr rnd sect nonces a.gcmNonce
      (.back 0 :: [.back 1, .back 2]) wire →
        (handle P hopDecoy a (.back 0) (a.others (.back 0) (net (.back 0))) wire).1 = .replayed :=
    fun wire hwire => stopped_back hfree (hseen.undisturbed (hoff (.back 0))) hwire
  have hnodup := stations_nodup
  unfold travel
  rw [hsplit] at hstart hnodup hreach ⊢
  rw [List.length_append] at hreach
  exact carry_stopped hnodup hpass (fun b h => by cases h) hstop (by omega) hstart

end

end

end AnonSecNet.Retrieval
