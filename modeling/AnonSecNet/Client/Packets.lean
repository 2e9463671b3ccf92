import AnonSecNet.Packet.Return

/-! The packets `client.c` builds: its counters, real packets and cover. -/
namespace AnonSecNet.Client
open Octets
variable (P : Primitives)

/-- How many values each of the three counters has handed out. -/
structure Counters where
  sendPkt : Nat
  sendCoverPkt : Nat
  returnPkt : Nat

def nextSendPktCounter (c : Counters) : Nat × Counters :=
  (longValue c.sendPkt, { c with sendPkt := c.sendPkt + 1 })

def nextCoverPktCounter (c : Counters) : Nat × Counters :=
  ((hintCoverCounterBase + longValue c.sendCoverPkt) % 2 ^ 64,
    { c with sendCoverPkt := c.sendCoverPkt + 1 })

def nextReturnPktCounter (c : Counters) : Nat × Counters :=
  (longValue c.returnPkt, { c with returnPkt := c.returnPkt + 1 })

/-- The receiving path: `g_state.recv_hops` and `g_state.return_addrs`. -/
structure ReturnRoute where
  recvHops : Fin nPathHops → HopSession
  returnAddrs : Fin nPathHops → Addr

/-- Relays on ports 9041 to 9043, the client's listener behind them. -/
def ReturnRoute.sample : ReturnRoute where
  recvHops i := deriveHop .sample (sampleMaster (i + 4))
  returnAddrs i := if i = 2 then addrPlain 9020 else addrPlain (UInt16.ofNat (9042 + i))

/-- `build_return_header_into`: the hints of all three blocks come from one counter value. -/
def buildReturnHeaderInto (route : ReturnRoute) (c : Counters)
    (nonces : Fin nPathHops → Bytes returnNonceBytes) : ReturnHeader × Counters :=
  let (ctr, c) := nextReturnPktCounter c
  (packetBuildReturnHeader P (fun i => (route.recvHops i).headerEncKey)
    (fun i => (route.recvHops i).headerMacKey)
    (fun i => packetDeriveHopHint P (route.recvHops i).hintSeed ctr) route.returnAddrs nonces, c)

/-- A real forward packet, as `send_app_request` and `send_setup_leg` build it. -/
def buildReal (path : SphinxPath) (payload : List UInt8) (c : Counters) (rnd : SphinxRandom) :
    Option WirePacket × Counters :=
  let (ctr, c) := nextSendPktCounter c
  (packetSphinxBuild P path payload (pktReal ||| pktDestService) ctr rnd, c)

/-- `build_outbound_cover_with_spare_return` on the next cover counter: random bytes
behind a spare return header. -/
def buildOutboundCover (path : SphinxPath) (route : ReturnRoute)
    (randPayload : Bytes maxInnerPayload) (c : Counters)
    (nonces : Fin nPathHops → Bytes returnNonceBytes) (rnd : SphinxRandom) :
    Option WirePacket × Counters :=
  let (ctr, c) := nextCoverPktCounter c
  let (spare, c) := buildReturnHeaderInto P route c nonces
  (packetSphinxBuild P path (randPayload.write 0 spare).toList (pktDummy ||| pktDestService)
    ctr rnd, c)

theorem buildReal_fst (path : SphinxPath) (payload : List UInt8) (c : Counters)
    (rnd : SphinxRandom) :
    (buildReal P path payload c rnd).1
      = packetSphinxBuildEx P path payload (pktReal ||| pktDestService)
          (longValue c.sendPkt) (-1) rnd := rfl

theorem buildOutboundCover_fst (path : SphinxPath) (route : ReturnRoute)
    (randPayload : Bytes maxInnerPayload) (c : Counters)
    (nonces : Fin nPathHops → Bytes returnNonceBytes) (rnd : SphinxRandom) :
    ∃ payload, (buildOutboundCover P path route randPayload c nonces rnd).1
      = packetSphinxBuildEx P path payload (pktDummy ||| pktDestService)
          ((hintCoverCounterBase + longValue c.sendCoverPkt) % 2 ^ 64) (-1) rnd := ⟨_, rfl⟩

end AnonSecNet.Client
