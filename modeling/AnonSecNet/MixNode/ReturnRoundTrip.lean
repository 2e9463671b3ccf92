import AnonSecNet.Client.Packets
import AnonSecNet.Client.Receive
import AnonSecNet.Gateway.Response
import AnonSecNet.MixNode.Handlers
import Mathlib.Data.Fin.VecNotation

/-! The return path: what the gateway sends reaches the client through the three relays. -/
namespace AnonSecNet.MixNode
open Octets
variable (P : Primitives)

/-- Confirming a match leaves the identity and the nonce cache of the slot alone. -/
theorem confirm_kept (t : Table) (f : Found) :
    (sessionConfirmHintMatch P t f f.idx).inUse = (t f.idx).inUse ∧
      (sessionConfirmHintMatch P t f f.idx).generation = (t f.idx).generation ∧
      (sessionConfirmHintMatch P t f f.idx).seenReturnNonces = (t f.idx).seenReturnNonces := by
  unfold sessionConfirmHintMatch
  split
  · rw [Function.update_self]
    exact ⟨rfl, rfl, rfl⟩
  · exact ⟨rfl, rfl, rfl⟩

/-- The relay holds a session with the hop's keys and the hint in its window, no earlier
slot has the hint, and the nonce is new. -/
structure ReturnReady (t : Table) (hop : HopSession) (hint : Hint)
    (nonce : Bytes returnNonceBytes) (slot : Fin maxSessions) : Prop where
  inUse : (t slot).inUse = true
  keys : (t slot).keys = ⟨hop.headerEncKey, hop.headerMacKey, hop.blindKey⟩
  window : ∃ d w, (t slot).hintWindow d w = hint
  first : ∀ j < slot, foundAt t hint j = none
  fresh : ¬ (t slot).seenReturnNonces.Holds nonce

/-- `handle_return` forwards a packet whose header peels, whose nonce is new and whose next
hop is allowed. -/
theorem handleReturn_forwards {t : Table} {hop : HopSession} {hint : Hint} {next : ReturnNext}
    {slot : Fin maxSessions} (ready : ReturnReady t hop hint next.nonce slot) {wire : WirePacket}
    {pad shifted : ReturnHeader} (now : Nat) (hhint : returnOuterHint (returnHeaderOf wire) = hint)
    (hpeel : packetPeelReturnHeader P (returnHeaderOf wire) hop.headerEncKey hop.headerMacKey pad
      = some (next, shifted))
    (hallowed : isAllowedNextHop next.nextIp next.nextPort) :
    (handleReturn P t wire now pad).1
      = some ⟨next.nextIp, next.nextPort, decide (isFinal next.nextPort),
          returnOut P ⟨hop.headerEncKey, hop.headerMacKey, hop.blindKey⟩ wire shifted⟩ := by
  obtain ⟨d, w, hw⟩ := ready.window
  obtain ⟨f, hfound, hidx⟩ := sessionFind_of_window now ready.inUse hw
  obtain rfl := hidx ready.first
  rcases hfind : sessionFind t hint now with ⟨found, t'⟩
  rw [hfind] at hfound
  obtain rfl : found = some f := hfound
  obtain ⟨hat, rfl⟩ := sessionFind_eq_some hfind
  obtain ⟨-, huse, -, hkeys, hgen⟩ := foundAt_eq_some hat
  rw [ready.keys] at hkeys
  obtain ⟨huse', hgen', hseen⟩ := confirm_kept P
    (Function.update t f.idx { t f.idx with lastActiveMs := now }) f
  rw [Function.update_self] at huse' hgen' hseen
  have hsame : SameSession (sessionConfirmHintMatch P
      (Function.update t f.idx { t f.idx with lastActiveMs := now }) f) f.idx f.generation :=
    ⟨huse'.trans huse, hgen'.trans hgen.symm⟩
  have hnew : (sessionCheckReturnNonceByIdx (sessionConfirmHintMatch P
      (Function.update t f.idx { t f.idx with lastActiveMs := now }) f) f.idx f.generation
        next.nonce).1 = false := by
    unfold sessionCheckReturnNonceByIdx Recent.checkAndRecord
    rw [if_pos hsame, hseen, if_neg ready.fresh]
  unfold handleReturn
  rw [hhint, hfind]
  dsimp only
  rw [hkeys]
  dsimp only
  rw [hpeel]
  dsimp only
  rw [if_neg (by rw [hnew]; decide), if_pos hallowed]

/-! What a return packet holds while `hops` are still ahead of it. -/

section
variable (recvHops : Fin nPathHops → HopSession) (addrs : Fin nPathHops → Addr) (ctr : Nat)
  (nonces : Fin nPathHops → Bytes returnNonceBytes)

/-- The hint of the return header for the relay of `hop`. -/
def returnHint (hop : Fin nPathHops) : Hint :=
  packetDeriveHopHint P (recvHops hop).hintSeed ctr

def routeBlock (hop : Fin nPathHops) : Bytes returnBlockSize :=
  returnBlock P (recvHops hop).headerEncKey (recvHops hop).headerMacKey
    (returnHint P recvHops ctr hop) (addrs hop) (nonces hop)

def ReturnCarries (payload : Bytes returnPayloadSize) (hops : List (Fin nPathHops))
    (wire : WirePacket) : Prop :=
  (hops.flatMap fun i => (routeBlock P recvHops addrs ctr nonces i).toList)
      <+: (returnHeaderOf wire).toList ∧
    wire.read returnHeaderSize returnPayloadSize returnPayload_within
      = Gateway.preBlind P (fun i => (recvHops i).blindKey) hops payload

/-- What a relay of the receiving path finds and makes of the packet. -/
theorem ReturnCarries.peel {payload : Bytes returnPayloadSize} {i : Fin nPathHops}
    {hops : List (Fin nPathHops)} {wire : WirePacket}
    (h : ReturnCarries P recvHops addrs ctr nonces payload (i :: hops) wire)
    (hlen : hops.length < nPathHops) (pad : ReturnHeader) :
    returnOuterHint (returnHeaderOf wire) = returnHint P recvHops ctr i ∧
      ∃ shifted, packetPeelReturnHeader P (returnHeaderOf wire) (recvHops i).headerEncKey
          (recvHops i).headerMacKey pad = some (returnNextFor (addrs i) (nonces i), shifted) ∧
        ReturnCarries P recvHops addrs ctr nonces payload hops (returnOut P
          ⟨(recvHops i).headerEncKey, (recvHops i).headerMacKey, (recvHops i).blindKey⟩ wire
          shifted) := by
  have hroom := Bytes.length_stacked (routeBlock P recvHops addrs ctr nonces) hops
  obtain ⟨hhint, shifted, hpeel, hshift⟩ := packetPeelReturnHeader_block P
    (recvHops i).headerEncKey (recvHops i).headerMacKey (returnHint P recvHops ctr i) (addrs i)
    (nonces i) (returnHeaderOf wire) pad
    (hops.flatMap fun i => (routeBlock P recvHops addrs ctr nonces i).toList)
    (by rw [hroom]; simp at hlen ⊢; omega) h.1
  refine ⟨hhint, shifted, hpeel, ?_, ?_⟩
  · rw [returnHeaderOf, returnOut, Bytes.read_append_fst]
    exact hshift
  · rw [returnOut, Bytes.read_append_snd, h.2]
    exact packetAesCtrXor_twice P _ _ (by decide) (by decide)

/-- One relay of the receiving path. -/
theorem ReturnCarries.relay {payload : Bytes returnPayloadSize} {i : Fin nPathHops}
    {hops : List (Fin nPathHops)} {wire : WirePacket}
    (h : ReturnCarries P recvHops addrs ctr nonces payload (i :: hops) wire)
    (hlen : hops.length < nPathHops) {t : Table} {slot : Fin maxSessions}
    (ready : ReturnReady t (recvHops i) (returnHint P recvHops ctr i) (nonces i) slot)
    (hallowed : isAllowedNextHop (addrIp (addrs i)) (addrPort (addrs i))) (now : Nat)
    (pad : ReturnHeader) :
    returnOuterHint (returnHeaderOf wire) = returnHint P recvHops ctr i ∧
      ∃ shifted out, packetPeelReturnHeader P (returnHeaderOf wire) (recvHops i).headerEncKey
          (recvHops i).headerMacKey pad = some (returnNextFor (addrs i) (nonces i), shifted) ∧
        (handleReturn P t wire now pad).1
          = some ⟨addrIp (addrs i), addrPort (addrs i),
              decide (isFinal (addrPort (addrs i))), out⟩ ∧
        ReturnCarries P recvHops addrs ctr nonces payload hops out := by
  obtain ⟨hhint, shifted, hpeel, hout⟩ := h.peel P recvHops addrs ctr nonces hlen pad
  exact ⟨hhint, shifted, _, hpeel, handleReturn_forwards P ready now hhint hpeel hallowed, hout⟩

theorem returnCarries_build (payload : Bytes returnPayloadSize) :
    ReturnCarries P recvHops addrs ctr nonces payload (List.finRange nPathHops)
      (packetBuildReturnHeader P (fun i => (recvHops i).headerEncKey)
          (fun i => (recvHops i).headerMacKey) (returnHint P recvHops ctr) addrs nonces
        ++ Gateway.preBlind P (fun i => (recvHops i).blindKey) (List.finRange nPathHops)
            payload) := by
  have hfin : List.finRange nPathHops = [0, 1, 2] := rfl
  refine ⟨?_, Bytes.read_append_snd _ _⟩
  rw [returnHeaderOf, Bytes.read_append_fst, hfin]
  have hheader : ∀ a b c : Bytes returnBlockSize,
      (a ++ b ++ c : ReturnHeader).toList = a.toList ++ b.toList ++ c.toList := fun _ _ _ => rfl
  rw [packetBuildReturnHeader, hheader]
  simp [routeBlock]

end

/-- A real response travels from the gateway through the three relays to the client: each
relay finds its hint and its nonce and sends the packet on to its address, and the client
gets exactly the response. -/
theorem return_round_trip (recvHops : Fin nPathHops → HopSession) (addrs : Fin nPathHops → Addr)
    (ctr : Nat) (nonces : Fin nPathHops → Bytes returnNonceBytes) (e2eKey : AesKey)
    (resp : List UInt8) (gcmNonce : Bytes gcmNonceLen) (t : Fin nPathHops → Table)
    (slot : Fin nPathHops → Fin maxSessions) (now : Fin nPathHops → Nat)
    (pad : Fin nPathHops → ReturnHeader)
    (hresp : resp.length ≤ maxInnerPayload)
    (hready : ∀ i, ReturnReady (t i) (recvHops i)
      (packetDeriveHopHint P (recvHops i).hintSeed ctr) (nonces i) (slot i))
    (hallowed : ∀ i, isAllowedNextHop (addrIp (addrs i)) (addrPort (addrs i))) :
    ∃ wire : Fin (nPathHops + 1) → WirePacket,
      Gateway.sendResponseEx P (fun i => (recvHops i).blindKey) e2eKey
          (packetBuildReturnHeader P (fun i => (recvHops i).headerEncKey)
            (fun i => (recvHops i).headerMacKey)
            (fun i => packetDeriveHopHint P (recvHops i).hintSeed ctr) addrs nonces)
          pktReal resp gcmNonce = some (wire 0) ∧
      (∀ i : Fin nPathHops,
        returnOuterHint (returnHeaderOf (wire i.castSucc))
          = packetDeriveHopHint P (recvHops i).hintSeed ctr ∧
        ((packetPeelReturnHeader P (returnHeaderOf (wire i.castSucc)) (recvHops i).headerEncKey
          (recvHops i).headerMacKey (pad i)).map fun out => out.1.nonce) = some (nonces i) ∧
        (handleReturn P (t i) (wire i.castSucc) (now i) (pad i)).1
          = some ⟨addrIp (addrs i), addrPort (addrs i), decide (isFinal (addrPort (addrs i))),
              wire i.succ⟩) ∧
      Client.listenerAccepts P e2eKey (wire 3) = true ∧
      Client.waitResponse P e2eKey (wire 3) = some resp := by
  obtain ⟨enc, henc, -, hsend⟩ := Gateway.sendResponseEx_of_fits P
    (fun i => (recvHops i).blindKey) e2eKey
    (packetBuildReturnHeader P (fun i => (recvHops i).headerEncKey)
      (fun i => (recvHops i).headerMacKey) (returnHint P recvHops ctr) addrs nonces)
    pktReal resp gcmNonce (by simp at hresp ⊢; omega)
  have c₀ := returnCarries_build P recvHops addrs ctr nonces (Gateway.returnPayload enc)
  obtain ⟨hhint₀, _, w₁, hpeel₀, hout₀, c₁⟩ :=
    c₀.relay P recvHops addrs ctr nonces (by simp) (hready 0) (hallowed 0) (now 0) (pad 0)
  obtain ⟨hhint₁, _, w₂, hpeel₁, hout₁, c₂⟩ :=
    c₁.relay P recvHops addrs ctr nonces (by simp) (hready 1) (hallowed 1) (now 1) (pad 1)
  obtain ⟨hhint₂, _, w₃, hpeel₂, hout₂, c₃⟩ :=
    c₂.relay P recvHops addrs ctr nonces (by simp) (hready 2) (hallowed 2) (now 2) (pad 2)
  obtain ⟨haccept, hwait⟩ := Client.receives_real P hresp henc c₃.2
  refine ⟨![_, w₁, w₂, w₃], hsend, ?_, haccept, hwait⟩
  intro i
  rcases hop_cases i with rfl | rfl | rfl
  · exact ⟨hhint₀, congrArg (Option.map _) hpeel₀, hout₀⟩
  · exact ⟨hhint₁, congrArg (Option.map _) hpeel₁, hout₁⟩
  · exact ⟨hhint₂, congrArg (Option.map _) hpeel₂, hout₂⟩

/-- The relay of the sample route's hop `i`, just set up. -/
def sampleRelay (i : Fin nPathHops) : Table :=
  ((extendSession .sample (fun _ => zeroEntry) (sampleMaster (i + 4)) sessionRoleB 0).map
    Prod.snd).getD fun _ => zeroEntry

theorem sampleRelay_ready (i : Fin nPathHops) :
    ReturnReady (sampleRelay i) (Client.ReturnRoute.sample.recvHops i)
      (packetDeriveHopHint .sample (Client.ReturnRoute.sample.recvHops i).hintSeed 7)
      (bigEndian returnNonceBytes i) 0 where
  inUse := by revert i; decide +kernel
  keys := by revert i; decide +kernel
  window := ⟨.real, ⟨7, by decide⟩, by revert i; decide +kernel⟩
  first j hj := absurd hj (Fin.not_lt_zero j)
  fresh := by revert i; decide +kernel

theorem return_round_trip_sample :
    ∃ wire : Fin (nPathHops + 1) → WirePacket,
      (handleReturn .sample (sampleRelay 2) (wire 2) 0 (Bytes.zero _)).1
        = some ⟨localhostBytes, 9020, true, wire 3⟩ ∧
      Client.waitResponse .sample (sampleMaster 9) (wire 3) = some [1, 2, 3] := by
  obtain ⟨wire, -, hrelay, -, hwait⟩ :=
    return_round_trip .sample Client.ReturnRoute.sample.recvHops
      Client.ReturnRoute.sample.returnAddrs 7 (fun i => bigEndian returnNonceBytes i)
      (sampleMaster 9) [1, 2, 3] (Bytes.zero _) sampleRelay (fun _ => 0) (fun _ => 0)
      (fun _ => Bytes.zero _) (by decide) sampleRelay_ready (by decide +kernel)
  refine ⟨wire, ?_, hwait⟩
  have haddr : addrIp (Client.ReturnRoute.sample.returnAddrs 2) = localhostBytes ∧
      addrPort (Client.ReturnRoute.sample.returnAddrs 2) = 9020 := by decide +kernel
  have hlast := (hrelay 2).2.2
  rw [haddr.1, haddr.2] at hlast
  exact hlast

end AnonSecNet.MixNode
