import AnonSecNet.KeyExchange
import AnonSecNet.Net
import AnonSecNet.MixNode.Sessions

/-! The request of `handle_extend` and the session it sets up. -/
namespace AnonSecNet.MixNode
open Octets
variable (K : KeyExchange) (P : Primitives)

/-- `role(1) | tport(2) | pubkey(65)`. -/
structure ExtendRequest where
  role : UInt8
  targetPort : UInt16
  clientPub : PubKey

def extendRequestLen : Nat := 3 + ecPubkeyLen

def ExtendRequest.bytes (req : ExtendRequest) : List UInt8 :=
  [req.role, UInt8.ofNat (req.targetPort.toNat / 256), UInt8.ofNat req.targetPort.toNat]
    ++ req.clientPub.toList

def recvExtendRequest (frame : WirePacket) : Option ExtendRequest :=
  (netRecvPaddedFrame frame extendRequestLen).bind fun req =>
    if req.length = extendRequestLen then
      some {
        role := req.getD 0 0
        targetPort := UInt16.ofNat (valueList ((req.drop 1).take 2))
        clientPub := Bytes.fit ecPubkeyLen (req.drop 3) }
    else none

/-- The master key of a request under the node's key pair. -/
def extendMaster (nodeKp : K.Secret) (myPort : UInt16) (req : ExtendRequest) : Option AesKey :=
  cryptoEcdhDeriveBound K nodeKp req.clientPub req.clientPub (K.pubkey nodeKp) myPort req.role

/-- What a request frame makes of the table, up to the descriptor reply. -/
def handleExtend (nodeKp : K.Secret) (myPort : UInt16) (t : Table) (frame : WirePacket)
    (now : Nat) : Option (ExtendRequest × AesKey × Fin maxSessions × Table) :=
  (recvExtendRequest frame).bind fun req =>
    (extendMaster K nodeKp myPort req).bind fun master =>
      (extendSession P t master req.role now).map fun (i, t) => (req, master, i, t)

theorem recvExtendRequest_sent {req : ExtendRequest} {pad frame : WirePacket}
    (h : netSendPaddedFrame req.bytes pad = some frame) :
    recvExtendRequest frame = some req := by
  have hlen : req.bytes.length = extendRequestLen := by
    simp [ExtendRequest.bytes, extendRequestLen]
  have hport : UInt16.ofNat (valueList [UInt8.ofNat (req.targetPort.toNat / 256),
      UInt8.ofNat req.targetPort.toNat]) = req.targetPort := by
    have hlt := req.targetPort.toNat_lt
    apply UInt16.toNat_inj.mp
    simp only [valueList, List.foldl_cons, List.foldl_nil, UInt16.toNat_ofNat', UInt8.toNat_ofNat']
    omega
  unfold recvExtendRequest
  rw [netRecvPaddedFrame_sent h hlen.le, Option.bind_some, if_pos hlen]
  refine congrArg some ?_
  have hpub := Bytes.fit_append req.clientPub []
  rw [List.append_nil] at hpub
  cases req
  simp only [ExtendRequest.mk.injEq]
  exact ⟨rfl, hport, hpub⟩

end AnonSecNet.MixNode
