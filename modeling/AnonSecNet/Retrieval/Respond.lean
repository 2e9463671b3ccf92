import AnonSecNet.Retrieval.WireKey

/-! `respond_worker` of `sender.c`: the content key for the receiver of one handshake. -/
namespace AnonSecNet.Retrieval
open Octets
open Sender hiding step
variable (K : KeyExchange) (P : Primitives)

/-- What an answer gets from outside: the ephemeral key pair, the GCM nonce and the signature,
`none` when they fail, and the input of its request. -/
structure RespondInput where
  eph : Option K.Secret
  gcmNonce : Option (Bytes gcmNonceLen)
  signature : Option Signature
  send : SendInput

/-- The signed part: `[s_ephemeral_pub(65)][enc_len(2)][enc_k_content]`. -/
def respondSigned (ephPub : PubKey) (encKContent : List UInt8) : List UInt8 :=
  ephPub.toList ++ (bigEndian 2 encKContent.length).toList ++ encKContent

def respondData (ephPub : PubKey) (encKContent : List UInt8) (sig : Signature) : List UInt8 :=
  respondSigned ephPub encKContent ++ UInt8.ofNat sig.1.length :: sig.1

/-- Ephemeral public key and encrypted content key, when the content key is the sender's own. -/
def sealContentKey (s : SenderState) (wire : CString) (rPub : PubKey) (inp : RespondInput K) :
    Option (PubKey × List UInt8) :=
  (respondLookup s wire).bind fun kContent =>
    inp.eph.bind fun eph =>
      (cryptoEcdhDerive K eph rPub).bind fun kSession =>
        inp.gcmNonce.bind fun gcmNonce =>
          (cryptoAesEncrypt P kSession gcmNonce kContent.toList (aesKeyLen + gcmOverhead)).map
            fun enc => (K.pubkey eph, enc.1)

/-- With the data of the answer and its packet. -/
def respondWorker (s : SenderState) (wire : CString) (rPub : PubKey) (inp : RespondInput K) :
    SendOutcome (List UInt8 × WirePacket) × SenderState :=
  match sealContentKey K P s wire rPub inp, inp.signature with
  | some (ephPub, enc), some sig =>
    match sendAppRequest P s .handshakeRespond wire (some (respondData ephPub enc sig)) inp.send with
    | (.sent pkt, s) => (.sent (respondData ephPub enc sig, pkt), s)
    | (.refused, s) => (.refused, s)
    | (.overrun, s) => (.overrun, s)
  | _, _ => (.refused, s)

theorem length_respondData (ephPub : PubKey) (encKContent : List UInt8) (sig : Signature) :
    (respondData ephPub encKContent sig).length
      = ecPubkeyLen + 2 + encKContent.length + 1 + sig.1.length := by
  simp [respondData, respondSigned]
  omega

end AnonSecNet.Retrieval
