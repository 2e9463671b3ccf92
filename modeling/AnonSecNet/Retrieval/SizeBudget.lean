import AnonSecNet.Client.Requests
import AnonSecNet.Retrieval.Respond

/-! The messages of a retrieval against every length check they meet: the client and the
sender, the gateway, the cache server and back. -/
namespace AnonSecNet.Retrieval
open Octets Gateway
open Sender hiding step appSection requestPayload sendAppRequest appLen payload_built
variable (P : Primitives)

/-- The longest signature of an answer: a DER encoding of up to 72 bytes. -/
def derSignatureMax : Nat := 72

/-- The lengths of `data` that the cache server takes for the type. -/
def CacheTakes (type : RequestType) (data : List UInt8) : Prop :=
  match type with
  | .handshakeInit => data.length = ecPubkeyLen
  | .handshakeRespond => ecPubkeyLen + 2 ≤ data.length ∧ data.length ≤ Cache.maxRespData
  | _ => True

/-- The gateway reads the payload, and the cache server takes what is relayed. -/
def Relayed (payload : List UInt8) : Prop :=
  ∃ (h : payload.length ≤ maxInnerPayload) (r : AppRequest),
    parseRequest payload h = some r ∧ CacheTakes r.type r.data.1

/-- The gateway passes a reply on that is not empty. -/
def ReplyPasses (reply : List UInt8) : Prop :=
  readReply maxInnerPayload (Cache.framed reply) = some reply

structure ClientPasses (type : RequestType) (key : CString) (data : Option (List UInt8)) :
    Prop where
  sent : ∀ s inp, Client.Able s inp → (Client.sendAppRequest P s type key data inp).1.isSent = true
  relayed : ∀ s hdr payload,
    (Client.appSection type key data).bind (Client.requestPayload s hdr) = some payload →
      Relayed payload

/-- Nothing but the length of the request can stop it. -/
def Able (s : SenderState) (inp : SendInput) : Prop :=
  s.ready = true ∧ inp.headerNonces.isSome ∧ inp.requestNonce.isSome ∧
    inp.packetRandom.isSome ∧ inp.connects = true

structure SenderPasses (type : RequestType) (key : CString) (data : List UInt8) : Prop where
  sent : ∀ s inp, Able s inp →
    (Sender.sendAppRequest P s type key (some data) inp).1.isSent = true
  relayed : ∀ nonce slot hdr payload,
    (Sender.appSection type nonce key (some data)).bind (Sender.requestPayload slot hdr)
      = some payload → Relayed payload

/-- HANDSHAKE_INIT, the answer of the sender, POLL and GET, with the replies to the last
two. -/
structure RetrievalFits (key : CString) (ephPub : PubKey) (wire : CString) : Prop where
  init : ClientPasses P .handshakeInit wire (some ephPub.toList)
  respond : ∀ sPub enc (sig : Signature), enc.length = aesKeyLen + gcmOverhead →
    sig.1.length ≤ derSignatureMax →
    SenderPasses P .handshakeRespond wire (respondData sPub enc sig) ∧
      ReplyPasses (0x01 :: respondData sPub enc sig)
  poll : ClientPasses P .handshakePoll wire none
  get : ClientPasses P .get key none
  content : ∀ content : Cache.Content, ReplyPasses content.1

/-- Whatever ephemeral key the client draws. -/
def Retrievable (key : CString) : Prop :=
  ∀ ephPub, ∃ wire, wireKey key ephPub = some wire ∧ RetrievalFits P key ephPub wire

/-! The single messages. -/

theorem clientPasses_of_fits {type : RequestType} {key : CString} {data : Option (List UInt8)}
    (hnonce : hasNonce type = false) (hcarries : carriesData type = false → data.getD [] = [])
    (hkey : 0 < key.1.length) (hlong : key.1.length ≤ maxSendKeyLen)
    (hfits : returnHdrInPayload + Client.appLen key (data.map List.length) ≤ maxInnerPayload)
    (htakes : CacheTakes type (data.getD [])) : ClientPasses P type key data where
  sent s inp hable := (Client.sendAppRequest_spec P s inp).1.mpr ⟨hable, hlong, hfits⟩
  relayed s hdr payload h := by
    obtain ⟨r, hr, htype, -, hdata⟩ := Client.parseRequest_sent hnonce hcarries hkey hlong h
    exact ⟨_, r, hr, by rw [htype, hdata]; exact htakes⟩

theorem able_sample (kContent : AesKey) : Able .sample (UploadInput.sample kContent true).send :=
  ⟨rfl, rfl, rfl, rfl, rfl⟩

theorem respond_length (wire : CString) (sPub : PubKey) {enc : List UInt8} (sig : Signature)
    (henc : enc.length = aesKeyLen + gcmOverhead) :
    returnHdrInPayload + Sender.appLen wire (some (respondData sPub enc sig).length)
      = 379 + (wire.1.length + sig.1.length) := by
  have hlen := length_respondData sPub enc sig
  rw [henc] at hlen
  simp only [Sender.appLen, hlen, Option.elim_some]
  simp
  omega

/-- An answer that is sent leaves room for wire key and signature. -/
theorem room_of_respondPasses {wire : CString} {sPub : PubKey} {enc : List UInt8}
    {sig : Signature} (henc : enc.length = aesKeyLen + gcmOverhead)
    (h : SenderPasses P .handshakeRespond wire (respondData sPub enc sig)) :
    wire.1.length + sig.1.length ≤ 84 := by
  have hsent := h.sent _ _ (able_sample (Bytes.zero _))
  obtain ⟨-, -, -, -, -, -, hfits⟩ := (sendAppRequest_spec P _ _ _ _ _).sent.mp hsent
  have hlen := respond_length wire sPub sig henc
  rw [Option.map_some, hlen] at hfits
  simp only [maxInnerPayload] at hfits
  omega

theorem respondPasses_of_room {wire : CString} (hkey : 0 < wire.1.length)
    (hlong : wire.1.length ≤ maxSendKeyLen) {sPub : PubKey} {enc : List UInt8} {sig : Signature}
    (henc : enc.length = aesKeyLen + gcmOverhead) (hroom : wire.1.length + sig.1.length ≤ 84) :
    SenderPasses P .handshakeRespond wire (respondData sPub enc sig) := by
  have hfits : returnHdrInPayload + Sender.appLen wire (some (respondData sPub enc sig).length)
      ≤ maxInnerPayload := by
    rw [respond_length wire sPub sig henc, maxInnerPayload]
    omega
  have hlen := length_respondData sPub enc sig
  rw [henc] at hlen
  refine ⟨fun s inp ⟨hready, hhdr, hnonce, hrnd, hconn⟩ =>
    (sendAppRequest_spec P s .handshakeRespond wire _ inp).sent.mpr
      ⟨hready, hhdr, hnonce, hrnd, hconn, hlong, hfits⟩, ?_⟩
  intro nonce slot hdr payload h
  obtain ⟨r, hr, htype, -, -, hdata⟩ := Sender.parseRequest_sent rfl
    (fun hno => absurd hno (by decide)) hkey hlong h
  refine ⟨_, r, hr, ?_⟩
  rw [htype, hdata]
  simp only [CacheTakes, Option.getD_some, hlen]
  simp
  omega

theorem replyPasses_of_fits {reply : List UInt8} (h : reply.length ≤ maxInnerPayload) :
    ReplyPasses reply := by
  unfold ReplyPasses
  rw [readReply_framed _ (by simp at h; omega), if_neg (by omega)]

/-- A request without a key is not read. -/
theorem not_relayed_of_empty {type : RequestType} (hnonce : hasNonce type = false) {key : CString}
    (hkey : key.1 = []) {data : Option (List UInt8)} {s : Client.RequestState} {hdr : ReturnHeader}
    {payload : List UInt8}
    (h : (Client.appSection type key data).bind (Client.requestPayload s hdr) = some payload) :
    ¬ Relayed payload := by
  obtain ⟨-, -, heq⟩ := Client.payload_eq h
  rintro ⟨hlen, r, hr, -⟩
  obtain ⟨raw, -, hraw, -⟩ := Option.pmap_eq_some_iff.mp hr
  have hrouting : (s.mncPubkey.toList ++ s.mncAddr.toList ++ hdr.toList).length
      = returnHdrInPayload := by simp
  unfold parseRaw at hraw
  split at hraw
  · cases hraw
  · rw [heq, List.drop_left' hrouting] at hraw
    simp only [RequestType.ofCode_code, Option.bind_some, parseTyped, hnonce,
      Bool.false_eq_true, ↓reduceIte, parseKeyed, hkey] at hraw
    simp at hraw

/-! The budget. -/

theorem retrievable_of_short {key : CString} (hkey : 0 < key.1.length) (hshort : key.1.length ≤ 7) :
    Retrievable P key := by
  intro ephPub
  obtain ⟨wire, hwire⟩ := Option.isSome_iff_exists.mp (wireKey_of_accepted
    (show key.1.length ≤ maxSendKeyLen by simp only [maxSendKeyLen]; omega) ephPub)
  have hlen := (wireKey_eq_some hwire).1
  have hlong : wire.1.length ≤ maxSendKeyLen := by
    rw [hlen, maxSendKeyLen]
    omega
  refine ⟨wire, hwire, ?_, ?_, ?_, ?_, ?_⟩
  · exact clientPasses_of_fits P rfl (fun hno => absurd hno (by decide)) (by omega) hlong
      (by simp [Client.appLen]; omega)
      ephPub.length_eq
  · intro sPub enc sig henc hsig
    refine ⟨respondPasses_of_room P (by omega) hlong henc ?_, replyPasses_of_fits ?_⟩
    · simp only [derSignatureMax] at hsig
      omega
    · have hdata := length_respondData sPub enc sig
      rw [henc] at hdata
      simp only [derSignatureMax] at hsig
      simp at hdata ⊢
      omega
  · exact clientPasses_of_fits P rfl (fun _ => rfl) (by omega) hlong
      (by simp [Client.appLen]; omega) trivial
  · exact clientPasses_of_fits P rfl (fun _ => rfl) hkey (by simp only [maxSendKeyLen]; omega)
      (by simp [Client.appLen]; omega) trivial
  · intro content
    have hcontent := content.2
    exact replyPasses_of_fits (by simp at hcontent ⊢; omega)

def longestSignature : Signature := ⟨List.replicate derSignatureMax 1, by decide⟩

theorem short_of_retrievable {key : CString} (h : Retrievable P key) :
    0 < key.1.length ∧ key.1.length ≤ 7 := by
  obtain ⟨wire, hwire, hfits⟩ := h (Bytes.zero _)
  constructor
  · by_contra hempty
    have hnil : key.1 = [] := List.eq_nil_of_length_eq_zero (by omega)
    have hbuilt := (Client.payload_built .get key none
      ⟨true, Bytes.zero _, Bytes.zero _, .sample, 0, fun _ => ⟨.sample, 0⟩⟩ (Bytes.zero _)).mpr
        (by simp [Client.appLen, hnil])
    obtain ⟨payload, hpayload⟩ := Option.isSome_iff_exists.mp hbuilt
    exact not_relayed_of_empty rfl hnil hpayload (hfits.get.relayed _ _ payload hpayload)
  · have hrespond := (hfits.respond (Bytes.zero _) (List.replicate 60 0) longestSignature rfl
      (by decide)).1
    have hroom := room_of_respondPasses P (show _ = 60 from List.length_replicate) hrespond
    have hlen := (wireKey_eq_some hwire).1
    have hsig : longestSignature.1.length = 72 := by decide
    omega

/-- Everything a retrieval sends gets through exactly for keys of one to seven bytes. -/
theorem retrieval_size_budget_iff (key : CString) :
    Retrievable P key ↔ 0 < key.1.length ∧ key.1.length ≤ 7 :=
  ⟨short_of_retrievable P, fun h => retrievable_of_short P h.1 h.2⟩

def messagesKey : CString := ⟨labelBytes "messages", by decide⟩

/-- Content for a key of eight bytes is uploaded, and there is no answer for its receivers. -/
theorem uploaded_not_retrievable :
    (uploadContent .sample .sample messagesKey [7]
        { UploadInput.sample (sampleMaster 0) true with
          signature := some longestSignature }).1.isSent = true ∧
      ¬ Retrievable .sample messagesKey := by
  refine ⟨by decide +kernel, fun h => ?_⟩
  have hshort := (short_of_retrievable .sample h).2
  revert hshort
  decide

end AnonSecNet.Retrieval
