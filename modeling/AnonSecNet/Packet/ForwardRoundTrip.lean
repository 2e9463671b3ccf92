import AnonSecNet.Packet.Forward
import Mathlib.Data.Fin.VecNotation

/-! Every relay peels the block built for it, and the gateway recovers the payload. -/
namespace AnonSecNet
open Octets
variable (P : Primitives)

/-! What one hop reads from its own block. -/

/-- What the relay of `hop` decodes. -/
def hopInfoFor (hop : HopSession) (port : UInt16) (flag : UInt8) (nonce : Bytes nonceBytes) :
    HopInfo :=
  { nextIp := localhostBytes, nextPort := port, blindKey := hop.blindKey, nonce := nonce,
    hopFlag := flag }

theorem read_port_addrPlain (port : UInt16) :
    UInt16.ofNat ((addrPlain port).read 4 2).value = port := by
  have hport : (addrPlain port).read 4 2 = bigEndian 2 port.toNat :=
    Bytes.read_append_snd localhostBytes (bigEndian 2 port.toNat)
  rw [hport, value_bigEndian (by have := port.toNat_lt; norm_num; omega), UInt16.ofNat_toNat]

theorem decodeHop_restPlain (hop : HopSession) (port : UInt16) (flag : UInt8)
    (nonce : Bytes nonceBytes) :
    decodeHop (restPlain port hop.blindKey flag) nonce = hopInfoFor hop port flag nonce := by
  have haddr : (restPlain port hop.blindKey flag).read 0 6 = addrPlain port := by
    unfold restPlain
    rw [Bytes.read_append_left (h := by decide)]
    exact Bytes.read_append_fst _ _
  have hkey : (restPlain port hop.blindKey flag).read 6 32 = hop.blindKey := by
    unfold restPlain
    rw [Bytes.read_append_left (h := by decide)]
    exact Bytes.read_append_snd _ _
  have hip : (restPlain port hop.blindKey flag).read 0 4 = localhostBytes := by
    have h := Bytes.read_within haddr 0 4 (by decide)
    rw [h]
    exact Bytes.read_append_fst _ _
  have hport : (restPlain port hop.blindKey flag).read 4 2 = (addrPlain port).read 4 2 := by
    have h := Bytes.read_within haddr 4 2 (by decide)
    simpa using h
  have hflag : (restPlain port hop.blindKey flag).byte 38 = flag :=
    Bytes.byte_of_read (x := ⟨[flag], rfl⟩) (Bytes.read_append_snd _ _)
  unfold decodeHop hopInfoFor
  rw [hip, hport, hflag, read_port_addrPlain]
  simp only [HopInfo.mk.injEq, true_and, and_true]
  exact hkey

variable (hop : HopSession) (port : UInt16) (flag : UInt8) (nonce : Bytes nonceBytes)
  (pktCounter : Nat)

theorem headerBlock_covered :
    (headerBlock P hop port flag nonce pktCounter).read 0 47
      = restEnc P hop port flag nonce ++ hopEncNonce P hop nonce := by
  unfold headerBlock
  rw [Bytes.read_append_left (h := by decide)]
  exact Bytes.read_append_fst _ _

theorem headerBlock_mac :
    (headerBlock P hop port flag nonce pktCounter).read 47 macBytes
      = packetHmac P hop.headerMacKey.toList
          ((headerBlock P hop port flag nonce pktCounter).read 0 47).toList := by
  rw [headerBlock_covered]
  unfold headerBlock
  rw [Bytes.read_append_left (h := by decide)]
  exact Bytes.read_append_snd _ _

theorem headerBlock_hint :
    (headerBlock P hop port flag nonce pktCounter).read 63 hintBytes
      = packetDeriveHopHint P hop.hintSeed pktCounter :=
  Bytes.read_append_snd _ _

theorem headerBlock_rest :
    (headerBlock P hop port flag nonce pktCounter).read 0 39 = restEnc P hop port flag nonce := by
  have h := Bytes.read_within (headerBlock_covered P hop port flag nonce pktCounter) 0 39
    (by decide)
  rw [h]
  exact Bytes.read_append_fst _ _

theorem headerBlock_encNonce :
    (headerBlock P hop port flag nonce pktCounter).read 39 nonceBytes
      = hopEncNonce P hop nonce := by
  have h := Bytes.read_within (headerBlock_covered P hop port flag nonce pktCounter)
    39 nonceBytes (by decide)
  rw [h]
  exact Bytes.read_append_snd _ _

/-- One peel: the block at the front is consumed, its layer of blinding comes off and
the blocks behind it move to the front. -/
theorem packetSphinxPeel_headerBlock (pkt pad : WirePacket) (sect : Bytes payloadSectionSize)
    (l : List UInt8) (hl : l.length ≤ headerSize - headerBlockSize)
    (hfront : (headerBlock P hop port flag nonce pktCounter).toList ++ l <+: pkt.toList)
    (hsect : pkt.read headerSize payloadSectionSize
      = packetAesCtrXorIv P hop.blindKey (hopIv P hop nonce) sect) :
    ∃ out, packetSphinxPeel P pkt hop.headerEncKey hop.headerMacKey pad
        = some (hopInfoFor hop port flag nonce, out) ∧
      l <+: out.toList ∧ out.read headerSize payloadSectionSize = sect := by
  have hblock := Bytes.read_of_leading hfront (by decide)
  have hfield := Bytes.read_within hblock
  have hcovered := hfield 0 47 (by decide)
  have hmac := hfield 47 macBytes (by decide)
  have hnonce := hfield 39 nonceBytes (by decide)
  have hrest := hfield 0 39 (by decide)
  simp only [Nat.zero_add] at hcovered hmac hnonce hrest
  rw [headerBlock_encNonce] at hnonce
  rw [headerBlock_rest] at hrest
  have hplain : packetAesCtrXorIv P hop.headerEncKey (hopIv P hop nonce)
      (restEnc P hop port flag nonce) = restPlain port hop.blindKey flag :=
    packetAesCtrXorIv_twice P _ _ _ (by decide) (by decide)
  have hdecode : decodeHop (restPlain port hop.blindKey flag)
      (packetAesCtrXor P hop.headerEncKey (hopEncNonce P hop nonce))
        = hopInfoFor hop port flag nonce := by
    rw [hopEncNonce, packetAesCtrXor_twice, decodeHop_restPlain]
  unfold packetSphinxPeel
  rw [hcovered, hmac, ← headerBlock_mac, if_neg (by simp)]
  simp only [hnonce, hrest]
  rw [← hopIv, hplain, hdecode]
  refine ⟨_, rfl, ?_, ?_⟩
  · -- the blocks behind the front one, and the payload written after them
    have hshift := Bytes.leading_of_read hfront (k := headerSize - headerBlockSize) (by decide) hl
    exact Bytes.leading_write_after (Bytes.leading_write hshift (by decide)) (by decide)
      (by simp at hl ⊢; omega)
  · rw [Bytes.read_write_same, hsect]
    exact packetAesCtrXorIv_twice P _ _ _ (by decide) (by decide)

/-! The whole path. -/

/-- What a packet holds while `hops` are still ahead of it: their blocks at the front
and their layers of blinding on the payload. -/
def Carries (path : SphinxPath) (pktCounter : Nat) (dropAtHop : Int) (rnd : SphinxRandom)
    (sect : Bytes payloadSectionSize) (hops : List (Fin nPathHops)) (pkt : WirePacket) : Prop :=
  (hops.flatMap fun i => (pathBlock P path pktCounter dropAtHop rnd i).toList) <+: pkt.toList ∧
    pkt.read headerSize payloadSectionSize payload_within = blindPayload P path rnd hops sect

def pathHopInfo (path : SphinxPath) (dropAtHop : Int) (rnd : SphinxRandom)
    (i : Fin nPathHops) : HopInfo :=
  hopInfoFor (path.hops i) (nextHopPort path i) (hopFlagOf dropAtHop i) (rnd.hopNonce i)

section
variable (path : SphinxPath) (payload : List UInt8) (flags : UInt8) (dropAtHop : Int)
  (rnd : SphinxRandom) (sect : Bytes payloadSectionSize)

theorem Carries.outerHint {i : Fin nPathHops} {hops : List (Fin nPathHops)} {pkt : WirePacket}
    (h : Carries P path pktCounter dropAtHop rnd sect (i :: hops) pkt) :
    outerHint pkt = packetDeriveHopHint P (path.hops i).hintSeed pktCounter := by
  have hblock := Bytes.read_of_leading h.1 (by decide)
  have hhint := Bytes.read_within hblock 63 hintBytes (by decide)
  rw [pathBlock, headerBlock_hint] at hhint
  simpa [AnonSecNet.outerHint] using hhint

/-- One relay of the path. -/
theorem Carries.peel {i : Fin nPathHops} {hops : List (Fin nPathHops)} {pkt : WirePacket}
    (h : Carries P path pktCounter dropAtHop rnd sect (i :: hops) pkt)
    (hlen : hops.length < nPathHops) (pad : WirePacket) :
    ∃ out, packetSphinxPeel P pkt (path.hops i).headerEncKey (path.hops i).headerMacKey pad
        = some (pathHopInfo path dropAtHop rnd i, out) ∧
      Carries P path pktCounter dropAtHop rnd sect hops out := by
  have hroom := Bytes.length_stacked (pathBlock P path pktCounter dropAtHop rnd) hops
  obtain ⟨out, hpeel, hfront, hsect⟩ := packetSphinxPeel_headerBlock P (path.hops i)
    (nextHopPort path i) (hopFlagOf dropAtHop i) (rnd.hopNonce i) pktCounter pkt pad
    (blindPayload P path rnd hops sect)
    (hops.flatMap fun i => (pathBlock P path pktCounter dropAtHop rnd i).toList)
    (by rw [hroom]; simp at hlen ⊢; omega) h.1 h.2
  exact ⟨out, hpeel, hfront, hsect⟩

theorem carries_build (hdrop : -1 ≤ dropAtHop ∧ dropAtHop < nPathHops)
    (hpayload : payload.length ≤ maxInnerPayload)
    (hsect : e2eSection P path payload flags rnd.gcmNonce = some sect) :
    ∃ pkt, packetSphinxBuildEx P path payload flags pktCounter dropAtHop rnd = some pkt ∧
      Carries P path pktCounter dropAtHop rnd sect (List.finRange nPathHops) pkt := by
  unfold packetSphinxBuildEx
  rw [if_neg (by omega), if_neg (by omega), hsect]
  have hfin : List.finRange nPathHops = [0, 1, 2] := rfl
  refine ⟨_, rfl, ?_, ?_⟩
  · have hheader : ∀ a b c : Bytes headerBlockSize,
        ((a ++ b ++ c : Bytes headerSize) ++ blindPayload P path rnd [0, 1, 2] sect).toList
          = a.toList ++ b.toList ++ c.toList ++ (blindPayload P path rnd [0, 1, 2] sect).toList :=
      fun _ _ _ => rfl
    rw [hfin]
    simp [hheader]
  · exact Bytes.read_append_snd _ _

end

/-! The payload section at the gateway. -/

theorem length_innerBuffer (flags : UInt8) (payload : List UInt8) :
    (innerBuffer flags payload).length = payload.length + innerHdrBytes := by
  simp [innerBuffer]
  omega

/-- The section built for a payload that fits: its length prefix, its ciphertext and
its trailing hint. -/
theorem e2eSection_fields (path : SphinxPath) (payload : List UInt8) (flags : UInt8)
    (gcmNonce : Bytes gcmNonceLen) (hpayload : payload.length ≤ maxInnerPayload) :
    ∃ sect ct, e2eSection P path payload flags gcmNonce = some sect ∧
      cryptoAesEncrypt P path.e2eKey gcmNonce (innerBuffer flags payload)
        (payloadSectionSize - 2) = some ct ∧
      (sect.read 0 2).value = ct.1.length ∧
      (sect.toList.drop 2).take ct.1.length = ct.1 ∧
      sect.read (payloadSectionSize - sgHintBytes) sgHintBytes = path.sgHint := by
  have hinner := length_innerBuffer flags payload
  simp only [maxInnerPayload, innerHdrBytes] at hpayload hinner
  have hroom : (innerBuffer flags payload).length + gcmOverhead ≤ payloadSectionSize - 2 := by
    simp
    omega
  obtain ⟨ct, hct, hlen⟩ := cryptoAesEncrypt_of_fits P path.e2eKey gcmNonce _ _ hroom
  simp only [gcmOverhead] at hlen
  unfold e2eSection
  rw [hct]
  refine ⟨_, ct, rfl, rfl, ?_, ?_, Bytes.read_write_same _ _ _ _⟩
  · rw [Bytes.read_write_before _ _ (by simp), Bytes.read_write_same, value_bigEndian]
    norm_num
    omega
  · rw [← Bytes.toList_read _ _ _ (by simp; omega),
      Bytes.read_write_before _ _ (by simp; omega),
      Bytes.read_write_after _ _ (by simp), Bytes.read_write_same]
    rfl

/-- What is under the prefix of a packet section, decrypted with any key. -/
theorem cryptoAesDecrypt_section {path : SphinxPath} {payload : List UInt8} {flags : UInt8}
    {gcmNonce : Bytes gcmNonceLen} {sect : Bytes payloadSectionSize}
    (hpayload : payload.length ≤ maxInnerPayload)
    (hsect : e2eSection P path payload flags gcmNonce = some sect) :
    ∃ encLen, 2 + encLen ≤ payloadSectionSize ∧ (sect.read 0 2).value = encLen ∧
      encLen = payload.length + innerHdrBytes + gcmOverhead ∧ ∀ key,
      cryptoAesDecrypt P key ((sect.toList.drop 2).take encLen) payloadSectionSize
        = P.gcmOpen key gcmNonce (P.gcmSeal path.e2eKey gcmNonce (innerBuffer flags payload)).1
            (P.gcmSeal path.e2eKey gcmNonce (innerBuffer flags payload)).2 := by
  obtain ⟨sect', ct, hsect', hct, hinitial, hcipher, -⟩ :=
    e2eSection_fields P path payload flags gcmNonce hpayload
  obtain rfl : sect' = sect := Option.some.inj (hsect'.symm.trans hsect)
  have hlen := length_cryptoAesEncrypt P hct
  rw [length_innerBuffer] at hlen
  have hbound := ct.2
  refine ⟨ct.1.length, by simp at hbound ⊢; omega, hinitial, hlen, fun key => ?_⟩
  rw [hcipher]
  refine cryptoAesDecrypt_sealed P hct ?_ key
  rw [length_innerBuffer]
  simp at hpayload ⊢
  omega

theorem packetSphinxUnwrap_section {path : SphinxPath} {payload : List UInt8} {flags : UInt8}
    {gcmNonce : Bytes gcmNonceLen} {sect : Bytes payloadSectionSize} {pkt : WirePacket}
    (hpayload : payload.length ≤ maxInnerPayload)
    (hsect : e2eSection P path payload flags gcmNonce = some sect)
    (hpkt : pkt.read headerSize payloadSectionSize = sect) :
    packetSphinxUnwrap P pkt path.e2eKey = some (payload, flags) := by
  obtain ⟨encLen, hfits, hinitial, hlen, hopen⟩ := cryptoAesDecrypt_section P hpayload hsect
  have hplain := (hopen path.e2eKey).trans (P.gcmOpen_gcmSeal path.e2eKey gcmNonce _)
  unfold packetSphinxUnwrap
  simp only [hpkt, hinitial]
  rw [dif_neg (by simp at hlen hfits ⊢; omega), Bytes.toList_read, hpkt, hinitial, hplain]
  have hlen2 : valueList (bigEndianList 2 payload.length) = payload.length :=
    value_bigEndian (k := 2) (by simp at hpayload ⊢; omega)
  simp only [innerBuffer, bigEndian, bigEndianList, List.cons_append, List.nil_append] at hlen2 ⊢
  rw [hlen2, if_neg (by omega), if_neg (by omega), List.take_length]

/-- A key that does not open the ciphertext does not unwrap the packet. -/
theorem packetSphinxUnwrap_other {path : SphinxPath} {payload : List UInt8} {flags : UInt8}
    {gcmNonce : Bytes gcmNonceLen} {sect : Bytes payloadSectionSize} {pkt : WirePacket}
    (hpayload : payload.length ≤ maxInnerPayload)
    (hsect : e2eSection P path payload flags gcmNonce = some sect)
    (hpkt : pkt.read headerSize payloadSectionSize = sect) {key : AesKey}
    (hkey : P.gcmOpen key gcmNonce (P.gcmSeal path.e2eKey gcmNonce (innerBuffer flags payload)).1
      (P.gcmSeal path.e2eKey gcmNonce (innerBuffer flags payload)).2 = none) :
    packetSphinxUnwrap P pkt key = none := by
  obtain ⟨encLen, hfits, hinitial, hlen, hopen⟩ := cryptoAesDecrypt_section P hpayload hsect
  unfold packetSphinxUnwrap
  simp only [hpkt, hinitial]
  rw [dif_neg (by simp at hlen hfits ⊢; omega), Bytes.toList_read, hpkt, hinitial, hopen, hkey]

/-- Building a packet and peeling it with the three hops' keys in turn: every relay
reads its own next hop, flag and nonce and sees its own hint, and the gateway finds
its hint and unwraps the payload. -/
theorem sphinx_forward_round_trip (path : SphinxPath) (payload : List UInt8) (flags : UInt8)
    (pktCounter : Nat) (dropAtHop : Int) (rnd : SphinxRandom) (pad : Fin nPathHops → WirePacket)
    (hpayload : payload.length ≤ maxInnerPayload)
    (hdrop : dropAtHop ∈ ([-1, 0, 1, 2] : List Int)) :
    ∃ pkt : Fin (nPathHops + 1) → WirePacket, ∃ info : Fin nPathHops → HopInfo,
      packetSphinxBuildEx P path payload flags pktCounter dropAtHop rnd = some (pkt 0) ∧
      (∀ i : Fin nPathHops,
        packetSphinxPeel P (pkt i.castSucc) (path.hops i).headerEncKey
            (path.hops i).headerMacKey (pad i) = some (info i, pkt i.succ) ∧
        outerHint (pkt i.castSucc) = packetDeriveHopHint P (path.hops i).hintSeed pktCounter ∧
        (info i).nextIp = localhostBytes ∧
        (info i).nextPort
          = (if h : i.val + 1 < nPathHops then path.hopPorts ⟨i.val + 1, h⟩
             else if path.sgPort = 0 then portServiceGw else path.sgPort) ∧
        (info i).hopFlag
          = (if (i.val : Int) = dropAtHop then hopDropMarker else hopFlagForward) ∧
        (info i).blindKey = (path.hops i).blindKey ∧
        (info i).nonce = rnd.hopNonce i) ∧
      (pkt 3).read (wirePacketSize - sgHintBytes) sgHintBytes = path.sgHint ∧
      packetSphinxUnwrap P (pkt 3) path.e2eKey = some (payload, flags) := by
  have hrange : -1 ≤ dropAtHop ∧ dropAtHop < nPathHops := by
    simp at hdrop ⊢
    omega
  obtain ⟨sect, ct, hsect, -, -, -, hhint⟩ :=
    e2eSection_fields P path payload flags rnd.gcmNonce hpayload
  obtain ⟨p₀, hbuild, c₀⟩ :=
    carries_build P pktCounter path payload flags dropAtHop rnd sect hrange hpayload hsect
  obtain ⟨p₁, hpeel₀, c₁⟩ := c₀.peel P pktCounter path dropAtHop rnd sect (by simp) (pad 0)
  obtain ⟨p₂, hpeel₁, c₂⟩ := c₁.peel P pktCounter path dropAtHop rnd sect (by simp) (pad 1)
  obtain ⟨p₃, hpeel₂, c₃⟩ := c₂.peel P pktCounter path dropAtHop rnd sect (by simp) (pad 2)
  have hfinal : p₃.read headerSize payloadSectionSize = sect := c₃.2
  refine ⟨![p₀, p₁, p₂, p₃], pathHopInfo path dropAtHop rnd, hbuild, ?_, ?_, ?_⟩
  · intro i
    rcases hop_cases i with rfl | rfl | rfl
    · exact ⟨hpeel₀, c₀.outerHint P pktCounter path dropAtHop rnd sect, rfl, rfl, rfl, rfl, rfl⟩
    · exact ⟨hpeel₁, c₁.outerHint P pktCounter path dropAtHop rnd sect, rfl, rfl, rfl, rfl, rfl⟩
    · exact ⟨hpeel₂, c₂.outerHint P pktCounter path dropAtHop rnd sect, rfl, rfl, rfl, rfl, rfl⟩
  · have htail := Bytes.read_within hfinal (payloadSectionSize - sgHintBytes) sgHintBytes
      (by decide)
    exact htail.trans hhint
  · exact packetSphinxUnwrap_section P hpayload hsect hfinal

theorem sphinx_forward_round_trip_sample :
    ∃ pkt : Fin (nPathHops + 1) → WirePacket,
      packetSphinxBuildEx .sample .sample [1, 2, 3] pktReal 5 1 (.sample 0) = some (pkt 0) ∧
      outerHint (pkt 2) = packetDeriveHopHint .sample (deriveHop .sample (sampleMaster 2)).hintSeed 5 ∧
      packetSphinxUnwrap .sample (pkt 3) SphinxPath.sample.e2eKey = some ([1, 2, 3], pktReal) := by
  obtain ⟨pkt, _, hbuild, hpeel, -, hunwrap⟩ :=
    sphinx_forward_round_trip .sample .sample [1, 2, 3] pktReal 5 1 (.sample 0)
      (fun _ => Bytes.zero _) (by decide) (by decide)
  exact ⟨pkt, hbuild, (hpeel 2).2.1, hunwrap⟩

end AnonSecNet
