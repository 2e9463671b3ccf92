import AnonSecNet.Packet.ForwardRoundTrip
import AnonSecNet.Tor.Packet

/-! Three relays of the Tor baseline peel the blocks that were built for them. The gateway has to
find the end of the ciphertext before it can unwrap the payload. -/
namespace AnonSecNet.Tor.Sphinx
open Octets
variable (P : Primitives)

/-! What one hop reads from its own block. -/

theorem decodeHop_restPlain (port : UInt16) (blindKey : AesKey) (flag : UInt8) :
    decodeHop (restPlain port blindKey flag) = (⟨localhostBytes, port, blindKey⟩, flag) := by
  have h := AnonSecNet.decodeHop_restPlain ⟨default, default, blindKey, default⟩ port flag default
  have hip := congrArg AnonSecNet.HopInfo.nextIp h
  have hport := congrArg AnonSecNet.HopInfo.nextPort h
  have hkey := congrArg AnonSecNet.HopInfo.blindKey h
  have hflag := congrArg AnonSecNet.HopInfo.hopFlag h
  exact Prod.ext (HopInfo.ext hip hport hkey) hflag

section
variable (hop : HopSession) (port : UInt16) (flag : UInt8)

theorem headerBlock_combined :
    (headerBlock P hop port flag).read 0 combinedSize = combinedEnc P hop port flag := by
  unfold headerBlock
  rw [Bytes.read_append_left (h := by decide)]
  exact Bytes.read_append_fst _ _

theorem headerBlock_mac :
    (headerBlock P hop port flag).read combinedSize macBytes
      = packetHmac P hop.headerMacKey.toList (combinedEnc P hop port flag).toList := by
  unfold headerBlock
  rw [Bytes.read_append_left (h := by decide)]
  exact Bytes.read_append_snd _ _

/-- One peel: the block at the front is consumed, its layer of blinding comes off and the blocks
behind it move to the front. -/
theorem packetSphinxPeel_headerBlock {pkt : WirePacket} {sect : Bytes payloadSectionSize}
    {l : List UInt8} (hl : l.length ≤ headerSize - headerBlockSize)
    (hfront : (headerBlock P hop port flag).toList ++ l <+: pkt.toList)
    (hsect : pkt.read headerSize payloadSectionSize section_within
      = packetAesCtrXor P hop.blindKey sect section_le) :
    ∃ out, packetSphinxPeel P pkt hop.headerEncKey hop.headerMacKey
        = some (⟨localhostBytes, port, hop.blindKey⟩, flag, out) ∧
      l <+: out.toList ∧ out.read headerSize payloadSectionSize section_within = sect := by
  have hblock := Bytes.read_of_leading hfront (by decide)
  have hcombined := Bytes.read_within hblock 0 combinedSize (by decide)
  have hmac := Bytes.read_within hblock combinedSize macBytes (by decide)
  simp only [Nat.zero_add] at hcombined hmac
  rw [headerBlock_combined] at hcombined
  rw [headerBlock_mac] at hmac
  have hplain : packetAesCtrXor P hop.headerEncKey (combinedEnc P hop port flag) combined_le
      = restPlain port hop.blindKey flag :=
    packetAesCtrXor_twice P _ _ combined_le combined_le
  unfold packetSphinxPeel
  simp only [hcombined, hmac]
  rw [if_neg (by simp), hplain, decodeHop_restPlain]
  refine ⟨_, rfl, ?_, ?_⟩
  · have hshift := Bytes.leading_of_read hfront (k := headerSize - headerBlockSize) (by decide) hl
    exact Bytes.leading_write_after (Bytes.leading_write hshift remaining_le) section_within
      (by simp at hl ⊢; omega)
  · rw [Bytes.read_write_same, hsect]
    exact packetAesCtrXor_twice P _ _ section_le section_le

end

/-! The whole path. -/

/-- What a packet holds while `hops` are still ahead of it: their blocks at the front and their
layers of blinding on the payload. -/
def Carries (path : SphinxPath) (isCover : UInt8) (sect : Bytes payloadSectionSize)
    (hops : List (Fin nPathHops)) (pkt : WirePacket) : Prop :=
  (hops.flatMap fun i => (pathBlock P path isCover i).toList) <+: pkt.toList ∧
    pkt.read headerSize payloadSectionSize section_within = blindPayload P path hops sect

def pathHopInfo (path : SphinxPath) (i : Fin nPathHops) : HopInfo :=
  ⟨localhostBytes, nextHopPort path i, (path.hops i).blindKey⟩

section
variable (path : SphinxPath) (isCover : UInt8) {payload : List UInt8} {flags : UInt8}
  {gcmNonce : Bytes gcmNonceLen} {sect : Bytes payloadSectionSize}

/-- One relay of the path. -/
theorem Carries.peel {i : Fin nPathHops} {hops : List (Fin nPathHops)} {pkt : WirePacket}
    (h : Carries P path isCover sect (i :: hops) pkt) (hlen : hops.length < nPathHops) :
    ∃ out, packetSphinxPeel P pkt (path.hops i).headerEncKey (path.hops i).headerMacKey
        = some (pathHopInfo path i, flagOf isCover i, out) ∧
      Carries P path isCover sect hops out := by
  have hroom := Bytes.length_stacked (pathBlock P path isCover) hops
  obtain ⟨out, hpeel, hfront, hsect⟩ := packetSphinxPeel_headerBlock P (path.hops i)
    (nextHopPort path i) (flagOf isCover i)
    (l := hops.flatMap fun i => (pathBlock P path isCover i).toList)
    (by rw [hroom]; simp at hlen ⊢; omega) h.1 h.2
  exact ⟨out, hpeel, hfront, hsect⟩

theorem carries_build (hpayload : payload.length ≤ maxInnerPayload)
    (hsect : e2eSection P path payload flags gcmNonce = some sect) :
    ∃ pkt, packetSphinxBuild P path payload flags isCover gcmNonce = some pkt ∧
      Carries P path isCover sect (List.finRange nPathHops) pkt := by
  unfold packetSphinxBuild
  rw [if_neg (by omega), hsect]
  have hfin : List.finRange nPathHops = [0, 1, 2] := rfl
  refine ⟨_, rfl, ?_, ?_⟩
  · have hheader : ∀ a b c : Bytes headerBlockSize,
        ((a ++ b ++ c : Bytes headerSize) ++ blindPayload P path [0, 1, 2] sect).toList
          = a.toList ++ b.toList ++ c.toList ++ (blindPayload P path [0, 1, 2] sect).toList :=
      fun _ _ _ => rfl
    rw [hfin]
    simp [hheader]
  · exact Bytes.read_append_snd _ _

end

/-! The end of the ciphertext. -/

theorem trimZeros_le (ct : List UInt8) (trim : Nat) : trimZeros ct trim ≤ trim := by
  induction trim with
  | zero => exact Nat.le_refl 0
  | succ trim ih =>
    unfold trimZeros
    split
    · omega
    · exact Nat.le_refl _

theorem trimZeros_of_stop {ct : List UInt8} {trim : Nat}
    (h : trim + 1 ≤ gcmOverhead + 3 ∨ ct[trim]? ≠ some 0) :
    trimZeros ct (trim + 1) = trim + 1 := by
  unfold trimZeros
  rw [if_neg]
  intro hgo
  cases h with
  | inl hle => exact absurd hgo.1 (Nat.not_lt.mpr hle)
  | inr hne => exact hne hgo.2

/-- The zeros behind `c` are skipped. -/
theorem trimZeros_padded {c : List UInt8} (hlen : gcmOverhead + 3 ≤ c.length) (k : Nat) {n : Nat}
    (hn : n ≤ k) : trimZeros (c ++ List.replicate k 0) (c.length + n)
      = trimZeros (c ++ List.replicate k 0) c.length := by
  induction n with
  | zero => rfl
  | succ n ih =>
    have hzero : (c ++ List.replicate k (0 : UInt8))[c.length + n]? = some 0 := by
      rw [List.getElem?_append_right (by omega), Nat.add_sub_cancel_left,
        List.getElem?_replicate_of_lt (by omega)]
    rw [← Nat.add_assoc, trimZeros, if_pos ⟨by omega, hzero⟩]
    exact ih (by omega)

theorem trimZeros_padded_le {c : List UInt8} (hlen : gcmOverhead + 3 ≤ c.length) (k : Nat) :
    trimZeros (c ++ List.replicate k 0) (c ++ List.replicate k 0).length ≤ c.length := by
  rw [List.length_append, List.length_replicate, trimZeros_padded hlen k (Nat.le_refl k)]
  exact trimZeros_le _ _

/-- The scan finds the end of a padded ciphertext exactly if that is as short as one can be or
does not end in a zero. -/
theorem trimZeros_eq_iff {c : List UInt8} (hlen : gcmOverhead + 3 ≤ c.length) (k : Nat) :
    trimZeros (c ++ List.replicate k 0) (c ++ List.replicate k 0).length = c.length ↔
      c.length = gcmOverhead + 3 ∨ c.getLast? ≠ some 0 := by
  rw [List.length_append, List.length_replicate, trimZeros_padded hlen k (Nat.le_refl k)]
  obtain ⟨m, hm⟩ := Nat.exists_eq_succ_of_ne_zero (n := c.length) (by omega)
  have hlast : (c ++ List.replicate k (0 : UInt8))[m]? = c.getLast? := by
    rw [List.getElem?_append_left (by omega), List.getLast?_eq_getElem?, hm, Nat.succ_sub_one]
  constructor
  · intro heq
    by_contra hnot
    obtain ⟨hlong, hzero⟩ := not_or.mp hnot
    have hle := trimZeros_le (c ++ List.replicate k 0) m
    rw [hm, trimZeros, if_pos ⟨by omega, hlast.trans (not_not.mp hzero)⟩] at heq
    omega
  · intro h
    rw [hm]
    apply trimZeros_of_stop
    cases h with
    | inl hshort => exact .inl (by omega)
    | inr hne => exact .inr (hlast ▸ hne)

/-! Opening the section. -/

section
variable {key : AesKey} {nonce : Bytes gcmNonceLen} {m : List UInt8}
  {c : { c : List UInt8 // c.length ≤ payloadSectionSize }}

theorem tagEnd_lt : 15 < gcmTagLen := by decide

theorem getLast?_cryptoAesEncrypt (h : cryptoAesEncrypt P key nonce m payloadSectionSize = some c) :
    c.1.getLast? = some ((P.gcmSeal key nonce m).2.byte 15 tagEnd_lt) := by
  rw [cryptoAesEncrypt_eq_some P h, List.getLast?_append]
  have hlast : (P.gcmSeal key nonce m).2.toList.getLast?
      = some ((P.gcmSeal key nonce m).2.byte 15 tagEnd_lt) := by
    rw [List.getLast?_eq_getElem?, Bytes.length_eq]
    exact List.getElem?_eq_getElem (by simp)
  rw [hlast]
  rfl

/-- A ciphertext behind which zeros were put is opened to a text that starts with the sealed one
exactly if the whole is, or the whole is rejected and the scan finds the end. -/
theorem openSection_iff (hm : innerHdrBytes ≤ m.length)
    (h : cryptoAesEncrypt P key nonce m payloadSectionSize = some c) :
    (∃ plain, openSection P key (Bytes.fit payloadSectionSize c.1).toList = some plain ∧
        m <+: plain) ↔
      match cryptoAesDecrypt P key (Bytes.fit payloadSectionSize c.1).toList payloadSectionSize with
      | some plain => m <+: plain
      | none => m.length = innerHdrBytes ∨ (P.gcmSeal key nonce m).2.byte 15 tagEnd_lt ≠ 0 := by
  have hlen : c.1.length = m.length + 28 := length_cryptoAesEncrypt P h
  have hle := c.2
  unfold openSection
  cases hwhole : cryptoAesDecrypt P key (Bytes.fit payloadSectionSize c.1).toList
      payloadSectionSize with
  | some plain => simp
  | none =>
    dsimp only
    rw [Bytes.toList_fit_padded hle]
    have hscan := trimZeros_eq_iff (c := c.1) (by simp at hm ⊢; omega)
      (payloadSectionSize - c.1.length)
    rw [getLast?_cryptoAesEncrypt P h, ne_eq, Option.some_inj] at hscan
    have hshort : c.1.length = gcmOverhead + 3 ↔ m.length = innerHdrBytes := by
      simp
      omega
    rw [← hshort, ne_eq, ← hscan]
    have hinverts : cryptoAesDecrypt P key c.1 payloadSectionSize = some m :=
      cryptoAesDecrypt_encrypt P h (by omega)
    constructor
    · rintro ⟨plain, hplain, hprefix⟩
      -- a scan that went too far leaves no room for the sealed text
      have hopened := length_cryptoAesDecrypt P hplain
      have hroom := hprefix.length_le
      have hend := trimZeros_padded_le (c := c.1) (by simp at hm ⊢; omega)
        (payloadSectionSize - c.1.length)
      rw [List.length_take] at hopened
      by_contra hne
      have hlong : c.1.length ≠ gcmOverhead + 3 := fun hshort => hne (hscan.mpr (.inl hshort))
      simp only [gcmOverhead, innerHdrBytes] at hm hopened hlong hne hend
      omega
    · intro heq
      rw [heq, max_eq_left (by simp at hm ⊢; omega), List.take_left' rfl]
      exact ⟨m, hinverts, List.prefix_refl m⟩

end

/-! What is read from the plaintext. -/

theorem innerBuffer_eq (flags : UInt8) (payload : List UInt8) :
    innerBuffer flags payload = flags :: (bigEndianList 2 payload.length ++ payload) := rfl

theorem readInner_eq_some_iff {payload : List UInt8} (hpayload : payload.length ≤ maxInnerPayload)
    {plain : List UInt8} {flags : UInt8} :
    readInner plain = some (payload, flags) ↔ innerBuffer flags payload <+: plain := by
  rw [innerBuffer_eq]
  constructor
  · intro h
    unfold readInner at h
    split at h
    · rename_i first hi lo rest
      dsimp only at h
      split at h
      · cases h
      · rename_i hrest
        split at h
        · cases h
        · obtain ⟨rfl, rfl⟩ := Prod.mk.inj (Option.some.inj h)
          have hlen : (rest.take (valueList [hi, lo])).length = valueList [hi, lo] := by
            rw [List.length_take]
            omega
          have hfield : bigEndianList 2 (valueList [hi, lo]) = [hi, lo] :=
            bigEndianList_valueList [hi, lo]
          rw [hlen, hfield, List.cons_prefix_cons]
          exact ⟨rfl, (List.prefix_append_right_inj [hi, lo]).mpr (List.take_prefix _ rest)⟩
    · cases h
  · rintro ⟨tail, rfl⟩
    have hvalue : valueList (bigEndianList 2 payload.length) = payload.length := by
      rw [valueList_bigEndianList, Nat.mod_eq_of_lt (by simp at hpayload ⊢; omega)]
    have hlow : ¬ (payload ++ tail).length < payload.length := by simp
    simp only [bigEndianList, List.cons_append, List.nil_append] at hvalue ⊢
    unfold readInner
    simp only [hvalue]
    rw [if_neg hlow, if_neg (by omega), List.take_left' rfl]

/-! From the client to the gateway. -/

/-- A packet is built, every relay of the path peels it and learns the port of the next hop, and
the gateway unwraps the payload and the flags. -/
def RoundTrips (path : SphinxPath) (payload : List UInt8) (flags isCover : UInt8)
    (gcmNonce : Bytes gcmNonceLen) : Prop :=
  ∃ pkt : Fin (nPathHops + 1) → WirePacket, ∃ info : Fin nPathHops → HopInfo,
    packetSphinxBuild P path payload flags isCover gcmNonce = some (pkt 0) ∧
    (∀ i : Fin nPathHops,
      packetSphinxPeel P (pkt i.castSucc) (path.hops i).headerEncKey (path.hops i).headerMacKey
        = some (info i, flagOf isCover i, pkt i.succ) ∧
      (info i).nextPort
        = (if h : i.val + 1 < nPathHops then path.hopPorts ⟨i.val + 1, h⟩
           else if path.sgPort = 0 then portServiceGw else path.sgPort)) ∧
    packetSphinxUnwrap P (pkt (Fin.last nPathHops)) path.e2eKey = some (payload, flags)

/-- The section with the output of GCM at its front. -/
def paddedSeal (key : AesKey) (nonce : Bytes gcmNonceLen) (inner : List UInt8) :
    Bytes payloadSectionSize :=
  Bytes.fit payloadSectionSize
    (nonce.toList ++ (P.gcmSeal key nonce inner).1 ++ (P.gcmSeal key nonce inner).2.toList)

/-- GCM rejects the section with its zeros and the ciphertext is a shortest one or does not end in
a zero; or GCM accepts the section, as what starts with the sealed buffer. -/
def EndFound (path : SphinxPath) (payload : List UInt8) (flags : UInt8)
    (gcmNonce : Bytes gcmNonceLen) : Prop :=
  match cryptoAesDecrypt P path.e2eKey
      (paddedSeal P path.e2eKey gcmNonce (innerBuffer flags payload)).toList
      payloadSectionSize with
  | some plain => innerBuffer flags payload <+: plain
  | none =>
    payload = [] ∨
      (P.gcmSeal path.e2eKey gcmNonce (innerBuffer flags payload)).2.byte 15 tagEnd_lt ≠ 0

instance (path : SphinxPath) (payload : List UInt8) (flags : UInt8)
    (gcmNonce : Bytes gcmNonceLen) : Decidable (EndFound P path payload flags gcmNonce) :=
  match h : cryptoAesDecrypt P path.e2eKey
      (paddedSeal P path.e2eKey gcmNonce (innerBuffer flags payload)).toList
      payloadSectionSize with
  | some plain =>
    decidable_of_iff (innerBuffer flags payload <+: plain) (by unfold EndFound; rw [h])
  | none =>
    decidable_of_iff (payload = [] ∨
        (P.gcmSeal path.e2eKey gcmNonce (innerBuffer flags payload)).2.byte 15 tagEnd_lt ≠ 0)
      (by unfold EndFound; rw [h])

section
variable (path : SphinxPath) {payload : List UInt8} (flags isCover : UInt8)
  (gcmNonce : Bytes gcmNonceLen)

/-- The packets of a path, up to the section that the gateway receives. -/
theorem exists_run (hpayload : payload.length ≤ maxInnerPayload) :
    ∃ ct p₀ p₁ p₂ p₃,
      cryptoAesEncrypt P path.e2eKey gcmNonce (innerBuffer flags payload) payloadSectionSize
        = some ct ∧
      packetSphinxBuild P path payload flags isCover gcmNonce = some p₀ ∧
      (∀ i : Fin nPathHops,
        packetSphinxPeel P (![p₀, p₁, p₂, p₃] i.castSucc) (path.hops i).headerEncKey
            (path.hops i).headerMacKey
          = some (pathHopInfo path i, flagOf isCover i, ![p₀, p₁, p₂, p₃] i.succ)) ∧
      p₃.read headerSize payloadSectionSize section_within = Bytes.fit payloadSectionSize ct.1 := by
  have hinner := length_innerBuffer flags payload
  obtain ⟨ct, hct, -⟩ := cryptoAesEncrypt_of_fits P path.e2eKey gcmNonce
    (innerBuffer flags payload) payloadSectionSize (by simp at hpayload hinner ⊢; omega)
  have hsect : e2eSection P path payload flags gcmNonce
      = some (Bytes.fit payloadSectionSize ct.1) := by
    unfold e2eSection
    rw [hct, Option.map_some]
  obtain ⟨p₀, hbuild, c₀⟩ := carries_build P path isCover hpayload hsect
  obtain ⟨p₁, hpeel₀, c₁⟩ := c₀.peel P path isCover (by simp)
  obtain ⟨p₂, hpeel₁, c₂⟩ := c₁.peel P path isCover (by simp)
  obtain ⟨p₃, hpeel₂, c₃⟩ := c₂.peel P path isCover (by simp)
  refine ⟨ct, p₀, p₁, p₂, p₃, hct, hbuild, ?_, c₃.2⟩
  intro i
  obtain rfl | rfl | rfl := hop_cases i
  · exact hpeel₀
  · exact hpeel₁
  · exact hpeel₂

variable {path flags gcmNonce}

/-- There is one packet on each link. -/
theorem roundTrips_iff_unwrap {isCover : UInt8} {p₀ p₁ p₂ p₃ : WirePacket}
    (hbuild : packetSphinxBuild P path payload flags isCover gcmNonce = some p₀)
    (hpeel : ∀ i : Fin nPathHops,
      packetSphinxPeel P (![p₀, p₁, p₂, p₃] i.castSucc) (path.hops i).headerEncKey
          (path.hops i).headerMacKey
        = some (pathHopInfo path i, flagOf isCover i, ![p₀, p₁, p₂, p₃] i.succ)) :
    RoundTrips P path payload flags isCover gcmNonce ↔
      packetSphinxUnwrap P p₃ path.e2eKey = some (payload, flags) := by
  constructor
  · rintro ⟨pkt, info, hbuild', hpeel', hunwrap⟩
    have hsame : ∀ i, pkt i = ![p₀, p₁, p₂, p₃] i := by
      intro i
      induction i using Fin.induction with
      | zero => exact Option.some.inj (hbuild'.symm.trans hbuild)
      | succ i ih =>
        have hnext := (hpeel' i).1
        rw [ih, hpeel i] at hnext
        exact (Prod.mk.inj (Prod.mk.inj (Option.some.inj hnext)).2).2.symm
    rw [hsame (Fin.last nPathHops)] at hunwrap
    exact hunwrap
  · intro hunwrap
    exact ⟨![p₀, p₁, p₂, p₃], pathHopInfo path, hbuild, fun i => ⟨hpeel i, rfl⟩, hunwrap⟩

theorem packetSphinxUnwrap_iff (hpayload : payload.length ≤ maxInnerPayload)
    {ct : { c : List UInt8 // c.length ≤ payloadSectionSize }}
    (hct : cryptoAesEncrypt P path.e2eKey gcmNonce (innerBuffer flags payload) payloadSectionSize
      = some ct) {pkt : WirePacket}
    (hpkt : pkt.read headerSize payloadSectionSize section_within
      = Bytes.fit payloadSectionSize ct.1) :
    packetSphinxUnwrap P pkt path.e2eKey = some (payload, flags) ↔
      EndFound P path payload flags gcmNonce := by
  have hinner := length_innerBuffer flags payload
  have hempty : (innerBuffer flags payload).length = innerHdrBytes ↔ payload = [] := by
    rw [hinner, ← List.length_eq_zero_iff]
    omega
  have hopen := openSection_iff P (by omega) hct
  unfold packetSphinxUnwrap EndFound paddedSeal
  rw [hpkt, Option.bind_eq_some_iff]
  simp only [readInner_eq_some_iff hpayload]
  rw [hopen, cryptoAesEncrypt_eq_some P hct, hempty]

end

/-- A path brings the payload back exactly if the gateway finds the end of the ciphertext. -/
theorem sphinx_round_trip_iff (path : SphinxPath) (payload : List UInt8) (flags isCover : UInt8)
    (gcmNonce : Bytes gcmNonceLen) (hpayload : payload.length ≤ maxInnerPayload) :
    RoundTrips P path payload flags isCover gcmNonce ↔
      EndFound P path payload flags gcmNonce := by
  obtain ⟨ct, p₀, p₁, p₂, p₃, hct, hbuild, hpeel, hpkt⟩ :=
    exists_run P path flags isCover gcmNonce hpayload
  rw [roundTrips_iff_unwrap P hbuild hpeel]
  exact packetSphinxUnwrap_iff P hpayload hct hpkt

/-! A tag that ends in a zero, and one that does not. -/

def SphinxPath.sample (e2eKey : AesKey) : SphinxPath where
  hops i := ⟨sampleMaster i, sampleMaster (i + 3), sampleMaster (i + 6), Bytes.zero hintBytes⟩
  e2eKey := e2eKey
  hopPorts i := UInt16.ofNat (9004 + i)
  sgPort := 0

/-- The tag under this key is sixteen bytes 7. -/
def sevensKey : AesKey := Bytes.fit aesKeyLen (List.replicate 16 7)

theorem not_endFound_sampleMaster :
    ¬ EndFound .sample (.sample (sampleMaster 3)) [1, 2, 3] pktReal (Bytes.zero gcmNonceLen) := by
  decide +kernel

theorem zero_tag_loses_payload :
    ¬ RoundTrips .sample (.sample (sampleMaster 3)) [1, 2, 3] pktReal 0
      (Bytes.zero gcmNonceLen) := by
  have hpayload : ([1, 2, 3] : List UInt8).length ≤ maxInnerPayload := by decide
  obtain ⟨ct, p₀, p₁, p₂, p₃, hct, hbuild, hpeel, hpkt⟩ := exists_run .sample
    (.sample (sampleMaster 3)) pktReal 0 (Bytes.zero gcmNonceLen) hpayload
  rw [roundTrips_iff_unwrap .sample hbuild hpeel, packetSphinxUnwrap_iff .sample hpayload hct hpkt]
  exact not_endFound_sampleMaster

theorem sphinx_round_trip_iff_sevensKey :
    RoundTrips .sample (.sample sevensKey) [1, 2, 3] pktReal 0 (Bytes.zero gcmNonceLen) := by
  have hpayload : ([1, 2, 3] : List UInt8).length ≤ maxInnerPayload := by decide
  rw [sphinx_round_trip_iff .sample (.sample sevensKey) [1, 2, 3] pktReal 0
    (Bytes.zero gcmNonceLen) hpayload]
  decide +kernel

end AnonSecNet.Tor.Sphinx
