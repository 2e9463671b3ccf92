import AnonSecNet.MixNode.Derivation

/-! Packets assembled from bytes of observed packets: the MAC of a header block does not
cover the hint behind it. -/
namespace AnonSecNet.MixNode
open Octets
variable (P : Primitives)

/-! What an adversary can assemble. -/

/-- The header blocks the client built for one hop: which counters it used, and what it
wrote with each. -/
structure ClientBlocks where
  used : Nat → Prop
  dropAtHop : Nat → Int
  rnd : Nat → SphinxRandom

section
variable (path : SphinxPath) (i : Fin nPathHops) (client : ClientBlocks)

def ClientBlocks.block (c : Nat) : Bytes headerBlockSize :=
  pathBlock P path c (client.dropAtHop c) (client.rnd c) i

/-- The bytes before the hint: the encrypted fields and their MAC. -/
def ClientBlocks.front (c : Nat) : Bytes 63 := (client.block P path i c).read 0 63

/-- HMAC is unforgeable: bytes under a valid MAC come from a block of the client, and so
does every hint of the session. Apart from that the packet is arbitrary. -/
structure Assembled (wire : WirePacket) : Prop where
  mac : packetHmac P (path.hops i).headerMacKey.toList (wire.read 0 47).toList
      = wire.read 47 macBytes →
    ∃ k, client.used k ∧ wire.read 0 47 = (client.block P path i k).read 0 47
  hint : ∀ c, c < 2 ^ 64 → outerHint wire = packetDeriveHopHint P (path.hops i).hintSeed c →
    client.used c

/-- Whenever the lookup leads to a session of the client at counter `c` and the MAC check
succeeds, the block was built with counter `c`. -/
def HintAuthentic (t : Table) (wire : WirePacket) : Prop :=
  ∀ f pad, firstFound t (outerHint wire) = some f →
    (t f.idx).hintSeed = (path.hops i).hintSeed →
    (packetSphinxPeel P wire f.keys.headerEncKey f.keys.headerMacKey pad).isSome →
    client.used ((t f.idx).matchedAbs f.domain f.windowIdx) ∧
      wire.read 0 63 = client.front P path i ((t f.idx).matchedAbs f.domain f.windowIdx)

/-- The packet joins the front of one block with the hint of another one: a counter in a
window of the session. -/
def Spliced (t : Table) (wire : WirePacket) : Prop :=
  ∃ (j : Fin maxSessions) (d : Domain) (w : Fin hintWindow) (k : Nat),
    (t j).inUse = true ∧ (t j).hintSeed = (path.hops i).hintSeed ∧
    outerHint wire = packetDeriveHopHint P (path.hops i).hintSeed ((t j).matchedAbs d w) ∧
    client.used k ∧ wire.read 0 63 = client.front P path i k ∧
    client.front P path i k ≠ client.front P path i ((t j).matchedAbs d w)

theorem packetSphinxPeel_isSome (wire pad : WirePacket) (encKey macKey : AesKey) :
    (packetSphinxPeel P wire encKey macKey pad).isSome ↔
      packetHmac P macKey.toList (wire.read 0 47).toList = wire.read 47 macBytes := by
  unfold packetSphinxPeel
  split
  · rename_i h
    exact iff_of_false (by simp) h
  · rename_i h
    exact iff_of_true rfl (not_not.mp h)

variable {path i client}

theorem front_eq_iff {wire : WirePacket} {c : Nat} :
    wire.read 0 63 = client.front P path i c ↔
      wire.read 0 47 = (client.block P path i c).read 0 47 ∧
        wire.read 47 macBytes = (client.block P path i c).read 47 macBytes :=
  Bytes.read_eq_read_iff 47 16 (by decide) (by decide)

/-- The front of a client's block passes the MAC check of its hop. -/
theorem mac_of_front {wire : WirePacket} {k : Nat}
    (h : wire.read 0 63 = client.front P path i k) :
    packetHmac P (path.hops i).headerMacKey.toList (wire.read 0 47).toList
      = wire.read 47 macBytes := by
  obtain ⟨hcovered, hmac⟩ := (front_eq_iff P).mp h
  rw [hmac, hcovered]
  exact (headerBlock_mac P _ _ _ _ _).symm

theorem front_of_mac {wire : WirePacket} {k : Nat}
    (hmac : packetHmac P (path.hops i).headerMacKey.toList (wire.read 0 47).toList
      = wire.read 47 macBytes)
    (h : wire.read 0 47 = (client.block P path i k).read 0 47) :
    wire.read 0 63 = client.front P path i k := by
  refine (front_eq_iff P).mpr ⟨h, ?_⟩
  rw [← hmac, h]
  exact (headerBlock_mac P _ _ _ _ _).symm

section
variable {S : AesKey → Prop} (hideal : HintsDistinct P S) {master : AesKey} (hS : S master)
  (hhop : path.hops i = deriveHop P master)
include hideal hS hhop

/-- A session with the client's hint seed has its keys. -/
theorem keys_of_seed {sess : SessionEntry} (h : Derived P S sess)
    (hseed : sess.hintSeed = (path.hops i).hintSeed) :
    sess.headerEncKey = (path.hops i).headerEncKey ∧
      sess.headerMacKey = (path.hops i).headerMacKey := by
  obtain ⟨master', hS', hseed', hall, -⟩ := h
  have hsame : packetDeriveHintSeed P master' = packetDeriveHintSeed P master := by
    rw [← hseed', hseed, hhop]
    rfl
  obtain ⟨rfl, -⟩ := hideal master' master hS' hS 0 0 (by norm_num) (by norm_num) (by rw [hsame])
  rw [hhop]
  exact ⟨congrArg Prod.fst hall, congrArg (fun k => k.2.1) hall⟩

/-- Whatever slot the lookup of a client's hint leads to holds a session of the client. -/
theorem found_of_hint {t : Table} (ok : TableDerived P S t) {f : Found} {hint : Hint} {c : Nat}
    (hc : c < 2 ^ 64) (hf : firstFound t hint = some f)
    (hhint : hint = packetDeriveHopHint P (path.hops i).hintSeed c) :
    (t f.idx).hintSeed = (path.hops i).hintSeed ∧
      (t f.idx).matchedAbs f.domain f.windowIdx = c := by
  obtain ⟨j, hj, -⟩ := firstFound_eq_some hf
  obtain ⟨rfl, huse, hwin, -⟩ := foundAt_eq_some hj
  obtain ⟨master', hS', hseed', -⟩ := ok f.idx huse
  have hown : (path.hops i).hintSeed = packetDeriveHintSeed P master := by
    rw [hhop]
    rfl
  rw [(ok f.idx huse).hint_eq P, hhint, hseed', hown] at hwin
  obtain ⟨rfl, hcounter⟩ := hideal master' master hS' hS _ _ (Nat.mod_lt _ (by norm_num)) hc hwin
  exact ⟨by rw [hseed', hown], hcounter⟩

theorem authentic_iff_not_spliced {t : Table} (ok : TableDerived P S t) {wire : WirePacket}
    (hasm : Assembled P path i client wire) :
    HintAuthentic P path i client t wire ↔ ¬ Spliced P path i client t wire := by
  constructor
  · rintro hauth ⟨j, d, w, k, huse, hseed, hhint, hused, hfront, hne⟩
    have hc : (t j).matchedAbs d w < 2 ^ 64 := Nat.mod_lt _ (by norm_num)
    have hwin : (t j).hintWindow d w = outerHint wire := by
      rw [(ok j huse).hint_eq P, hseed, hhint]
    have hj : (foundAt t (outerHint wire) j).isSome := by
      rw [foundAt, if_pos huse, Option.isSome_map]
      exact matchHint_isSome hwin
    obtain ⟨f, hf⟩ := Option.isSome_iff_exists.mp (firstFound_isSome hj)
    obtain ⟨hfseed, hcounter⟩ := found_of_hint P hideal hS hhop ok hc hf hhint
    obtain ⟨l, hl, -⟩ := firstFound_eq_some hf
    obtain ⟨hfl, hfuse, -, hkeys, -⟩ := foundAt_eq_some hl
    subst hfl
    obtain ⟨-, hmac⟩ := keys_of_seed P hideal hS hhop (ok f.idx hfuse) hfseed
    have hpeel : (packetSphinxPeel P wire f.keys.headerEncKey f.keys.headerMacKey
        (Bytes.zero _)).isSome := by
      rw [packetSphinxPeel_isSome, hkeys]
      change packetHmac P (t f.idx).headerMacKey.toList _ = _
      rw [hmac]
      exact mac_of_front P hfront
    obtain ⟨-, hown⟩ := hauth f _ hf hfseed hpeel
    rw [hcounter, hfront] at hown
    exact hne hown
  · intro hno f pad hf hseed hpeel
    obtain ⟨l, hl, -⟩ := firstFound_eq_some hf
    obtain ⟨hfl, huse, hwin, hkeys, -⟩ := foundAt_eq_some hl
    subst hfl
    have hhint : outerHint wire = packetDeriveHopHint P (path.hops i).hintSeed
        ((t f.idx).matchedAbs f.domain f.windowIdx) := by
      rw [← hwin, (ok f.idx huse).hint_eq P, hseed]
    obtain ⟨-, hmac⟩ := keys_of_seed P hideal hS hhop (ok f.idx huse) hseed
    rw [packetSphinxPeel_isSome, hkeys] at hpeel
    change packetHmac P (t f.idx).headerMacKey.toList _ = _ at hpeel
    rw [hmac] at hpeel
    obtain ⟨k, hused, hcovered⟩ := hasm.mac hpeel
    have hfront := front_of_mac P hpeel hcovered
    refine ⟨hasm.hint _ (Nat.mod_lt _ (by norm_num)) hhint, ?_⟩
    by_contra hne
    exact hno ⟨f.idx, f.domain, f.windowIdx, k, huse, hseed, hhint, hused, hfront,
      fun heq => hne (hfront.trans heq)⟩

/-- In every state of a node, over any handler threads and sessions. -/
theorem hint_authentic_iff (hopDecoy : Bool) (acts : List ServeAct)
    (hacts : ∀ m role now, .extend m role now ∈ acts → S m) {wire : WirePacket}
    (hasm : Assembled P path i client wire) :
    HintAuthentic P path i client
        (Machine.run (serveStep P hopDecoy) acts .initial).table wire ↔
      ¬ Spliced P path i client
        (Machine.run (serveStep P hopDecoy) acts .initial).table wire :=
  authentic_iff_not_spliced P hideal hS hhop
    (tableDerived_run P hopDecoy (tableDerived_initial P S) acts hacts) hasm

end

end

/-! The block of the first packet under the hint of the second one. -/

def twoBlocks : ClientBlocks := ⟨fun k => k < 2, fun _ => -1, .sample⟩

def sampleRealPacket (c : Nat) : WirePacket :=
  (packetSphinxBuildEx .sample .sample [7] (pktReal ||| pktDestService) c (-1) (.sample c)).getD
    (Bytes.zero _)

def splicedPacket : WirePacket := (sampleRealPacket 1).write 0 ((sampleRealPacket 0).read 0 63)

def oneSession : List ServeAct := [.extend (sampleMaster 0) sessionRoleA 0]

theorem oneSession_masters : ∀ m role now, .extend m role now ∈ oneSession →
    ∃ i : Fin nPathHops, m = sampleMaster i := by
  intro m role now h
  cases List.mem_singleton.mp h
  exact ⟨0, rfl⟩

theorem splicedPacket_hint : outerHint splicedPacket
    = packetDeriveHopHint .sample (packetDeriveHintSeed .sample (sampleMaster 0)) 1 := by
  decide +kernel

theorem splicedPacket_assembled :
    Assembled .sample .sample 0 twoBlocks splicedPacket where
  mac _ := ⟨0, Nat.two_pos, by decide +kernel⟩
  hint c hc h := by
    rw [splicedPacket_hint] at h
    obtain ⟨-, rfl⟩ := hintsDistinct_sample (sampleMaster 0) (sampleMaster 0) ⟨0, rfl⟩ ⟨0, rfl⟩
      1 c (by norm_num) hc h
    exact Nat.one_lt_two

theorem splicedPacket_spliced : Spliced .sample .sample 0 twoBlocks
    (Machine.run (serveStep .sample false) oneSession .initial).table splicedPacket :=
  ⟨0, .real, ⟨1, by decide⟩, 0, by decide +kernel, by decide +kernel, by decide +kernel,
    Nat.two_pos, by decide +kernel, by decide +kernel⟩

theorem spliced_packet_accepted :
    Assembled .sample .sample 0 twoBlocks splicedPacket ∧
      ¬ HintAuthentic .sample .sample 0 twoBlocks
        (Machine.run (serveStep .sample false) oneSession .initial).table splicedPacket ∧
      (handleData .sample false (Machine.run (serveStep .sample false) oneSession .initial).table
        splicedPacket 0 (Bytes.zero _)).1.isSome := by
  have ok := tableDerived_run .sample false (tableDerived_initial .sample _) oneSession
    oneSession_masters
  have hiff := authentic_iff_not_spliced .sample hintsDistinct_sample ⟨0, rfl⟩ rfl ok
    splicedPacket_assembled
  exact ⟨splicedPacket_assembled, fun h => hiff.mp h splicedPacket_spliced, by decide +kernel⟩

theorem hint_authentic_iff_spliced :
    HintAuthentic .sample .sample 0 twoBlocks
        (Machine.run (serveStep .sample false) oneSession .initial).table splicedPacket ↔
      ¬ Spliced .sample .sample 0 twoBlocks
        (Machine.run (serveStep .sample false) oneSession .initial).table splicedPacket := by
  have hmaster : ∃ i : Fin nPathHops, sampleMaster 0 = sampleMaster i := ⟨0, rfl⟩
  exact hint_authentic_iff .sample hintsDistinct_sample hmaster rfl false oneSession
    oneSession_masters splicedPacket_assembled

end AnonSecNet.MixNode
