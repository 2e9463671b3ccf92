import AnonSecNet.Client.Packets
import AnonSecNet.MixNode.HighWater
import AnonSecNet.Packet.ForwardRoundTrip

/-! What a relay sees of a real packet and of a cover packet of the same session. -/
namespace AnonSecNet.MixNode
open Octets
variable (P : Primitives)

/-- What lookup and peel yield apart from pseudorandom bytes. -/
structure RelayView where
  idx : Fin maxSessions
  generation : Nat
  domain : Domain
  hopFlag : UInt8
  nextIp : Bytes 4
  nextPort : UInt16
deriving DecidableEq

/-- The first two steps of `handle_data`. -/
def relayView (t : Table) (pkt : WirePacket) (now : Nat) (pad : WirePacket) : Option RelayView :=
  match sessionFind t (outerHint pkt) now with
  | (none, _) => none
  | (some f, _) =>
    (packetSphinxPeel P pkt f.keys.headerEncKey f.keys.headerMacKey pad).map fun out =>
      ⟨f.idx, f.generation, f.domain, out.1.hopFlag, out.1.nextIp, out.1.nextPort⟩

/-- The packet that reaches hop `k`: the relays before it took their blocks off. -/
def packetAtHop (path : SphinxPath) (pad : Fin nPathHops → WirePacket) (pkt : WirePacket) :
    Nat → Option WirePacket
  | 0 => some pkt
  | k + 1 => (packetAtHop path pad pkt k).bind fun p =>
    if h : k < nPathHops then
      (packetSphinxPeel P p (path.hops ⟨k, h⟩).headerEncKey (path.hops ⟨k, h⟩).headerMacKey
        (pad ⟨k, h⟩)).map Prod.snd
    else none

theorem relayView_eq_some {t : Table} {pkt pad : WirePacket} {now : Nat} {v : RelayView}
    (h : relayView P t pkt now pad = some v) :
    ∃ f out, foundAt t (outerHint pkt) f.idx = some f ∧
      packetSphinxPeel P pkt f.keys.headerEncKey f.keys.headerMacKey pad = some out ∧
      v = ⟨f.idx, f.generation, f.domain, out.1.hopFlag, out.1.nextIp, out.1.nextPort⟩ := by
  unfold relayView at h
  split at h
  · cases h
  · rename_i f t' hfind
    obtain ⟨out, hpeel, hv⟩ := Option.map_eq_some_iff.mp h
    exact ⟨f, out, (sessionFind_eq_some hfind).1, hpeel, hv.symm⟩

/-- A packet that a relay forwards has been looked up and peeled. -/
theorem relayView_of_forwarded {hopDecoy : Bool} {t : Table} {pkt pad : WirePacket} {now : Nat}
    (h : (handleData P hopDecoy t pkt now pad).1.isSome) :
    (relayView P t pkt now pad).isSome := by
  have hpeeled : ∃ f t', sessionFind t (outerHint pkt) now = (some f, t') ∧
      (packetSphinxPeel P pkt f.keys.headerEncKey f.keys.headerMacKey pad).isSome := by
    unfold handleData at h
    split at h
    · cases h
    · rename_i f t' hfind
      refine ⟨f, t', hfind, ?_⟩
      split at h
      · cases h
      · rename_i hop fwd hpeel
        rw [hpeel]
        rfl
  obtain ⟨f, t', hfind, hpeel⟩ := hpeeled
  unfold relayView
  rw [hfind]
  exact Option.isSome_map.trans hpeel

/-! The windows of a node's sessions, over every run. -/

/-- HMAC as an ideal hash on the masters in `S`: the hints of two sessions or of two
counters differ. -/
def HintsDistinct (S : AesKey → Prop) : Prop :=
  ∀ m m', S m → S m' → ∀ c c', c < 2 ^ 64 → c' < 2 ^ 64 →
    packetDeriveHopHint P (packetDeriveHintSeed P m) c
      = packetDeriveHopHint P (packetDeriveHintSeed P m') c' → m = m' ∧ c = c'

/-- A session set up from a master in `S` and advanced at most `n` times. -/
structure SessionOk (S : AesKey → Prop) (n : Nat) (sess : SessionEntry) : Prop where
  derived : ∃ master, S master ∧ sess.hintSeed = packetDeriveHintSeed P master ∧
    (sess.headerEncKey, sess.headerMacKey, sess.returnBlindKey) = packetDeriveHopKeys P master
  window : ∀ d w, sess.hintWindow d w = packetDeriveHopHint P sess.hintSeed (sess.hintBase d + w)
  base : ∀ d, d.first ≤ sess.hintBase d ∧ sess.hintBase d ≤ d.first + 32 * n
  mark : ∀ d, sess.hintHighWater d = noHighWater ∨ sess.hintHighWater d ≤ sess.hintBase d + 63

def TableOk (S : AesKey → Prop) (n : Nat) (t : Table) : Prop :=
  ∀ i, (t i).inUse = true → SessionOk P S n (t i)

/-- The slots keep what lookups, peels and hint windows depend on. -/
def SlotsKept (t t' : Table) : Prop :=
  ∀ i, (t' i).inUse = (t i).inUse ∧ (t' i).keys = (t i).keys ∧
    (t' i).toHintState = (t i).toHintState

theorem slotsKept_update {t : Table} {i : Fin maxSessions} {sess : SessionEntry}
    (huse : sess.inUse = (t i).inUse)
    (hkeys : ⟨sess.headerEncKey, sess.headerMacKey, sess.returnBlindKey⟩ = (t i).keys)
    (hh : sess.toHintState = (t i).toHintState) : SlotsKept t (Function.update t i sess) := by
  intro j
  by_cases hj : j = i
  · subst hj
    rw [Function.update_self]
    exact ⟨huse, hkeys, hh⟩
  · rw [Function.update_of_ne hj]
    exact ⟨rfl, rfl, rfl⟩

theorem slotsKept_receive (s : NodeState) (mode : Mode) (wire pad : WirePacket) (now : Nat)
    (domain : Domain) (counter : Nat) :
    SlotsKept s.table (stepReceive P s mode wire pad now domain counter).table := by
  unfold stepReceive
  split
  · exact fun _ => ⟨rfl, rfl, rfl⟩
  · rename_i f table hfind
    have htable := (sessionFind_eq_some hfind).2
    subst htable
    split
    · split <;> exact slotsKept_update rfl rfl rfl
    · exact fun _ => ⟨rfl, rfl, rfl⟩

theorem slotsKept_checkNonce (t : Table) (f : Found) (nonce : SeenNonce) :
    SlotsKept t (checkNonce t f nonce).2 := by
  cases nonce with
  | data nonce =>
    simp only [checkNonce, sessionCheckNonceByIdx]
    split
    · exact slotsKept_update rfl rfl rfl
    · exact fun _ => ⟨rfl, rfl, rfl⟩
  | ret nonce =>
    simp only [checkNonce, sessionCheckReturnNonceByIdx]
    split
    · exact slotsKept_update rfl rfl rfl
    · exact fun _ => ⟨rfl, rfl, rfl⟩

/-- A slot in use after a step: a session just set up, or the one it held before,
advanced at most once. -/
inductive SlotStep (a : NodeAct) (sess sess' : SessionEntry) : Prop where
  | fresh (master : AesKey) (role : UInt8) (now : Nat) (extend : a = .extend master role now)
      (hints : sess'.toHintState = sessionInitHintWindow P (packetDeriveHintSeed P master))
      (keys : (sess'.headerEncKey, sess'.headerMacKey, sess'.returnBlindKey)
        = packetDeriveHopKeys P master)
  | kept (use : sess.inUse = true) (keys : sess'.keys = sess.keys)
      (hints : sess'.toHintState = sess.toHintState)
  | advanced (use : sess.inUse = true) (keys : sess'.keys = sess.keys) (d : Domain)
      (w : Fin hintWindow)
      (hints : sess'.toHintState = sessionAdvanceHintWindow P sess.toHintState d w)

theorem SlotsKept.slotStep {a : NodeAct} {t t' : Table} (h : SlotsKept t t')
    {i : Fin maxSessions} (huse : (t' i).inUse = true) : SlotStep P a (t i) (t' i) := by
  obtain ⟨huse', hkeys, hh⟩ := h i
  exact .kept (huse' ▸ huse) hkeys hh

theorem slotStep_confirm (a : NodeAct) (t : Table) (f : Found) (i : Fin maxSessions)
    (huse : (sessionConfirmHintMatch P t f i).inUse = true) :
    SlotStep P a (t i) (sessionConfirmHintMatch P t f i) := by
  revert huse
  unfold sessionConfirmHintMatch
  split
  · by_cases hij : i = f.idx
    · subst hij
      rw [Function.update_self]
      exact fun huse => .advanced huse rfl f.domain f.windowIdx rfl
    · rw [Function.update_of_ne hij]
      exact fun huse => .kept huse rfl rfl
  · exact fun huse => .kept huse rfl rfl

theorem nodeStep_slot (s : NodeState) (a : NodeAct) (i : Fin maxSessions)
    (huse : ((nodeStep P s a).table i).inUse = true) :
    SlotStep P a (s.table i) ((nodeStep P s a).table i) := by
  revert huse
  cases a with
  | extend master role now =>
    simp only [nodeStep]
    split
    · exact fun huse => .kept huse rfl rfl
    · rename_i j table hext
      obtain ⟨sess, rfl, -, hh, hkeys⟩ := extendSession_eq_some P hext
      dsimp only
      by_cases hij : i = j
      · subst hij
        rw [Function.update_self]
        exact fun _ => .fresh master role now rfl hh hkeys
      · rw [Function.update_of_ne hij]
        exact fun huse => .kept huse rfl rfl
  | receive mode wire pad now domain counter =>
    exact (slotsKept_receive P s mode wire pad now domain counter).slotStep P
  | confirm k =>
    simp only [nodeStep]
    split
    · split
      · exact slotStep_confirm P _ _ _ _
      · exact fun huse => .kept huse rfl rfl
    · exact fun huse => .kept huse rfl rfl
  | checkNonce k =>
    simp only [nodeStep]
    split
    · split
      · exact (slotsKept_checkNonce _ _ _).slotStep P
      · exact fun huse => .kept huse rfl rfl
    · exact fun huse => .kept huse rfl rfl

theorem raise_le {m b x : Nat} (hm : m = noHighWater ∨ m ≤ b) (hx : x ≤ b) :
    raiseHighWater m x ≤ b := by
  by_cases hnone : m = noHighWater
  · rw [hnone, raiseHighWater_none]
    exact hx
  · rw [raiseHighWater_set hnone]
    exact max_le (hm.resolve_left hnone) hx

/-- The counter an offset stands for does not wrap. -/
theorem SessionOk.matched_eq {S : AesKey → Prop} {n : Nat} {sess : SessionEntry}
    (ok : SessionOk P S n sess) (hn : n ≤ 2 ^ 56) (d : Domain) (w : Fin hintWindow) :
    sess.matchedAbs d w = sess.hintBase d + w := by
  have hw : w.val < 64 := w.isLt
  have hbase := ok.base d
  have hfirst := first_le d
  unfold HintState.matchedAbs
  exact Nat.mod_eq_of_lt (by omega)

theorem SessionOk.advance {S : AesKey → Prop} {n : Nat} {sess sess' : SessionEntry}
    (ok : SessionOk P S n sess) (hn : n ≤ 2 ^ 56) (hkeys : sess'.keys = sess.keys) {d : Domain}
    {w : Fin hintWindow}
    (hh : sess'.toHintState = sessionAdvanceHintWindow P sess.toHintState d w) :
    SessionOk P S (n + 1) sess' where
  derived := by
    obtain ⟨master, hS, hseed, hall⟩ := ok.derived
    refine ⟨master, hS, ?_, ?_⟩
    · rw [hh, hintSeed_advance, hseed]
    · rw [← hall]
      simp only [SessionEntry.keys, SessionKeys.mk.injEq] at hkeys
      rw [hkeys.1, hkeys.2.1, hkeys.2.2]
  window e v := by rw [hh, window_advance P d w ok.window, hintSeed_advance]
  base e := by
    have hw : w.val < 64 := w.isLt
    have hadd := ok.matched_eq P hn d w
    have hbase := ok.base e
    rw [hh, hintBase_advance, desiredBase_eq, hadd]
    by_cases hed : e = d
    · subst hed
      rw [Function.update_self]
      have hraise := raise_le (ok.mark e) (x := sess.hintBase e + w) (by omega)
      simp only [hintSafetyMargin]
      constructor <;> omega
    · rw [Function.update_of_ne hed]
      constructor <;> omega
  mark e := by
    have hw : w.val < 64 := w.isLt
    have hadd := ok.matched_eq P hn d w
    rw [hh, hintBase_advance, hintHighWater_advance, hadd]
    by_cases hed : e = d
    · subst hed
      rw [Function.update_self, Function.update_self]
      have hraise := raise_le (ok.mark e) (x := sess.hintBase e + w) (by omega)
      rw [desiredBase_eq]
      simp only [hintSafetyMargin]
      right
      omega
    · rw [Function.update_of_ne hed, Function.update_of_ne hed]
      exact ok.mark e

theorem SessionOk.mono {S : AesKey → Prop} {n n' : Nat} {sess sess' : SessionEntry}
    (ok : SessionOk P S n sess) (hn : n ≤ n') (hkeys : sess'.keys = sess.keys)
    (hh : sess'.toHintState = sess.toHintState) : SessionOk P S n' sess' where
  derived := by
    obtain ⟨master, hS, hseed, hall⟩ := ok.derived
    simp only [SessionEntry.keys, SessionKeys.mk.injEq] at hkeys
    exact ⟨master, hS, by rw [hh, hseed], by rw [← hall, hkeys.1, hkeys.2.1, hkeys.2.2]⟩
  window := by rw [hh]; exact ok.window
  base e := by
    have hbase := ok.base e
    rw [hh]
    omega
  mark := by rw [hh]; exact ok.mark

theorem SessionOk.fresh {S : AesKey → Prop} {sess : SessionEntry} {master : AesKey} (n : Nat)
    (hS : S master)
    (hh : sess.toHintState = sessionInitHintWindow P (packetDeriveHintSeed P master))
    (hkeys : (sess.headerEncKey, sess.headerMacKey, sess.returnBlindKey)
      = packetDeriveHopKeys P master) : SessionOk P S n sess where
  derived := ⟨master, hS, by rw [hh]; rfl, hkeys⟩
  window := by rw [hh]; exact fun _ _ => rfl
  base d := by
    rw [hh]
    simp [sessionInitHintWindow]
  mark := by rw [hh]; exact fun _ => Or.inl rfl

/-- Every session set up from a master in `S`. -/
def ExtendsIn (S : AesKey → Prop) (acts : List NodeAct) : Prop :=
  ∀ master role now, .extend master role now ∈ acts → S master

theorem TableOk.step {S : AesKey → Prop} {n : Nat} {s : NodeState} (ok : TableOk P S n s.table)
    (hn : n ≤ 2 ^ 56) (a : NodeAct) (ha : ExtendsIn S [a]) :
    TableOk P S (n + 1) (nodeStep P s a).table := by
  intro i huse
  cases nodeStep_slot P s a i huse with
  | fresh master role now extend hints keys =>
    exact .fresh P _ (ha master role now (by simp [extend])) hints keys
  | kept use keys hints => exact (ok i use).mono P (Nat.le_succ n) keys hints
  | advanced use keys d w hints => exact (ok i use).advance P hn keys hints

theorem TableOk.run {S : AesKey → Prop} {n : Nat} {s : NodeState} (ok : TableOk P S n s.table)
    (acts : List NodeAct) (hn : n + acts.length ≤ 2 ^ 56) (hacts : ExtendsIn S acts) :
    TableOk P S (n + acts.length) (Machine.run (nodeStep P) acts s).table := by
  induction acts generalizing n s with
  | nil => exact ok
  | cons a acts ih =>
    rw [List.length_cons] at hn ⊢
    have hstep := ok.step P (by omega) a fun master role now h =>
      hacts master role now (by simp at h; simp [h])
    have htail := ih hstep (by omega) fun master role now h =>
      hacts master role now (List.mem_cons_of_mem a h)
    rw [show n + (acts.length + 1) = n + 1 + acts.length by omega]
    exact htail

theorem tableOk_initial (S : AesKey → Prop) : TableOk P S 0 NodeState.initial.table := by
  intro i huse
  simp [NodeState.initial, zeroEntry] at huse

/-! What lookup and peel make of a packet built for the session. -/

/-- A hint of a session leads to that session's keys and to the domain whose window
holds the counter. -/
theorem TableOk.foundAt {S : AesKey → Prop} {n : Nat} {t : Table} (ok : TableOk P S n t)
    (hn : n ≤ 2 ^ 56) (hideal : HintsDistinct P S) {master : AesKey} (hS : S master) {c : Nat}
    (hc : c < 2 ^ 64) {i : Fin maxSessions} {f : Found}
    (hf : MixNode.foundAt t (packetDeriveHopHint P (packetDeriveHintSeed P master) c) i = some f) :
    (f.keys.headerEncKey, f.keys.headerMacKey, f.keys.returnBlindKey)
        = packetDeriveHopKeys P master ∧
      f.domain.first ≤ c ∧ c < f.domain.first + 32 * n + 64 := by
  obtain ⟨-, huse, hwin, hkeys, -⟩ := foundAt_eq_some hf
  obtain ⟨master', hS', hseed, hall⟩ := (ok i huse).derived
  have hw : f.windowIdx.val < 64 := f.windowIdx.isLt
  have hbase := (ok i huse).base f.domain
  have hfirst := first_le f.domain
  rw [(ok i huse).window, hseed] at hwin
  obtain ⟨rfl, rfl⟩ := hideal _ _ hS' hS _ _ (by omega) hc hwin
  refine ⟨?_, by omega, by omega⟩
  rw [hkeys]
  exact hall

section
variable (path : SphinxPath) (pktCounter : Nat) (dropAtHop : Int) (rnd : SphinxRandom)

theorem drop_finRange {n k : Nat} (hk : k < n) :
    (List.finRange n).drop k = ⟨k, hk⟩ :: (List.finRange n).drop (k + 1) := by
  rw [List.drop_eq_getElem_cons (by simpa using hk), List.getElem_finRange]
  rfl

theorem carries_atHop {sect : Bytes payloadSectionSize} {pad : Fin nPathHops → WirePacket}
    {pkt : WirePacket}
    (h : Carries P path pktCounter dropAtHop rnd sect (List.finRange nPathHops) pkt)
    {k : Nat} {p : WirePacket} (hp : packetAtHop P path pad pkt k = some p) :
    Carries P path pktCounter dropAtHop rnd sect ((List.finRange nPathHops).drop k) p := by
  induction k generalizing p with
  | zero =>
    cases hp
    exact h
  | succ k ih =>
    obtain ⟨q, hq, hpeel⟩ := Option.bind_eq_some_iff.mp hp
    split at hpeel
    · rename_i hk
      have hcar := ih hq
      rw [drop_finRange hk] at hcar
      obtain ⟨out, hout, hrest⟩ := hcar.peel P pktCounter path dropAtHop rnd sect
        (by simp at hk ⊢; omega) (pad ⟨k, hk⟩)
      rw [hout, Option.map_some, Option.some.injEq] at hpeel
      subst hpeel
      exact hrest
    · cases hpeel

theorem carries_built {payload : List UInt8} {flags : UInt8} {pkt : WirePacket}
    (hbuild : packetSphinxBuildEx P path payload flags pktCounter dropAtHop rnd = some pkt) :
    payload.length ≤ maxInnerPayload ∧ ∃ sect,
      e2eSection P path payload flags rnd.gcmNonce = some sect ∧
      Carries P path pktCounter dropAtHop rnd sect (List.finRange nPathHops) pkt := by
  have hdrop : -1 ≤ dropAtHop ∧ dropAtHop < nPathHops := by
    by_contra hno
    unfold packetSphinxBuildEx at hbuild
    rw [if_pos (by omega)] at hbuild
    cases hbuild
  have hpayload : payload.length ≤ maxInnerPayload := by
    by_contra hno
    unfold packetSphinxBuildEx at hbuild
    rw [if_neg (by omega), if_pos (by omega)] at hbuild
    cases hbuild
  obtain ⟨sect, -, hsect, -⟩ := e2eSection_fields P path payload flags rnd.gcmNonce hpayload
  obtain ⟨pkt', hbuild', hcar⟩ :=
    carries_build P pktCounter path payload flags dropAtHop rnd sect hdrop hpayload hsect
  obtain rfl : pkt' = pkt := Option.some.inj (hbuild'.symm.trans hbuild)
  exact ⟨hpayload, sect, hsect, hcar⟩

/-- The packet that reaches a hop carries that hop's block at its front. -/
theorem carries_of_build {payload : List UInt8} {flags : UInt8}
    {pad : Fin nPathHops → WirePacket} {pkt p : WirePacket} {i : Fin nPathHops}
    (hbuild : packetSphinxBuildEx P path payload flags pktCounter dropAtHop rnd = some pkt)
    (hp : packetAtHop P path pad pkt i = some p) :
    ∃ sect hops, Carries P path pktCounter dropAtHop rnd sect (i :: hops) p ∧
      hops.length < nPathHops := by
  obtain ⟨-, sect, -, hcar⟩ := carries_built P path pktCounter dropAtHop rnd hbuild
  have hat := carries_atHop P path pktCounter dropAtHop rnd hcar hp
  rw [drop_finRange i.isLt] at hat
  exact ⟨sect, _, hat, by simp; omega⟩

/-- The packet that reaches the gateway carries the payload section without its layers. -/
theorem section_of_build {payload : List UInt8} {flags : UInt8}
    {pad : Fin nPathHops → WirePacket} {pkt p : WirePacket}
    (hbuild : packetSphinxBuildEx P path payload flags pktCounter dropAtHop rnd = some pkt)
    (hp : packetAtHop P path pad pkt nPathHops = some p) :
    payload.length ≤ maxInnerPayload ∧
      e2eSection P path payload flags rnd.gcmNonce
        = some (p.read headerSize payloadSectionSize) := by
  obtain ⟨hpayload, sect, hsect, hcar⟩ := carries_built P path pktCounter dropAtHop rnd hbuild
  have hfinal : p.read headerSize payloadSectionSize = sect :=
    (carries_atHop P path pktCounter dropAtHop rnd hcar hp).2
  exact ⟨hpayload, hfinal ▸ hsect⟩

/-- Read off there: the hint of the path. -/
theorem sgHint_of_build {payload : List UInt8} {flags : UInt8}
    {pad : Fin nPathHops → WirePacket} {pkt p : WirePacket}
    (hbuild : packetSphinxBuildEx P path payload flags pktCounter dropAtHop rnd = some pkt)
    (hp : packetAtHop P path pad pkt nPathHops = some p) :
    p.read (wirePacketSize - sgHintBytes) sgHintBytes = path.sgHint := by
  obtain ⟨hpayload, hsect⟩ := section_of_build P path pktCounter dropAtHop rnd hbuild hp
  obtain ⟨sect, -, hsect', -, -, -, hhint⟩ :=
    e2eSection_fields P path payload flags rnd.gcmNonce hpayload
  have hfinal := Option.some.inj (hsect.symm.trans hsect')
  exact (Bytes.read_within hfinal (payloadSectionSize - sgHintBytes) sgHintBytes
    (by decide)).trans hhint

/-- What the relay of hop `i` sees of it: the flag and the next hop the builder wrote, and
the domain its counter lies in. -/
theorem TableOk.view {S : AesKey → Prop} {n : Nat} {t : Table} (ok : TableOk P S n t)
    (hn : n ≤ 2 ^ 56) (hideal : HintsDistinct P S) {i : Fin nPathHops} {master : AesKey}
    (hS : S master) (hhop : path.hops i = deriveHop P master) (hc : pktCounter < 2 ^ 64)
    {sect : Bytes payloadSectionSize} {hops : List (Fin nPathHops)} {pkt pad : WirePacket}
    (hcar : Carries P path pktCounter dropAtHop rnd sect (i :: hops) pkt)
    (hlen : hops.length < nPathHops) {now : Nat} {v : RelayView}
    (hv : relayView P t pkt now pad = some v) :
    v.hopFlag = hopFlagOf dropAtHop i ∧ v.nextIp = localhostBytes ∧
      v.nextPort = nextHopPort path i ∧
      v.domain.first ≤ pktCounter ∧ pktCounter < v.domain.first + 32 * n + 64 := by
  obtain ⟨f, out, hf, hpeel, rfl⟩ := relayView_eq_some P hv
  rw [hcar.outerHint, hhop] at hf
  obtain ⟨hkeys, hdomain⟩ := ok.foundAt P hn hideal hS hc hf
  obtain ⟨fwd, hown, -⟩ := hcar.peel P pktCounter path dropAtHop rnd sect hlen pad
  have henc : f.keys.headerEncKey = (path.hops i).headerEncKey := by
    rw [hhop]
    exact congrArg Prod.fst hkeys
  have hmac : f.keys.headerMacKey = (path.hops i).headerMacKey := by
    rw [hhop]
    exact congrArg (fun k => k.2.1) hkeys
  rw [henc, hmac, hown, Option.some.injEq] at hpeel
  subst hpeel
  exact ⟨rfl, rfl, rfl, hdomain⟩

end

/-- After every run of a node, wherever it forwards both a real packet and a cover packet
of one session, flag and next hop are the same and the counter domain tells them apart. -/
theorem relay_tells_cover_from_real {S : AesKey → Prop} (hideal : HintsDistinct P S)
    (acts : List NodeAct) (hacts : ExtendsIn S acts) (hlen : acts.length ≤ 2 ^ 56)
    (path : SphinxPath) (masters : Fin nPathHops → AesKey) (hmasters : ∀ i, S (masters i))
    (hhops : ∀ i, path.hops i = deriveHop P (masters i)) (route : Client.ReturnRoute)
    (payload : List UInt8) (randPayload : Bytes maxInnerPayload) (c c' : Client.Counters)
    (nonces : Fin nPathHops → Bytes returnNonceBytes) (rnd rnd' : SphinxRandom)
    {real cover : WirePacket} (hreal : (Client.buildReal P path payload c rnd).1 = some real)
    (hcover : (Client.buildOutboundCover P path route randPayload c' nonces rnd').1 = some cover)
    (hsmall : c.sendPkt < hintCoverCounterBase) (hsmall' : c'.sendCoverPkt < hintCoverCounterBase)
    (i : Fin nPathHops) (relayPad relayPad' : Fin nPathHops → WirePacket) {p p' : WirePacket}
    (hp : packetAtHop P path relayPad real i = some p)
    (hp' : packetAtHop P path relayPad' cover i = some p')
    (hopDecoy : Bool) (now now' : Nat) (pad pad' : WirePacket)
    (hfwd : (handleData P hopDecoy (Machine.run (nodeStep P) acts NodeState.initial).table
      p now pad).1.isSome)
    (hfwd' : (handleData P hopDecoy (Machine.run (nodeStep P) acts NodeState.initial).table
      p' now' pad').1.isSome) :
    ∃ v v',
      relayView P (Machine.run (nodeStep P) acts NodeState.initial).table p now pad = some v ∧
      relayView P (Machine.run (nodeStep P) acts NodeState.initial).table p' now' pad' = some v' ∧
      v.hopFlag = v'.hopFlag ∧ v.nextIp = v'.nextIp ∧ v.nextPort = v'.nextPort ∧
      v.domain = .real ∧ v'.domain = .cover := by
  have ok := (tableOk_initial P S).run P acts (by omega) hacts
  rw [Nat.zero_add] at ok
  obtain ⟨v, hv⟩ := Option.isSome_iff_exists.mp (relayView_of_forwarded P hfwd)
  obtain ⟨v', hv'⟩ := Option.isSome_iff_exists.mp (relayView_of_forwarded P hfwd')
  obtain ⟨coverPayload, hbuild'⟩ :=
    Client.buildOutboundCover_fst P path route randPayload c' nonces rnd'
  rw [Client.buildReal_fst] at hreal
  rw [hbuild'] at hcover
  obtain ⟨sect, hops, hcar, hlen₁⟩ := carries_of_build P path _ (-1) rnd hreal hp
  obtain ⟨sect', hops', hcar', hlen₂⟩ := carries_of_build P path _ (-1) rnd' hcover hp'
  have hcoverBase : hintCoverCounterBase = 2 ^ 62 := rfl
  have hlong : longValue c.sendPkt = c.sendPkt := longValue_of_lt (by omega)
  have hlong' : longValue c'.sendCoverPkt = c'.sendCoverPkt := longValue_of_lt (by omega)
  obtain ⟨hflag, hip, hport, hdomain⟩ := ok.view P path _ (-1) rnd hlen hideal (hmasters i)
    (hhops i) (by omega) hcar hlen₁ hv
  obtain ⟨hflag', hip', hport', hdomain'⟩ := ok.view P path _ (-1) rnd' hlen hideal (hmasters i)
    (hhops i) (Nat.mod_lt _ (by norm_num)) hcar' hlen₂ hv'
  refine ⟨v, v', hv, hv', hflag.trans hflag'.symm, hip.trans hip'.symm,
    hport.trans hport'.symm, ?_, ?_⟩
  · cases hd : v.domain with
    | real => rfl
    | cover =>
      rw [hd] at hdomain
      simp only [Domain.first] at hdomain
      omega
  · cases hd : v'.domain with
    | cover => rfl
    | real =>
      rw [hd] at hdomain'
      simp only [Domain.first] at hdomain'
      omega

/-- The entry node after the set-up of the sample path's session. -/
def coverRun : List NodeAct := [.extend (sampleMaster 0) sessionRoleA 0]

def coverTable : Table := (Machine.run (nodeStep .sample) coverRun NodeState.initial).table

/-- The client's first real packet and its first cover packet. -/
def firstReal : WirePacket :=
  ((Client.buildReal .sample .sample [7] ⟨0, 0, 0⟩ (.sample 0)).1).getD (Bytes.zero _)

def firstCover : WirePacket :=
  ((Client.buildOutboundCover .sample .sample .sample (Bytes.zero _) ⟨0, 0, 0⟩
    (fun _ => Bytes.zero _) (.sample 1)).1).getD (Bytes.zero _)

theorem coverTable_forwards :
    (handleData .sample false coverTable firstReal 0 (Bytes.zero _)).1.isSome = true ∧
      (handleData .sample false coverTable firstCover 0 (Bytes.zero _)).1.isSome = true := by
  decide +kernel

theorem cover_view_differs :
    (handleData .sample false coverTable firstReal 0 (Bytes.zero _)).1.isSome = true ∧
      (handleData .sample false coverTable firstCover 0 (Bytes.zero _)).1.isSome = true ∧
      relayView .sample coverTable firstReal 0 (Bytes.zero _)
        ≠ relayView .sample coverTable firstCover 0 (Bytes.zero _) :=
  ⟨coverTable_forwards.1, coverTable_forwards.2, by decide +kernel⟩

/-- The small instance keeps hints apart on masters that its hint seeds tell apart. -/
theorem hintsDistinct_of_seeds {S : AesKey → Prop}
    (hinj : ∀ m m', S m → S m' → Bytes.fit 24 (packetDeriveHintSeed .sample m).toList
      = Bytes.fit 24 (packetDeriveHintSeed .sample m').toList → m = m') :
    HintsDistinct .sample S := by
  intro m m' hm hm' c c' hc hc' h
  have hfit : ∀ x, Bytes.fit 8 (bigEndian 8 x).toList = bigEndian 8 x := fun _ => rfl
  have hseed := congrArg (fun b : Hint => b.read 8 24) h
  have hcounter := congrArg (fun b : Hint => b.read 0 8) h
  simp only [packetDeriveHopHint, Primitives.sample] at hseed hcounter
  rw [Bytes.read_append_snd, Bytes.read_append_snd] at hseed
  rw [Bytes.read_append_fst, Bytes.read_append_fst, hfit, hfit] at hcounter
  exact ⟨hinj m m' hm hm' hseed, bigEndian_inj (by omega) (by omega) hcounter⟩

theorem hintsDistinct_sample :
    HintsDistinct .sample (fun m => ∃ i : Fin nPathHops, m = sampleMaster i) := by
  apply hintsDistinct_of_seeds
  rintro _ _ ⟨i, rfl⟩ ⟨j, rfl⟩ hseed
  have hinj : ∀ i j : Fin nPathHops,
      Bytes.fit 24 (packetDeriveHintSeed .sample (sampleMaster i)).toList
        = Bytes.fit 24 (packetDeriveHintSeed .sample (sampleMaster j)).toList → i = j := by
    decide +kernel
  rw [hinj i j hseed]

theorem relay_tells_cover_from_real_first :
    ∃ v v', relayView .sample coverTable firstReal 0 (Bytes.zero _) = some v ∧
      relayView .sample coverTable firstCover 0 (Bytes.zero _) = some v' ∧
      v.domain = .real ∧ v'.domain = .cover := by
  have hreal : (Client.buildReal .sample .sample [7] ⟨0, 0, 0⟩ (.sample 0)).1 = some firstReal := by
    decide +kernel
  have hcover : (Client.buildOutboundCover .sample .sample .sample (Bytes.zero _) ⟨0, 0, 0⟩
      (fun _ => Bytes.zero _) (.sample 1)).1 = some firstCover := by
    decide +kernel
  obtain ⟨v, v', hv, hv', -, -, -, hdomain, hdomain'⟩ :=
    relay_tells_cover_from_real .sample hintsDistinct_sample coverRun
      (fun master role now h => ⟨0, by cases List.mem_singleton.mp h; rfl⟩) (by decide)
      .sample (fun i => sampleMaster i) (fun i => ⟨i, rfl⟩) (fun _ => rfl) .sample [7]
      (Bytes.zero _) ⟨0, 0, 0⟩ ⟨0, 0, 0⟩ (fun _ => Bytes.zero _) (.sample 0) (.sample 1)
      hreal hcover (by decide) (by decide) 0
      (fun _ => Bytes.zero _) (fun _ => Bytes.zero _) rfl rfl false 0 0 (Bytes.zero _)
      (Bytes.zero _) coverTable_forwards.1 coverTable_forwards.2
  exact ⟨v, v', hv, hv', hdomain, hdomain'⟩

end AnonSecNet.MixNode
