import AnonSecNet.MixNode.ForwardOnce
import AnonSecNet.MixNode.HintWindow
import AnonSecNet.MixNode.ReturnRoundTrip

/-! A session at a relay, and what the two handlers do to it with the packets of its client. -/
namespace AnonSecNet.MixNode
open Octets
variable (P : Primitives)

/-- `handle_data` drops the packet at its replay check. -/
def dataReplayed (t : Table) (pkt : WirePacket) (now : Nat) (pad : WirePacket) : Bool :=
  match sessionFind t (outerHint pkt) now with
  | (none, _) => false
  | (some f, t) =>
    match packetSphinxPeel P pkt f.keys.headerEncKey f.keys.headerMacKey pad with
    | none => false
    | some (hop, _) =>
      (sessionCheckNonceByIdx (sessionConfirmHintMatch P t f) f.idx f.generation hop.nonce).1

/-- `handle_return` drops the packet at its replay check. -/
def returnReplayed (t : Table) (wire : WirePacket) (now : Nat) (pad : ReturnHeader) : Bool :=
  match sessionFind t (returnOuterHint (returnHeaderOf wire)) now with
  | (none, _) => false
  | (some f, t) =>
    match packetPeelReturnHeader P (returnHeaderOf wire) f.keys.headerEncKey
        f.keys.headerMacKey pad with
    | none => false
    | some (next, _) =>
      (sessionCheckReturnNonceByIdx (sessionConfirmHintMatch P t f) f.idx f.generation next.nonce).1

def hopKeys (hop : HopSession) : SessionKeys := ⟨hop.headerEncKey, hop.headerMacKey, hop.blindKey⟩

/-- A live session of `hop` whose real window has the counters from `lo` to `hi`. -/
structure SessionFor (sess : SessionEntry) (hop : HopSession) (lo hi : Nat) : Prop where
  inUse : sess.inUse = true
  keys : sess.keys = hopKeys hop
  seed : sess.hintSeed = hop.hintSeed
  window : ∃ confirmed, WindowOk P sess.toHintState confirmed
  ordered : lo ≤ hi
  covered : sess.hintBase .real ≤ lo ∧ hi < sess.hintBase .real + hintWindow
  bounded : hi < 2 ^ 64

/-- No other slot of the table answers the hints of these counters. -/
def Alone (t : Table) (slot : Fin maxSessions) (hop : HopSession) (lo hi : Nat) : Prop :=
  ∀ c, lo ≤ c → c ≤ hi → ∀ j, j ≠ slot → foundAt t (packetDeriveHopHint P hop.hintSeed c) j = none

variable {P} {t : Table} {slot : Fin maxSessions} {hop : HopSession} {lo hi c : Nat}

/-- Only the state of the other slots counts. -/
theorem Alone.update (h : Alone P t slot hop lo hi) (sess : SessionEntry) :
    Alone P (Function.update t slot sess) slot hop lo hi := by
  intro c hlo hhi j hj
  have hfound := h c hlo hhi j hj
  unfold foundAt at hfound ⊢
  rw [Function.update_of_ne hj]
  exact hfound

theorem SessionFor.seen {sess : SessionEntry} (h : SessionFor P sess hop lo hi)
    (seen : Recent (Bytes nonceBytes) replayWindow)
    (seenReturn : Recent (Bytes returnNonceBytes) replayWindow) :
    SessionFor P { sess with seenNonces := seen, seenReturnNonces := seenReturn } hop lo hi :=
  ⟨h.inUse, h.keys, h.seed, h.window, h.ordered, h.covered, h.bounded⟩

/-- A session that has just been set up. -/
theorem sessionFor_extend {t t' : Table} {master : AesKey} {role : UInt8} {now : Nat}
    (h : extendSession P t master role now = some (slot, t')) (hlo : lo ≤ hi)
    (hhi : hi < hintWindow) :
    SessionFor P (t' slot) (deriveHop P master) lo hi ∧
      (∀ nonces, (t' slot).seenNonces.Misses nonces) ∧
      ∀ nonces, (t' slot).seenReturnNonces.Misses nonces := by
  obtain ⟨sess, rfl, huse, hh, hkeys⟩ := extendSession_eq_some P h
  obtain ⟨sess', heq, -, -, hseen, hret⟩ := extendSession_allocated P h
  obtain rfl : sess = sess' := by
    have hslot := congrFun heq slot
    rwa [Function.update_self, Function.update_self] at hslot
  rw [Function.update_self]
  refine ⟨⟨huse, ?_, ?_, ?_, hlo, ?_, ?_⟩, fun nonces => ⟨[], hseen, ?_⟩,
    fun nonces => ⟨[], hret, ?_⟩⟩
  · exact congrArg (fun k => (⟨k.1, k.2.1, k.2.2⟩ : SessionKeys)) hkeys
  · rw [hh]
    rfl
  · rw [hh]
    exact ⟨_, WindowOk.init P _⟩
  · rw [hh]
    simp only [sessionInitHintWindow, Domain.first]
    omega
  · simp only [hintWindow] at hhi
    omega
  · simp
  · simp

/-- A packet of the session is found there, and its match moves the window no further than the
counters behind it. -/
theorem SessionFor.met (h : SessionFor P (t slot) hop lo hi)
    (halone : Alone P t slot hop lo hi) (hfree : CountersDistinct P) (hlo : lo ≤ c)
    (hhi : c ≤ hi) (now : Nat) :
    ∃ f t₁ sess, sessionFind t (packetDeriveHopHint P hop.hintSeed c) now = (some f, t₁) ∧
      f.idx = slot ∧ f.keys = hopKeys hop ∧ f.generation = sess.generation ∧
      sessionConfirmHintMatch P t₁ f = Function.update t slot sess ∧ SessionFor P sess hop c hi ∧
      sess.seenNonces = (t slot).seenNonces ∧
      sess.seenReturnNonces = (t slot).seenReturnNonces := by
  obtain ⟨confirmed, ok⟩ := h.window
  obtain ⟨hbase, hend⟩ := h.covered
  have hbound := h.bounded
  have hoff : c - (t slot).hintBase .real < hintWindow := by omega
  have habs : (t slot).matchedAbs .real (⟨_, hoff⟩ : Fin hintWindow) = c := by
    simp only [HintState.matchedAbs]
    omega
  have hmatch := (ok.matchHint_iff hfree (show c < 2 ^ 64 by omega) .real ⟨_, hoff⟩).mpr
    ⟨habs, fun hd => nomatch hd⟩
  have hhere : foundAt t (packetDeriveHopHint P hop.hintSeed c) slot
      = some ⟨slot, (t slot).keys, .real, ⟨_, hoff⟩, (t slot).generation⟩ := by
    unfold foundAt
    rw [if_pos h.inUse, ← h.seed, hmatch, Option.map_some]
  have hfirst := firstFound_of_alone hhere (halone c hlo hhi)
  have hfind : sessionFind t (packetDeriveHopHint P hop.hintSeed c) now
      = (some ⟨slot, (t slot).keys, .real, ⟨_, hoff⟩, (t slot).generation⟩,
          Function.update t slot { t slot with lastActiveMs := now }) := by
    unfold sessionFind
    rw [hfirst]
  have ok' := ok.advance P .real ⟨_, hoff⟩
  let sess : SessionEntry :=
    { t slot with
      lastActiveMs := now
      toHintState :=
        sessionAdvanceHintWindow P (t slot).toHintState .real (c - (t slot).hintBase .real) }
  refine ⟨_, _, sess, hfind, rfl, h.keys, rfl, confirm_found P hfind, ?_, rfl, rfl⟩
  refine ⟨h.inUse, h.keys, (hintSeed_advance P _ _ _).trans h.seed, ⟨_, ok'⟩, hhi, ?_, hbound⟩
  have hmoved := ok'.base .real
  rw [Function.update_self, baseFor_cons, ← ok.base, habs, desiredBase_eq] at hmoved
  simp only [hintSafetyMargin] at hmoved
  dsimp only [sess]
  rw [hmoved]
  omega

variable (t slot) in
theorem checkNonce_update {sess : SessionEntry} (huse : sess.inUse = true)
    (nonce : Bytes nonceBytes) {drop : Bool} {seen : Recent (Bytes nonceBytes) replayWindow}
    (hcheck : sess.seenNonces.checkAndRecord nonce = (drop, seen)) :
    sessionCheckNonceByIdx (Function.update t slot sess) slot sess.generation nonce
      = (drop, Function.update t slot { sess with seenNonces := seen }) := by
  have hsame : SameSession (Function.update t slot sess) slot sess.generation := by
    rw [SameSession, Function.update_self]
    exact ⟨huse, rfl⟩
  rw [sessionCheckNonceByIdx, if_pos hsame, Function.update_self, hcheck]
  dsimp only
  rw [Function.update_idem]

variable (t slot) in
theorem checkReturnNonce_update {sess : SessionEntry} (huse : sess.inUse = true)
    (nonce : Bytes returnNonceBytes) {drop : Bool}
    {seen : Recent (Bytes returnNonceBytes) replayWindow}
    (hcheck : sess.seenReturnNonces.checkAndRecord nonce = (drop, seen)) :
    sessionCheckReturnNonceByIdx (Function.update t slot sess) slot sess.generation nonce
      = (drop, Function.update t slot { sess with seenReturnNonces := seen }) := by
  have hsame : SameSession (Function.update t slot sess) slot sess.generation := by
    rw [SameSession, Function.update_self]
    exact ⟨huse, rfl⟩
  rw [sessionCheckReturnNonceByIdx, if_pos hsame, Function.update_self, hcheck]
  dsimp only
  rw [Function.update_idem]

theorem dataReplayed_of_found {pkt pad out : WirePacket} {now : Nat} {f : Found} {t₁ : Table}
    {info : HopInfo} (hfind : sessionFind t (outerHint pkt) now = (some f, t₁))
    (hpeel : packetSphinxPeel P pkt f.keys.headerEncKey f.keys.headerMacKey pad
      = some (info, out)) :
    dataReplayed P t pkt now pad = (sessionCheckNonceByIdx (sessionConfirmHintMatch P t₁ f) f.idx
      f.generation info.nonce).1 := by
  simp only [dataReplayed, hfind, hpeel]

theorem returnReplayed_of_found {wire : WirePacket} {pad shifted : ReturnHeader} {now : Nat}
    {f : Found} {t₁ : Table} {next : ReturnNext}
    (hfind : sessionFind t (returnOuterHint (returnHeaderOf wire)) now = (some f, t₁))
    (hpeel : packetPeelReturnHeader P (returnHeaderOf wire) f.keys.headerEncKey
      f.keys.headerMacKey pad = some (next, shifted)) :
    returnReplayed P t wire now pad = (sessionCheckReturnNonceByIdx
      (sessionConfirmHintMatch P t₁ f) f.idx f.generation next.nonce).1 := by
  simp only [returnReplayed, hfind, hpeel]

/-- `handle_data` sends a packet with a new nonce on, and only the session's slot changes. -/
theorem SessionFor.forwards (h : SessionFor P (t slot) hop lo hi)
    (halone : Alone P t slot hop lo hi) (hfree : CountersDistinct P) (hlo : lo ≤ c)
    (hhi : c ≤ hi) (hopDecoy : Bool) (now : Nat)
    {pkt pad out : WirePacket} {info : HopInfo} {nonces : List (Bytes nonceBytes)}
    (hmiss : (t slot).seenNonces.Misses (info.nonce :: nonces)) (hnew : info.nonce ∉ nonces)
    (hhint : outerHint pkt = packetDeriveHopHint P hop.hintSeed c)
    (hpeel : packetSphinxPeel P pkt hop.headerEncKey hop.headerMacKey pad = some (info, out))
    (hflag : info.hopFlag ≠ hopDropMarker)
    (hallowed : isAllowedNextHop localhostBytes info.nextPort) :
    ∃ sess, handleData P hopDecoy t pkt now pad
        = (some (info.nextPort, out), Function.update t slot sess) ∧
      dataReplayed P t pkt now pad = false ∧ SessionFor P sess hop c hi ∧
      sess.seenNonces.Misses nonces := by
  obtain ⟨f, t₁, sess, hfind, hidx, hkeys, hgen, hconfirm, hsess, hseen, -⟩ :=
    h.met halone hfree hlo hhi now
  obtain ⟨seen, hcheck, -, hrest⟩ := hmiss.record hnew
  rw [← hseen] at hcheck
  have hchecked := checkNonce_update t slot hsess.inUse info.nonce hcheck
  rw [← hhint] at hfind
  have hfound : packetSphinxPeel P pkt f.keys.headerEncKey f.keys.headerMacKey pad
      = some (info, out) := by
    rw [hkeys]
    exact hpeel
  refine ⟨{ sess with seenNonces := seen }, ?_, ?_, hsess.seen seen sess.seenReturnNonces, hrest⟩
  · simp only [handleData, hfind, hfound, hconfirm, hidx, hgen, hchecked, Bool.false_eq_true,
      ↓reduceIte, if_neg fun hdecoy : hopDecoy = true ∧ _ => hflag hdecoy.2, if_pos hallowed]
  · rw [dataReplayed_of_found hfind hfound, hconfirm, hidx, hgen, hchecked]

/-- A return packet of the session is peeled there, and its nonce is looked up among those the
session remembers. -/
theorem SessionFor.met_return (h : SessionFor P (t slot) hop c c)
    (halone : Alone P t slot hop c c) (hfree : CountersDistinct P) (now : Nat)
    {wire : WirePacket} {pad shifted : ReturnHeader} {next : ReturnNext}
    (hhint : returnOuterHint (returnHeaderOf wire) = packetDeriveHopHint P hop.hintSeed c)
    (hpeel : packetPeelReturnHeader P (returnHeaderOf wire) hop.headerEncKey hop.headerMacKey pad
      = some (next, shifted)) {drop : Bool} {seen : Recent (Bytes returnNonceBytes) replayWindow}
    (hcheck : (t slot).seenReturnNonces.checkAndRecord next.nonce = (drop, seen)) :
    ∃ f t₁ sess,
      sessionFind t (returnOuterHint (returnHeaderOf wire)) now = (some f, t₁) ∧
      packetPeelReturnHeader P (returnHeaderOf wire) f.keys.headerEncKey f.keys.headerMacKey pad
        = some (next, shifted) ∧
      f.keys = hopKeys hop ∧ SessionFor P sess hop c c ∧
      sessionCheckReturnNonceByIdx (sessionConfirmHintMatch P t₁ f) f.idx f.generation next.nonce
        = (drop, Function.update t slot { sess with seenReturnNonces := seen }) := by
  obtain ⟨f, t₁, sess, hfind, hidx, hkeys, hgen, hconfirm, hsess, -, hseen⟩ :=
    h.met halone hfree le_rfl le_rfl now
  rw [← hhint] at hfind
  rw [← hseen] at hcheck
  refine ⟨f, t₁, sess, hfind, ?_, hkeys, hsess, ?_⟩
  · rw [hkeys]
    exact hpeel
  · rw [hconfirm, hidx, hgen]
    exact checkReturnNonce_update t slot hsess.inUse next.nonce hcheck

/-- `handle_return` sends a packet with a new nonce on and remembers the nonce. -/
theorem SessionFor.returns (h : SessionFor P (t slot) hop c c) (halone : Alone P t slot hop c c)
    (hfree : CountersDistinct P) (now : Nat) {wire : WirePacket} {pad shifted : ReturnHeader}
    {next : ReturnNext} (hmiss : (t slot).seenReturnNonces.Misses [next.nonce])
    (hhint : returnOuterHint (returnHeaderOf wire) = packetDeriveHopHint P hop.hintSeed c)
    (hpeel : packetPeelReturnHeader P (returnHeaderOf wire) hop.headerEncKey hop.headerMacKey pad
      = some (next, shifted)) (hallowed : isAllowedNextHop next.nextIp next.nextPort) :
    ∃ sess, handleReturn P t wire now pad
        = (some ⟨next.nextIp, next.nextPort, decide (isFinal next.nextPort),
            returnOut P (hopKeys hop) wire shifted⟩, Function.update t slot sess) ∧
      returnReplayed P t wire now pad = false ∧ SessionFor P sess hop c c ∧
      sess.seenReturnNonces.Holds next.nonce := by
  obtain ⟨seen, hcheck, hheld, -⟩ := hmiss.record List.not_mem_nil
  obtain ⟨f, t₁, sess, hfind, hfound, hkeys, hsess, hchecked⟩ :=
    h.met_return halone hfree now hhint hpeel hcheck
  refine ⟨{ sess with seenReturnNonces := seen }, ?_, ?_, hsess.seen sess.seenNonces seen, hheld⟩
  · rw [← hkeys]
    simp only [handleReturn, hfind, hfound, hchecked, Bool.false_eq_true, ↓reduceIte,
      if_pos hallowed]
  · rw [returnReplayed_of_found hfind hfound, hchecked]

/-- It drops one whose nonce it remembers. -/
theorem SessionFor.drops_replay (h : SessionFor P (t slot) hop c c)
    (halone : Alone P t slot hop c c) (hfree : CountersDistinct P) (now : Nat)
    {wire : WirePacket} {pad shifted : ReturnHeader} {next : ReturnNext}
    (hheld : (t slot).seenReturnNonces.Holds next.nonce)
    (hhint : returnOuterHint (returnHeaderOf wire) = packetDeriveHopHint P hop.hintSeed c)
    (hpeel : packetPeelReturnHeader P (returnHeaderOf wire) hop.headerEncKey hop.headerMacKey pad
      = some (next, shifted)) : returnReplayed P t wire now pad = true := by
  have hcheck : (t slot).seenReturnNonces.checkAndRecord next.nonce
      = (true, (t slot).seenReturnNonces) := by
    rw [Recent.checkAndRecord, if_pos hheld]
  obtain ⟨f, t₁, sess, hfind, hfound, -, -, hchecked⟩ :=
    h.met_return halone hfree now hhint hpeel hcheck
  rw [returnReplayed_of_found hfind hfound, hchecked]

end AnonSecNet.MixNode
