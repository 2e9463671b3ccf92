import AnonSecNet.MixNode.HintAuthenticity
import AnonSecNet.MixNode.HintWindow

/-! What a packet that a handler drops unauthenticated or as a replay leaves in the session
table. -/
namespace AnonSecNet.MixNode
open Octets
variable (P : Primitives) (hopDecoy : Bool)

/-- The session table after `handle_data` or `handle_return`. -/
def tableAfter (mode : Mode) (t : Table) (wire pad : WirePacket) (now : Nat) : Table :=
  match mode with
  | .data => (handleData P hopDecoy t wire now pad).2
  | .ret => (handleReturn P t wire now (returnHeaderOf pad)).2

/-- The nonce is one that the session still remembers. -/
def SessionEntry.Seen (sess : SessionEntry) : SeenNonce → Prop
  | .data nonce => sess.seenNonces.Holds nonce
  | .ret nonce => sess.seenReturnNonces.Holds nonce

instance (sess : SessionEntry) : DecidablePred sess.Seen
  | .data nonce => inferInstanceAs (Decidable (sess.seenNonces.Holds nonce))
  | .ret nonce => inferInstanceAs (Decidable (sess.seenReturnNonces.Holds nonce))

/-- The hint is unknown, the MAC fails, or the nonce is a replay. -/
def Rejected (mode : Mode) (t : Table) (wire pad : WirePacket) : Prop :=
  ∀ f, firstFound t (wireHint mode wire) = some f →
    ∀ nonce, verifiedNonce P mode wire pad f.keys = some nonce → (t f.idx).Seen nonce

instance (mode : Mode) (t : Table) (wire pad : WirePacket) :
    Decidable (Rejected P mode t wire pad) :=
  inferInstanceAs (Decidable (∀ f ∈ firstFound t (wireHint mode wire),
    ∀ nonce ∈ verifiedNonce P mode wire pad f.keys, (t f.idx).Seen nonce))

/-- A confirmation of this window slot finds the mark and the base where it would put them. -/
def HintState.AtRest (h : HintState) (d : Domain) (w : Fin AnonSecNet.hintWindow) : Prop :=
  (AtMostMark h d (h.matchedAbs d w) ∨ h.matchedAbs d w = h.hintHighWater d) ∧
    desiredBase (h.hintHighWater d) ≤ h.hintBase d

/-- No session has the hint; or its session was active at this very time, and a packet that
verifies has nothing to confirm. -/
def FindsAtRest (mode : Mode) (t : Table) (wire pad : WirePacket) (now : Nat) : Prop :=
  ∀ f, firstFound t (wireHint mode wire) = some f → (t f.idx).lastActiveMs = now ∧
    ∀ nonce, verifiedNonce P mode wire pad f.keys = some nonce →
      (t f.idx).AtRest f.domain f.windowIdx

theorem raiseHighWater_eq_self_iff (m c : Nat) :
    raiseHighWater m c = m ↔ (m ≠ noHighWater ∧ c ≤ m) ∨ c = m := by
  unfold raiseHighWater
  split <;> omega

theorem advance_eq_self_iff (h : HintState) (d : Domain) (w : Fin hintWindow) :
    sessionAdvanceHintWindow P h d w = h ↔ h.AtRest d w := by
  have hmark := hintHighWater_advance P h d w
  have hbase := hintBase_advance P h d w
  unfold HintState.AtRest AtMostMark
  rw [← raiseHighWater_eq_self_iff]
  constructor
  · intro heq
    rw [heq, eq_comm, Function.update_eq_self_iff] at hmark hbase
    rw [hmark] at hbase
    exact ⟨hmark, max_eq_left_iff.mp hbase⟩
  · rintro ⟨hraise, hle⟩
    obtain ⟨-, hadv⟩ | ⟨hlt, -⟩ := advance_cases P h d w _ hraise
    · rw [hadv, Function.update_eq_self]
    · omega

/-- Both handlers: lookup, MAC, confirmation, nonce check. -/
theorem tableAfter_eq (mode : Mode) (t : Table) (wire pad : WirePacket) (now : Nat) :
    tableAfter P hopDecoy mode t wire pad now =
      match sessionFind t (wireHint mode wire) now with
      | (none, t') => t'
      | (some f, t') =>
        match verifiedNonce P mode wire pad f.keys with
        | none => t'
        | some nonce => (checkNonce (sessionConfirmHintMatch P t' f) f nonce).2 := by
  cases mode with
  | data =>
    simp only [tableAfter, handleData, wireHint, verifiedNonce]
    rcases sessionFind t (outerHint wire) now with ⟨_ | f, t'⟩
    · rfl
    · dsimp only
      cases packetSphinxPeel P wire f.keys.headerEncKey f.keys.headerMacKey pad with
      | none => rfl
      | some out =>
        simp only [Option.map_some, checkNonce]
        split
        · rfl
        · split
          · rfl
          · split <;> rfl
  | ret =>
    simp only [tableAfter, handleReturn, wireHint, verifiedNonce]
    rcases sessionFind t (returnOuterHint (returnHeaderOf wire)) now with ⟨_ | f, t'⟩
    · rfl
    · dsimp only
      cases packetPeelReturnHeader P (returnHeaderOf wire) f.keys.headerEncKey
          f.keys.headerMacKey (returnHeaderOf pad) with
      | none => rfl
      | some out =>
        simp only [Option.map_some, checkNonce]
        split
        · rfl
        · split <;> rfl

/-- A nonce that the session remembers is not recorded again. -/
theorem checkNonce_seen {t : Table} {f : Found} {nonce : SeenNonce}
    (h : (t f.idx).Seen nonce) : (checkNonce t f nonce).2 = t := by
  cases nonce with
  | data nonce =>
    have hheld : (t f.idx).seenNonces.Holds nonce := h
    simp only [checkNonce, sessionCheckNonceByIdx, Recent.checkAndRecord, if_pos hheld]
    split
    · exact Function.update_eq_self f.idx t
    · rfl
  | ret nonce =>
    have hheld : (t f.idx).seenReturnNonces.Holds nonce := h
    simp only [checkNonce, sessionCheckReturnNonceByIdx, Recent.checkAndRecord, if_pos hheld]
    split
    · exact Function.update_eq_self f.idx t
    · rfl

/-- What a rejected packet leaves: the time of its lookup, and if it verified its confirmation. -/
theorem tableAfter_rejected {mode : Mode} {t : Table} {wire pad : WirePacket} (now : Nat)
    (h : Rejected P mode t wire pad) {f : Found}
    (hf : firstFound t (wireHint mode wire) = some f) :
    tableAfter P hopDecoy mode t wire pad now = Function.update t f.idx
      { t f.idx with
        lastActiveMs := now
        toHintState :=
          if (verifiedNonce P mode wire pad f.keys).isSome then
            sessionAdvanceHintWindow P (t f.idx).toHintState f.domain f.windowIdx
          else (t f.idx).toHintState } := by
  have hfind : sessionFind t (wireHint mode wire) now
      = (some f, Function.update t f.idx { t f.idx with lastActiveMs := now }) := by
    unfold sessionFind
    rw [hf]
  rw [tableAfter_eq, hfind]
  dsimp only
  cases hv : verifiedNonce P mode wire pad f.keys with
  | none => rfl
  | some nonce =>
    have hconfirm := confirm_found P hfind
    dsimp only
    rw [checkNonce_seen]
    · exact hconfirm
    · rw [hconfirm, Function.update_self]
      have hseen := h f hf nonce hv
      cases nonce <;> exact hseen

theorem touched_eq_self_iff (sess : SessionEntry) (h : HintState) (now : Nat) :
    ({ sess with lastActiveMs := now, toHintState := h } : SessionEntry) = sess ↔
      sess.lastActiveMs = now ∧ h = sess.toHintState := by
  constructor
  · intro heq
    exact ⟨(congrArg SessionEntry.lastActiveMs heq).symm, congrArg SessionEntry.toHintState heq⟩
  · rintro ⟨rfl, rfl⟩
    rfl

/-- A rejected packet leaves the session table exactly as it was if and only if it finds
everything it touches at rest. -/
theorem rejected_changes_nothing_iff {mode : Mode} {t : Table} {wire pad : WirePacket} (now : Nat)
    (h : Rejected P mode t wire pad) :
    tableAfter P hopDecoy mode t wire pad now = t ↔ FindsAtRest P mode t wire pad now := by
  cases hf : firstFound t (wireHint mode wire) with
  | none =>
    have hfind : sessionFind t (wireHint mode wire) now = (none, t) := by
      unfold sessionFind
      rw [hf]
    rw [tableAfter_eq, hfind]
    exact ⟨fun _ f hf' => (nomatch hf.symm.trans hf'), fun _ => rfl⟩
  | some f =>
    have hrest : FindsAtRest P mode t wire pad now ↔ (t f.idx).lastActiveMs = now ∧
        ∀ nonce, verifiedNonce P mode wire pad f.keys = some nonce →
          (t f.idx).AtRest f.domain f.windowIdx := by
      constructor
      · exact fun h => h f hf
      · intro h g hg
        obtain rfl := Option.some.inj (hf.symm.trans hg)
        exact h
    rw [tableAfter_rejected P hopDecoy now h hf, Function.update_eq_self_iff, hrest,
      touched_eq_self_iff, and_congr_right_iff]
    intro _
    cases verifiedNonce P mode wire pad f.keys with
    | none => exact ⟨fun _ _ h => (nomatch h), fun _ => rfl⟩
    | some nonce =>
      rw [Option.isSome_some, if_pos rfl, advance_eq_self_iff]
      exact ⟨fun h _ _ => h, fun h => h nonce rfl⟩

/-- One session, whose first packet has been forwarded. -/
def firstForwarded : Table :=
  tableAfter .sample false .data (Machine.run (serveStep .sample false) oneSession .initial).table
    (sampleRealPacket 0) (Bytes.zero _) 0

theorem rejected_changes_nothing_iff_resent :
    Rejected .sample .data firstForwarded (sampleRealPacket 0) (Bytes.zero _) ∧
      (tableAfter .sample false .data firstForwarded (sampleRealPacket 0) (Bytes.zero _) 1
          = firstForwarded ↔
        FindsAtRest .sample .data firstForwarded (sampleRealPacket 0) (Bytes.zero _) 1) := by
  have hrejected : Rejected .sample .data firstForwarded (sampleRealPacket 0) (Bytes.zero _) := by
    decide +kernel
  exact ⟨hrejected, rejected_changes_nothing_iff .sample false 1 hrejected⟩

/-- Resent later, the packet makes its session look active. Its first 63 bytes before the rest of
the next packet move the mark. -/
theorem captured_bytes_change_table :
    (Rejected .sample .data firstForwarded (sampleRealPacket 0) (Bytes.zero _) ∧
      tableAfter .sample false .data firstForwarded (sampleRealPacket 0) (Bytes.zero _) 1
        ≠ firstForwarded) ∧
    (Rejected .sample .data firstForwarded splicedPacket (Bytes.zero _) ∧
      tableAfter .sample false .data firstForwarded splicedPacket (Bytes.zero _) 0
        ≠ firstForwarded) := by
  refine ⟨⟨by decide +kernel, fun h => ?_⟩, ⟨by decide +kernel, fun h => ?_⟩⟩
  · have hactive := congrArg (fun t : Table => (t 0).lastActiveMs) h
    revert hactive
    decide +kernel
  · have hmark := congrArg (fun t : Table => (t 0).hintHighWater .real) h
    revert hmark
    decide +kernel

end AnonSecNet.MixNode
