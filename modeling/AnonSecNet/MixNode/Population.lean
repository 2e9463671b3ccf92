import AnonSecNet.MixNode.Derivation

/-! The population of a slot in `handle_extend` when its derivations can fail. A call that fails
leaves its output buffer as it was. -/
namespace AnonSecNet.MixNode
open Octets Machine
variable (P : Primitives)

/-- Which of the calls behind the ECDH succeed. -/
structure Outcomes where
  hopKey : Fin 3 → Bool
  hintSeed : Bool
  hopHint : Domain → Fin hintWindow → Bool

def Outcomes.Succeed (o : Outcomes) : Prop :=
  (∀ i, o.hopKey i = true) ∧ o.hintSeed = true ∧ ∀ d w, o.hopHint d w = true

/-- `split_master_keys` into zeroed buffers. `packet_derive_hop_keys` ends at the first call that
fails, and what it returns is not looked at. -/
def splitMasterKeys (master : AesKey) (hopKey : Fin 3 → Bool) : AesKey × AesKey × AesKey :=
  let (henc, hmk, bkey) := packetDeriveHopKeys P master
  if hopKey 0 then
    if hopKey 1 then
      if hopKey 2 then (henc, hmk, bkey) else (henc, hmk, Bytes.zero _)
    else (henc, Bytes.zero _, Bytes.zero _)
  else (Bytes.zero _, Bytes.zero _, Bytes.zero _)

/-- `session_init_hint_window`, which does not look at the results either. -/
def initHintWindow (h : HintState) (seed : AesKey) (hopHint : Domain → Fin hintWindow → Bool) :
    HintState :=
  { sessionInitHintWindow P seed with
    hintWindow := fun d w =>
      if hopHint d w then packetDeriveHopHint P seed (d.first + w) else h.hintWindow d w }

/-- `handle_extend` from the ECDH on; `master` is its result. -/
def extendTable (t : Table) (master : Option AesKey) (o : Outcomes) (role : UInt8) (now : Nat) :
    Table :=
  match master with
  | none => t
  | some master =>
    let (henc, hmk, bkey) := splitMasterKeys P master o.hopKey
    match sessionAlloc t now with
    | none => t
    | some (i, t') =>
      if o.hintSeed then
        Function.update t' i
          { t' i with
            toHintState := initHintWindow P (t' i).toHintState (packetDeriveHintSeed P master)
              o.hopHint
            headerEncKey := henc
            headerMacKey := hmk
            returnBlindKey := bkey
            role := role }
      -- The lock is released with the slot in use.
      else t'

/-- The sections of the node under `g_session_lock`. Those of the packet handlers come with
whatever their thread has found before. -/
inductive LockAct where
  | extend (master : Option AesKey) (o : Outcomes) (role : UInt8) (now : Nat)
  | find (hint : Hint) (now : Nat)
  | confirm (f : Found)
  | check (f : Found) (nonce : SeenNonce)

def lockStep (t : Table) : LockAct → Table
  | .extend master o role now => extendTable P t master o role now
  | .find hint now => (sessionFind t hint now).2
  | .confirm f => sessionConfirmHintMatch P t f
  | .check f nonce => (checkNonce t f nonce).2

def FullyKeyed (t : Table) : Prop := TableDerived P (fun _ => True) t

/-- After a handshake with a failure every session is one that was there before. -/
def LeavesNoSession (t : Table) : LockAct → Prop
  | .extend master o role now => master = none ∨ ¬ o.Succeed →
      ∀ i, (extendTable P t master o role now i).inUse = true →
        (t i).inUse = true ∧ (extendTable P t master o role now i).generation = (t i).generation
  | _ => True

/-- No derivation fails in a handshake that gets a slot. -/
def DerivationsSucceed (t : Table) : LockAct → Prop
  | .extend (some _) o _ now => (sessionAlloc t now).isSome → o.Succeed
  | _ => True


/-! What a handshake does. -/

theorem extendTable_succeed {o : Outcomes} (h : o.Succeed) (t : Table) (master : AesKey)
    (role : UInt8) (now : Nat) :
    extendTable P t (some master) o role now
      = ((extendSession P t master role now).map Prod.snd).getD t := by
  obtain ⟨hkeys, hseed, hhints⟩ := h
  have hsplit : splitMasterKeys P master o.hopKey = packetDeriveHopKeys P master := by
    simp only [splitMasterKeys, hkeys, if_true]
  have hinit : ∀ (h : HintState) (seed : AesKey),
      initHintWindow P h seed o.hopHint = sessionInitHintWindow P seed := by
    intro h seed
    simp only [initHintWindow, hhints, if_true]
    rfl
  unfold extendTable extendSession
  dsimp only
  rw [hsplit]
  cases sessionAlloc t now with
  | none => rfl
  | some r =>
    dsimp only
    rw [if_pos hseed, hinit]
    rfl

theorem extendTable_full {t : Table} {now : Nat} (h : ¬ (sessionAlloc t now).isSome)
    (master : Option AesKey) (o : Outcomes) (role : UInt8) :
    extendTable P t master o role now = t := by
  unfold extendTable
  rw [Option.not_isSome_iff_eq_none.mp h]
  cases master <;> rfl

/-- A slot that is handed out stays in use, under its next generation. -/
theorem extendTable_slot {t t' : Table} {now : Nat} {i : Fin maxSessions}
    (h : sessionAlloc t now = some (i, t')) (master : AesKey) (o : Outcomes) (role : UInt8) :
    (extendTable P t (some master) o role now i).inUse = true ∧
      (extendTable P t (some master) o role now i).generation ≠ (t i).generation := by
  obtain ⟨sess, rfl, huse, hgen, -, -⟩ := sessionAlloc_allocated h
  have hnext : ((t i).generation + 1) % 2 ^ 32 ≠ (t i).generation := by omega
  unfold extendTable
  rw [h]
  dsimp only
  split
  · simp only [Function.update_self]
    exact ⟨huse, hgen ▸ hnext⟩
  · rw [Function.update_self]
    exact ⟨huse, hgen ▸ hnext⟩


/-! Steps and runs. -/

theorem FullyKeyed.step {t : Table} (ok : FullyKeyed P t) {act : LockAct}
    (h : DerivationsSucceed t act) : FullyKeyed P (lockStep P t act) := by
  cases act with
  | extend master o role now =>
    simp only [lockStep]
    by_cases hfree : (sessionAlloc t now).isSome
    · cases master with
      | none => exact ok
      | some master =>
        rw [extendTable_succeed P (h hfree)]
        cases hext : extendSession P t master role now with
        | none => exact ok
        | some r =>
          obtain ⟨j, t'⟩ := r
          obtain ⟨hnew, hold⟩ := slotDerived_extend P hext
          intro i
          by_cases hi : i = j
          · subst hi
            exact fun huse => (hnew huse).imp P fun _ _ => trivial
          · exact hold _ i hi (ok i)
    · rw [extendTable_full P hfree]
      exact ok
  | find hint now =>
    exact fun i => slotDerived_kept P (ok i) (slotsKept_sessionFind t hint now)
  | confirm f => exact fun i => slotDerived_confirm P (ok i) f
  | check f nonce => exact fun i => slotDerived_kept P (ok i) (slotsKept_checkNonce t f nonce)

theorem leavesNoSession_iff (t : Table) (act : LockAct) :
    LeavesNoSession P t act ↔ DerivationsSucceed t act := by
  cases act with
  | extend master o role now =>
    cases master with
    | none => exact ⟨fun _ => trivial, fun _ _ i huse => ⟨huse, rfl⟩⟩
    | some master =>
      constructor
      · intro h hfree
        obtain ⟨⟨i, t'⟩, halloc⟩ := Option.isSome_iff_exists.mp hfree
        obtain ⟨huse, hgen⟩ := extendTable_slot P halloc master o role
        by_contra hfail
        exact hgen (h (Or.inr hfail) i huse).2
      · intro h hfail i huse
        have hfull : ¬ (sessionAlloc t now).isSome := fun hfree =>
          hfail.elim (fun hnone => nomatch hnone) fun hno => hno (h hfree)
        rw [extendTable_full P hfull] at huse ⊢
        exact ⟨huse, rfl⟩
  | find hint now => exact Iff.rfl
  | confirm f => exact Iff.rfl
  | check f nonce => exact Iff.rfl

/-- Every visible session is keyed from one master, and failed handshakes leave none behind,
exactly in the runs in which no derivation of a handshake that gets a slot fails. -/
theorem fully_keyed_iff (acts : List LockAct) :
    (Along (lockStep P) (FullyKeyed P) acts (fun _ => zeroEntry) ∧
        StepsMeet (lockStep P) (LeavesNoSession P) acts (fun _ => zeroEntry)) ↔
      StepsMeet (lockStep P) DerivationsSucceed acts (fun _ => zeroEntry) := by
  have hsame : LeavesNoSession P = DerivationsSucceed := by
    funext t act
    exact propext (leavesNoSession_iff P t act)
  rw [hsame]
  constructor
  · exact fun h => h.2
  · intro h
    refine ⟨along_of_stepsMeet (lockStep P) (FullyKeyed P)
      (fun t act ok hact => ok.step P hact) ?_ h, h⟩
    intro i huse
    cases huse

/-- The seed of the first session cannot be derived. -/
def seedFails : List LockAct :=
  [.extend (some (sampleMaster 0)) ⟨fun _ => true, false, fun _ _ => true⟩ sessionRoleA 0]

theorem keyless_session_visible :
    ¬ Along (lockStep .sample) (FullyKeyed .sample) seedFails (fun _ => zeroEntry) ∧
      ¬ StepsMeet (lockStep .sample) (LeavesNoSession .sample) seedFails (fun _ => zeroEntry) := by
  have hslot : (Machine.run (lockStep .sample) seedFails (fun _ => zeroEntry) 0).inUse = true ∧
      (Machine.run (lockStep .sample) seedFails (fun _ => zeroEntry) 0).headerEncKey
        = Bytes.zero _ := by
    decide +kernel
  constructor
  · intro h
    obtain ⟨master, -, -, hkeys, -⟩ := h.last (lockStep .sample) 0 hslot.1
    have henc : Bytes.zero _ = Primitives.sample.hkdfExpand master labelHeaderEnc :=
      hslot.2.symm.trans (congrArg Prod.fst hkeys)
    have hlabel := congrArg (fun b : AesKey => b.read 0 16) henc
    simp only [Primitives.sample] at hlabel
    rw [Bytes.read_append_fst] at hlabel
    revert hlabel
    decide +kernel
  · rintro ⟨hleaves, -⟩
    have hfail : ¬ (Outcomes.mk (fun _ => true) false fun _ _ => true).Succeed :=
      fun h => Bool.false_ne_true h.2.1
    cases (hleaves (Or.inr hfail) 0 hslot.1).1

end AnonSecNet.MixNode
