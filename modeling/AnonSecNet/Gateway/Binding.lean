import AnonSecNet.Foundation.Machine
import AnonSecNet.Gateway.Steps

/-! When a set-up session stays bound to the receiving session it proved it owns, over every
order of EXTENDs, SETUPs and data requests. -/
namespace AnonSecNet.Gateway
open Octets
variable (P : Primitives)

/-- Every set-up sending session designates a live receiving session whose key verifies its
tag and is the key it holds. -/
def BindingOk (s : GwState) : Prop :=
  ∀ i, (s.table i).inUse = true → (s.table i).role = sessionRoleA →
    (s.table i).setupDone = true →
    ∃ j, (s.table i).boundB = some j ∧ (s.table j).inUse = true ∧
      (s.table j).role = sessionRoleB ∧
      packetDeriveBindingTag P (s.table i).e2eKey (s.table j).e2eKey = (s.table i).bindingTag ∧
      (s.table j).e2eKey = (s.table i).bKey

/-- The response went out under a key that the session's tag verifies, the key it holds once
it is set up. -/
def Sending.Proved (e : Sending) : Prop :=
  packetDeriveBindingTag P e.sess.e2eKey e.e2eKey = e.sess.bindingTag ∧
    (e.sess.setupDone = true → e.e2eKey = e.sess.bKey)

def SentProved (s : GwState) : Prop := ∀ e ∈ s.sent, e.toSending.Proved P

/-- The step keeps the bindings: an EXTEND that takes a slot to which a set-up session is
bound puts a receiving session with the same key there, and a SETUP of a set-up session
carries a tag that verifies for the session it is bound to. -/
def KeepsBindings (s : GwState) (a : GwAct) : Prop :=
  (∀ i master role, TakesSlot s a i master role → ∀ k, k ≠ i →
    (s.table k).inUse = true → (s.table k).role = sessionRoleA →
    (s.table k).setupDone = true → (s.table k).boundB = some i →
      role = sessionRoleB ∧ master = (s.table k).bKey) ∧
  ∀ i payload, StoresSetup P s a i payload → (s.table i).setupDone = true →
    ∀ j, (s.table i).boundB = some j →
      packetDeriveBindingTag P (s.table i).e2eKey (s.table j).e2eKey = setupTag payload

/-! The invariant, on the bindings alone. -/

structure Bound (bs : Fin maxSessions → Binding) (i j : Fin maxSessions) : Prop where
  inUse : (bs i).inUse = true
  role : (bs i).role = sessionRoleA
  setupDone : (bs i).setupDone = true
  live : (bs j).inUse = true ∧ (bs j).role = sessionRoleB
  tag : packetDeriveBindingTag P (bs i).e2eKey (bs j).e2eKey = (bs i).bindingTag
  key : (bs j).e2eKey = (bs i).bKey

structure BindingInv (bs : Fin maxSessions → Binding) : Prop where
  bound : ∀ i j, (bs i).boundB = some j → Bound P bs i j
  done : ∀ i, (bs i).setupDone = true → ∃ j, (bs i).boundB = some j

theorem roleA_ne_roleB : sessionRoleA ≠ sessionRoleB := by decide

theorem partnerOf_of_bound {bs : Fin maxSessions → Binding} {i j : Fin maxSessions}
    (h : (bs i).boundB = some j) (live : (bs j).inUse = true ∧ (bs j).role = sessionRoleB) :
    partnerOf P bs i = some j := by
  unfold partnerOf
  rw [h]
  exact if_pos live

theorem partnerOf_of_unbound {bs : Fin maxSessions → Binding} {i : Fin maxSessions}
    (h : (bs i).boundB = none) :
    partnerOf P bs i = findVerifiedB P bs (bs i).e2eKey (bs i).bindingTag i := by
  unfold partnerOf
  rw [h]

/-- Whatever goes out of a state with the invariant goes out under a proved key. -/
theorem BindingInv.proved {v : View} (inv : BindingInv P v.bindings) {e : Sending}
    (h : Partnered P v e) : e.Proved P := by
  obtain ⟨j, hj, hsess, hkey⟩ := h
  have hb : e.sess.toBinding = v.bindings e.aIdx := congrArg Prod.fst hsess
  have haKey : e.sess.e2eKey = (v.bindings e.aIdx).e2eKey := congrArg Binding.e2eKey hb
  have htag : e.sess.bindingTag = (v.bindings e.aIdx).bindingTag := congrArg Binding.bindingTag hb
  have hbKey : e.sess.bKey = (v.bindings e.aIdx).bKey := congrArg Binding.bKey hb
  have hdone : e.sess.setupDone = (v.bindings e.aIdx).setupDone := congrArg Binding.setupDone hb
  unfold Sending.Proved
  rw [hkey, haKey, htag, hbKey, hdone]
  cases hbound : (v.bindings e.aIdx).boundB with
  | some k =>
    have bound := inv.bound _ _ hbound
    rw [partnerOf_of_bound P hbound bound.live] at hj
    obtain rfl : k = j := Option.some.inj hj
    exact ⟨bound.tag, fun _ => bound.key⟩
  | none =>
    rw [partnerOf_of_unbound P hbound] at hj
    refine ⟨(findVerifiedB_eq_some P hj).2.2.2, fun hset => ?_⟩
    obtain ⟨k, hk⟩ := inv.done _ hset
    rw [hbound] at hk
    cases hk

/-- A new session in a slot leaves the others bound. -/
theorem BindingInv.extended {bs : Fin maxSessions → Binding} (inv : BindingInv P bs)
    {i : Fin maxSessions} {b : Binding} (huse : b.inUse = true) (hdone : b.setupDone = false)
    (hbound : b.boundB = none)
    (hkeep : ∀ k, k ≠ i → (bs k).boundB = some i → b.role = sessionRoleB ∧ b.e2eKey = (bs k).bKey) :
    BindingInv P (Function.update bs i b) where
  done k hk := by
    by_cases hki : k = i
    · subst hki
      rw [Function.update_self, hdone] at hk
      cases hk
    · rw [Function.update_of_ne hki] at hk ⊢
      exact inv.done k hk
  bound k j hkj := by
    by_cases hki : k = i
    · subst hki
      rw [Function.update_self, hbound] at hkj
      cases hkj
    · rw [Function.update_of_ne hki] at hkj
      have bound := inv.bound k j hkj
      by_cases hji : j = i
      · subst hji
        obtain ⟨hrole, hkey⟩ := hkeep k hki hkj
        constructor <;> simp only [Function.update_of_ne hki, Function.update_self]
        · exact bound.inUse
        · exact bound.role
        · exact bound.setupDone
        · exact ⟨huse, hrole⟩
        · rw [hkey, ← bound.key]
          exact bound.tag
        · exact hkey
      · constructor <;> simp only [Function.update_of_ne hki, Function.update_of_ne hji]
        · exact bound.inUse
        · exact bound.role
        · exact bound.setupDone
        · exact bound.live
        · exact bound.tag
        · exact bound.key

/-- A sending session that is not a partner itself may change its own binding. -/
theorem BindingInv.rebound {bs : Fin maxSessions → Binding} (inv : BindingInv P bs)
    {i j : Fin maxSessions} {b : Binding} (hrole : (bs i).role = sessionRoleA) (hji : j ≠ i)
    (hb : b.boundB = some j) (bound : Bound P (Function.update bs i b) i j) :
    BindingInv P (Function.update bs i b) where
  done k hk := by
    by_cases hki : k = i
    · subst hki
      rw [Function.update_self]
      exact ⟨j, hb⟩
    · rw [Function.update_of_ne hki] at hk ⊢
      exact inv.done k hk
  bound k l hkl := by
    by_cases hki : k = i
    · subst hki
      rw [Function.update_self, hb] at hkl
      cases hkl
      exact bound
    · rw [Function.update_of_ne hki] at hkl
      have old := inv.bound k l hkl
      have hli : l ≠ i := by
        rintro rfl
        exact roleA_ne_roleB (hrole.symm.trans old.live.2)
      constructor <;> simp only [Function.update_of_ne hki, Function.update_of_ne hli]
      · exact old.inUse
      · exact old.role
      · exact old.setupDone
      · exact old.live
      · exact old.tag
      · exact old.key

theorem bindings_set (v : View) (i : Fin maxSessions) (p : Binding × (Fin nPathHops → AesKey)) :
    View.bindings (Function.update v i p) = Function.update v.bindings i p.1 := by
  funext j
  by_cases hj : j = i
  · subst hj
    simp [View.bindings]
  · simp [View.bindings, hj]

/-- The partner that a stored SETUP is verified against. -/
theorem BindingInv.setup_partner {v : View} (inv : BindingInv P v.bindings) {i : Fin maxSessions}
    {payload : List UInt8} (hrole : (v.bindings i).role = sessionRoleA)
    (tagged : (findVerifiedB P v.bindings (v.bindings i).e2eKey (setupTag payload) i).isSome)
    (hkeep : (v.bindings i).setupDone = true → ∀ j, (v.bindings i).boundB = some j →
      packetDeriveBindingTag P (v.bindings i).e2eKey (v.bindings j).e2eKey = setupTag payload) :
    ∃ j, j ≠ i ∧ partnerOf P (setupView v i payload).bindings i = some j ∧
      ((v.bindings j).inUse = true ∧ (v.bindings j).role = sessionRoleB) ∧
      packetDeriveBindingTag P (v.bindings i).e2eKey (v.bindings j).e2eKey = setupTag payload := by
  rw [setupView, bindings_set]
  cases hbound : (v.bindings i).boundB with
  | some j =>
    have bound := inv.bound i j hbound
    have hji : j ≠ i := by
      rintro rfl
      exact roleA_ne_roleB (hrole.symm.trans bound.live.2)
    refine ⟨j, hji, partnerOf_of_bound P ?_ ?_, bound.live, hkeep bound.setupDone j hbound⟩
    · rw [Function.update_self]
      exact hbound
    · rw [Function.update_of_ne hji]
      exact bound.live
  | none =>
    obtain ⟨j, hj⟩ := Option.isSome_iff_exists.mp tagged
    obtain ⟨huse, hroleB, hji, htag⟩ := findVerifiedB_eq_some P hj
    refine ⟨j, hji, ?_, ⟨huse, hroleB⟩, htag⟩
    rw [partnerOf_of_unbound P (by rw [Function.update_self]; exact hbound), Function.update_self]
    exact (findVerifiedB_congr P fun k hk => Function.update_of_ne hk _ _).trans hj

/-- A SETUP whose tag agrees with the session's partner ends verified. -/
theorem BindingInv.setup {v v' : View} (inv : BindingInv P v.bindings) {i : Fin maxSessions}
    {payload : List UInt8} {out : Option Sending}
    (slot : (v.bindings i).inUse = true ∧ (v.bindings i).role = sessionRoleA)
    (tagged : (findVerifiedB P v.bindings (v.bindings i).e2eKey (setupTag payload) i).isSome)
    (hkeep : (v.bindings i).setupDone = true → ∀ j, (v.bindings i).boundB = some j →
      packetDeriveBindingTag P (v.bindings i).e2eKey (v.bindings j).e2eKey = setupTag payload)
    (ends : SetupEnd P (setupView v i payload) i out v') :
    BindingInv P v'.bindings ∧ ∀ e, out = some e → e.Proved P := by
  obtain ⟨j, hji, hj, live, htag⟩ := inv.setup_partner P slot.2 tagged hkeep
  have hstored : setupView v i payload i
      = ({ v.bindings i with bindingTag := setupTag payload }, setupBlind payload) :=
    Function.update_self _ _ _
  have hother : (setupView v i payload).bindings j = v.bindings j := by
    rw [setupView, bindings_set, Function.update_of_ne hji]
  cases ends with
  | verified j' e partner tag idx key sess =>
    obtain rfl : j = j' := Option.some.inj (hj.symm.trans partner)
    rw [hstored, hother] at sess
    have hb := congrArg Prod.fst sess
    dsimp only at hb
    constructor
    · rw [bindings_set, hstored, hother, setupView, bindings_set, Function.update_idem]
      refine inv.rebound P slot.2 hji rfl ?_
      constructor <;> simp only [Function.update_self, Function.update_of_ne hji]
      · exact slot.1
      · exact slot.2
      · exact live
      · exact htag
    · rintro e' he
      cases he
      unfold Sending.Proved
      rw [key, hother, hb]
      exact ⟨htag, fun _ => rfl⟩
  | mismatch j' partner tag =>
    obtain rfl : j = j' := Option.some.inj (hj.symm.trans partner)
    rw [hstored, hother] at tag
    exact absurd htag tag
  | alone partner =>
    rw [hj] at partner
    cases partner

/-! Over runs of the gateway. -/

structure GwInv (s : GwState) : Prop where
  binds : BindingInv P (bindings s.table)
  sent : SentProved P s

theorem GwInv.bindingOk {s : GwState} (inv : GwInv P s) : BindingOk P s := by
  intro i _ _ hdone
  obtain ⟨j, hj⟩ := inv.binds.done i hdone
  have bound := inv.binds.bound i j hj
  exact ⟨j, hj, bound.live.1, bound.live.2, bound.tag, bound.key⟩

theorem GwInv.initial : GwInv P GwState.initial where
  binds := ⟨fun i j h => by simp [bindings, GwState.initial, zeroSession] at h,
    fun i h => by simp [bindings, GwState.initial, zeroSession] at h⟩
  sent e he := by simp [GwState.initial] at he

theorem sentProved_append {s s' : GwState} {out : Option Sending} {epoch : Sending → Nat}
    {setup : Sending → List UInt8}
    (h : SentProved P s) (hout : ∀ e, out = some e → e.Proved P)
    (hsent : s'.sent = s.sent ++ out.toList.map fun e => ⟨e, epoch e, setup e⟩) :
    SentProved P s' := by
  intro e he
  rw [hsent] at he
  rcases List.mem_append.mp he with he | he
  · exact h e he
  · obtain ⟨e', he', rfl⟩ := List.mem_map.mp he
    exact hout e' (Option.mem_toList.mp he')

theorem GwInv.step {s : GwState} (inv : GwInv P s) (a : GwAct) (hkeep : KeepsBindings P s a) :
    GwInv P (gwStep P s a) := by
  cases gwStep_effect P s a with
  | sends out idle partnered view_eq epoch setup sent =>
    refine ⟨?_, sentProved_append P inv.sent (fun e he => ?_) sent⟩
    · rw [← bindings_view, view_eq]
      exact inv.binds
    · exact BindingInv.proved P (v := view s.table) inv.binds (partnered e he)
  | extended i master role takes idle view_eq epoch setup sent =>
    refine ⟨?_, fun e he => inv.sent e (sent ▸ he)⟩
    rw [← bindings_view, view_eq, bindings_set]
    refine inv.binds.extended P rfl rfl rfl fun k hki hk => ?_
    have bound := inv.binds.bound k i hk
    exact hkeep.1 i master role takes k hki bound.inUse bound.role bound.setupDone hk
  | setup i payload out stores idle slot tagged ends epoch setup sent =>
    obtain ⟨hbindings, hproved⟩ := BindingInv.setup P (v := view s.table) inv.binds slot tagged
      (hkeep.2 i payload stores) ends
    exact ⟨hbindings, sentProved_append P inv.sent hproved sent⟩

/-- A SETUP of a set-up session that leaves it bound properly agrees with its partner. -/
theorem BindingInv.tag_of_end {v v' : View} (inv : BindingInv P v.bindings)
    {i j : Fin maxSessions} {payload : List UInt8} {out : Option Sending}
    (hrole : (v.bindings i).role = sessionRoleA) (hbound : (v.bindings i).boundB = some j)
    (ends : SetupEnd P (setupView v i payload) i out v')
    (hok : v' = setupView v i payload → packetDeriveBindingTag P (v'.bindings i).e2eKey
      (v'.bindings j).e2eKey = (v'.bindings i).bindingTag) :
    packetDeriveBindingTag P (v.bindings i).e2eKey (v.bindings j).e2eKey = setupTag payload := by
  have live := (inv.bound i j hbound).live
  have hji : j ≠ i := by
    rintro rfl
    exact roleA_ne_roleB (hrole.symm.trans live.2)
  have hself : (setupView v i payload).bindings i
      = { v.bindings i with bindingTag := setupTag payload } := by
    rw [setupView, bindings_set]
    exact Function.update_self _ _ _
  have hother : (setupView v i payload).bindings j = v.bindings j := by
    rw [setupView, bindings_set, Function.update_of_ne hji]
  have hpartner : partnerOf P (setupView v i payload).bindings i = some j := by
    refine partnerOf_of_bound P ?_ ?_
    · rw [hself]
      exact hbound
    · rw [hother]
      exact live
  cases ends with
  | verified j' e partner tag idx key sess =>
    obtain rfl : j = j' := Option.some.inj (hpartner.symm.trans partner)
    have hstored := congrArg Binding.bindingTag hself
    have haKey := congrArg Binding.e2eKey hself
    rw [← hother]
    exact (congrArg (fun k => packetDeriveBindingTag P k _) haKey.symm).trans (tag.trans hstored)
  | mismatch j' partner tag =>
    have htag := hok rfl
    rw [hself, hother] at htag
    exact htag
  | alone partner =>
    rw [hpartner] at partner
    cases partner

/-- A step that restores the bindings was one that keeps them. -/
theorem GwInv.keeps_of_ok {s : GwState} (inv : GwInv P s) (a : GwAct)
    (hok : BindingOk P (gwStep P s a)) : KeepsBindings P s a := by
  cases gwStep_effect P s a with
  | sends out idle partnered view_eq epoch setup sent =>
    exact ⟨fun i master role takes => absurd takes (idle.2 i master role),
      fun i payload stores => absurd stores (idle.1 i payload)⟩
  | extended i master role takes idle view_eq epoch setup sent =>
    refine ⟨?_, fun i payload stores => absurd stores (idle i payload)⟩
    intro i' master' role' takes' k hk huse hrole hdone hbound
    obtain ⟨rfl, rfl, rfl⟩ := takes.unique takes'
    have hview := congrArg View.bindings view_eq
    rw [bindings_set, bindings_view, bindings_view] at hview
    have hkept := (congrFun hview k).trans (Function.update_of_ne hk _ _)
    have hnew := (congrFun hview i).trans (Function.update_self _ _ _)
    obtain ⟨j, hj, -, hroleB, -, hkey⟩ := hok k ((congrArg Binding.inUse hkept).trans huse)
      ((congrArg Binding.role hkept).trans hrole) ((congrArg Binding.setupDone hkept).trans hdone)
    obtain rfl : i = j :=
      Option.some.inj (hbound.symm.trans ((congrArg Binding.boundB hkept).symm.trans hj))
    exact ⟨(congrArg Binding.role hnew).symm.trans hroleB,
      (congrArg Binding.e2eKey hnew).symm.trans (hkey.trans (congrArg Binding.bKey hkept))⟩
  | setup i payload out stores idle slot tagged ends epoch setup sent =>
    refine ⟨fun i master role takes => absurd takes (idle i master role), ?_⟩
    intro i' payload' stores' hdone j hbound
    obtain ⟨rfl, rfl⟩ := stores.unique P stores'
    refine BindingInv.tag_of_end P (v := view s.table) inv.binds slot.2 hbound ends fun hv => ?_
    -- the tag was stored and nothing else changed: the new state must be in order
    have hself : bindings (gwStep P s a).table i
        = { bindings s.table i with bindingTag := setupTag payload } := by
      rw [← bindings_view, hv, setupView, bindings_set]
      exact Function.update_self _ _ _
    obtain ⟨j', hj', -, -, htag, -⟩ := hok i ((congrArg Binding.inUse hself).trans slot.1)
      ((congrArg Binding.role hself).trans slot.2) ((congrArg Binding.setupDone hself).trans hdone)
    obtain rfl : j = j' :=
      Option.some.inj (hbound.symm.trans ((congrArg Binding.boundB hself).symm.trans hj'))
    exact htag

/-- In every run of the gateway, all set-up sessions are bound to the receiving session they
proved, and every response is sent under a proved key, exactly if every step keeps the
bindings. -/
theorem binding_invariant_iff (acts : List GwAct) :
    Machine.Along (gwStep P) (fun s => BindingOk P s ∧ SentProved P s) acts GwState.initial ↔
      Machine.StepsMeet (gwStep P) (KeepsBindings P) acts GwState.initial :=
  Machine.along_iff_stepsMeet (gwStep P) (GwInv P) (fun _ inv => ⟨inv.bindingOk P, inv.sent⟩)
    (fun _ a inv hkeep => inv.step P a hkeep) (fun _ a inv hok => inv.keeps_of_ok P a hok.1)
    (GwInv.initial P)

/-- A payload as the last relay hands it over: its header blocks are used up. -/
def delivered (aKey : AesKey) (payload : List UInt8) (flags : UInt8) : WirePacket :=
  let path := { SphinxPath.sample with e2eKey := aKey, sgHint := packetDeriveSgHint P aKey }
  (Bytes.zero headerSize) ++ ((e2eSection P path payload flags (Bytes.zero _)).getD (Bytes.zero _))

/-- A SETUP payload with the tag of `aKey` and `bKey`. -/
def setupPayload (aKey bKey : AesKey) (recvBlind : Bytes (nPathHops * aesKeyLen)) :
    List UInt8 :=
  typeSetup :: recvBlind.toList ++ (packetDeriveBindingTag P aKey bKey).toList
    ++ (Bytes.zero ecPubkeyLen).toList ++ (addrPlain 9041).toList
    ++ (Bytes.zero returnHeaderSize).toList

/-- Session 0 proves that it owns session 1 and then, in a second SETUP, session 2. -/
def rebindRun : List GwAct :=
  let setup (b : Nat) : GwAct :=
    .receive (delivered .sample (sampleMaster 0)
      (setupPayload .sample (sampleMaster 0) (sampleMaster b) (Bytes.zero _)) pktReal)
      0 (Bytes.zero _) (Bytes.zero _)
  [.extend (sampleMaster 0) sessionRoleA 0, .extend (sampleMaster 1) sessionRoleB 0,
    .extend (sampleMaster 2) sessionRoleB 0, setup 1, setup 2]

def rebindEnd : GwState := Machine.run (gwStep .sample) rebindRun GwState.initial

/-- The session stays set up and bound to session 1, which its new tag does not verify. -/
theorem rebinding_breaks_binding :
    ((rebindEnd.table 0).setupDone = true ∧ (rebindEnd.table 0).boundB = some 1 ∧
      packetDeriveBindingTag .sample (rebindEnd.table 0).e2eKey (rebindEnd.table 1).e2eKey
        ≠ (rebindEnd.table 0).bindingTag) ∧
    ¬ Machine.Along (gwStep .sample) (fun s => BindingOk .sample s ∧ SentProved .sample s)
        rebindRun GwState.initial := by
  have hend : (rebindEnd.table 0).inUse = true ∧ (rebindEnd.table 0).role = sessionRoleA ∧
      (rebindEnd.table 0).setupDone = true ∧ (rebindEnd.table 0).boundB = some 1 ∧
      packetDeriveBindingTag .sample (rebindEnd.table 0).e2eKey (rebindEnd.table 1).e2eKey
        ≠ (rebindEnd.table 0).bindingTag := by decide +kernel
  obtain ⟨huse, hrole, hdone, hbound, htag⟩ := hend
  refine ⟨⟨hdone, hbound, htag⟩, fun h => ?_⟩
  obtain ⟨j, hj, -, -, hverifies, -⟩ := h.last.1 0 huse hrole hdone
  obtain rfl : (1 : Fin maxSessions) = j := Option.some.inj (hbound.symm.trans hj)
  exact htag hverifies

end AnonSecNet.Gateway
