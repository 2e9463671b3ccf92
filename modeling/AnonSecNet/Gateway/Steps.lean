import AnonSecNet.Gateway.Handlers

/-! What one step of the gateway does to bindings, blinding keys and the packets sent. -/
namespace AnonSecNet.Gateway
open Octets
variable (P : Primitives)

/-- What responses depend on: each slot's binding and return blinding keys. -/
abbrev View : Type := Fin maxSessions → Binding × (Fin nPathHops → AesKey)

def view (t : Table) : View := fun i => ((t i).toBinding, (t i).recvBlind)

def View.bindings (v : View) (i : Fin maxSessions) : Binding := (v i).1

theorem bindings_view (t : Table) : (view t).bindings = bindings t := rfl

theorem view_update {t : Table} {i : Fin maxSessions} {sess : SgSession}
    (hb : sess.toBinding = (t i).toBinding) (hr : sess.recvBlind = (t i).recvBlind) :
    view (Function.update t i sess) = view t := by
  funext j
  by_cases hj : j = i
  · subst hj
    simp [view, hb, hr]
  · simp [view, hj]

theorem view_set (t : Table) (i : Fin maxSessions) (sess : SgSession) :
    view (Function.update t i sess)
      = Function.update (view t) i (sess.toBinding, sess.recvBlind) := by
  funext j
  by_cases hj : j = i
  · subst hj
    simp [view]
  · simp [view, hj]

@[simp] theorem view_pin (t : Table) (i : Fin maxSessions) : view (pin t i) = view t :=
  view_update rfl rfl

@[simp] theorem view_unpin (t : Table) (i : Fin maxSessions) : view (unpin t i) = view t :=
  view_update rfl rfl

theorem view_sendResponse (t : Table) (i : Fin maxSessions) (reqHdr : ReturnHeader)
    (resp : List UInt8) (now : Nat) : view (sendResponse t i reqHdr resp now) = view t := by
  unfold sendResponse
  split
  · rfl
  · exact view_update rfl rfl

theorem view_pendingPop {t t' : Table} {i : Fin maxSessions} {maxAgeMs now : Nat}
    {e : Option PendingResp} (h : pendingPop t i maxAgeMs now = (e, t')) : view t' = view t := by
  unfold pendingPop at h
  split at h
  · cases h
    rfl
  · split at h
    · cases h
      rfl
    · cases h
      exact view_update rfl rfl

theorem findBForA_eq {t t' : Table} {i : Fin maxSessions} {j : Option (Fin maxSessions)}
    (h : findBForA P t i = (j, t')) : partnerOf P (bindings t) i = j ∧ view t' = view t := by
  unfold findBForA at h
  split at h
  · rename_i k hk
    cases h
    exact ⟨hk, view_pin t k⟩
  · rename_i hk
    cases h
    exact ⟨hk, rfl⟩

/-- The packet goes from a session to its partner, under the partner's key. -/
def Partnered (v : View) (e : Sending) : Prop :=
  ∃ j, partnerOf P v.bindings e.aIdx = some j ∧
    (e.sess.toBinding, e.sess.recvBlind) = v e.aIdx ∧ e.e2eKey = (v.bindings j).e2eKey

theorem partnered_sending {t t' : Table} {i j : Fin maxSessions} (hv : view t' = view t)
    (hj : partnerOf P (bindings t) i = some j) (hdr : ReturnHeader) (flags : UInt8)
    (resp : List UInt8) (gcmNonce : Bytes gcmNonceLen) :
    Partnered P (view t) (sending t' i j hdr flags resp gcmNonce) := by
  refine ⟨j, hj, congrFun hv i, ?_⟩
  exact congrArg (fun b => b.1.e2eKey) (congrFun hv j)

/-- The handlers that only send. -/
def OnlySends (t : Table) (out : Option Sending × Table) (i : Fin maxSessions) : Prop :=
  view out.2 = view t ∧ ∀ e, out.1 = some e → e.aIdx = i ∧ Partnered P (view t) e

theorem handleCover_onlySends (t : Table) (i : Fin maxSessions) (payload : List UInt8) (now : Nat)
    (junk : Bytes 32) (gcmNonce : Bytes gcmNonceLen) :
    OnlySends P t (handleCover P t i payload now junk gcmNonce) i := by
  unfold handleCover
  split
  · split
    · rename_i t' hfind
      exact ⟨(findBForA_eq P hfind).2, fun e he => by cases he⟩
    · rename_i j t' hfind
      obtain ⟨hj, hv⟩ := findBForA_eq P hfind
      split
      · rename_i p t'' hpop
        have hv' := (view_pendingPop hpop).trans hv
        refine ⟨(view_unpin _ _).trans hv', fun e he => ?_⟩
        cases he
        exact ⟨rfl, partnered_sending P hv' hj _ _ _ _⟩
      · rename_i t'' hpop
        have hv' := (view_pendingPop hpop).trans hv
        split
        · exact ⟨(view_unpin _ _).trans hv', fun e he => by cases he⟩
        · refine ⟨(view_unpin _ _).trans hv', fun e he => ?_⟩
          cases he
          exact ⟨rfl, partnered_sending P hv' hj _ _ _ _⟩
  · exact ⟨rfl, fun e he => by cases he⟩

theorem flushPending_onlySends (t : Table) (i : Fin maxSessions) (now : Nat)
    (gcmNonce : Bytes gcmNonceLen) : OnlySends P t (flushPending P t i now gcmNonce) i := by
  unfold flushPending
  split
  · split
    · rename_i t' hpop
      exact ⟨view_pendingPop hpop, fun e he => by cases he⟩
    · rename_i p t' hpop
      have hv := view_pendingPop hpop
      have hpin : bindings (pin t' i) = bindings t :=
        congrArg View.bindings ((view_pin t' i).trans hv)
      split
      · rename_i j t'' hfind
        obtain ⟨hj, hv'⟩ := findBForA_eq P hfind
        rw [hpin] at hj
        have hall := hv'.trans ((view_pin t' i).trans hv)
        refine ⟨by simp [hall], fun e he => ?_⟩
        cases he
        exact ⟨rfl, partnered_sending P hall hj _ _ _ _⟩
      · rename_i t'' hfind
        obtain ⟨-, hv'⟩ := findBForA_eq P hfind
        exact ⟨by simp [hv', hv], fun e he => by cases he⟩
  · exact ⟨rfl, fun e he => by cases he⟩

theorem view_beginRequest {t t' : Table} {i : Fin maxSessions} {payload : List UInt8}
    {r : Option Request} (h : beginRequest P t i payload = (r, t')) : view t' = view t := by
  unfold beginRequest at h
  split at h
  · split at h
    · rename_i t'' hfind
      cases h
      exact (findBForA_eq P hfind).2
    · rename_i j t'' hfind
      obtain ⟨-, hv⟩ := findBForA_eq P hfind
      split at h
      · cases h
        exact (view_unpin _ _).trans hv
      · cases h
        refine Eq.trans (view_update ?_ ?_) hv <;> rfl
  · cases h
    rfl

theorem view_finishRequest (t : Table) (r : Request) (resp : List UInt8) (now : Nat) :
    view (finishRequest t r resp now) = view t := by
  unfold finishRequest
  rw [view_unpin, view_unpin]
  split
  · rfl
  · exact view_sendResponse _ _ _ _ _

/-! A stored SETUP. -/

def setupBlind (payload : List UInt8) (hop : Fin nPathHops) : AesKey :=
  Bytes.fit aesKeyLen (payload.drop (1 + hop.val * aesKeyLen))

/-- The view after the store. -/
def setupView (v : View) (i : Fin maxSessions) (payload : List UInt8) : View :=
  Function.update v i ({ (v i).1 with bindingTag := setupTag payload }, setupBlind payload)

theorem view_storeSetup (t : Table) (i : Fin maxSessions) (payload : List UInt8) :
    view (Function.update t i (storeSetup (t i) payload)) = setupView (view t) i payload :=
  view_set _ _ _

/-- The three ways a stored SETUP ends: verified, which is acknowledged, contradicted by
the partner, or without a partner. -/
inductive SetupEnd (v : View) (i : Fin maxSessions) : Option Sending → View → Prop where
  | verified (j : Fin maxSessions) (e : Sending) (partner : partnerOf P v.bindings i = some j)
      (tag : packetDeriveBindingTag P (v i).1.e2eKey (v.bindings j).e2eKey = (v i).1.bindingTag)
      (idx : e.aIdx = i) (key : e.e2eKey = (v.bindings j).e2eKey)
      (sess : (e.sess.toBinding, e.sess.recvBlind)
        = ({ (v i).1 with bKey := (v.bindings j).e2eKey, setupDone := true, boundB := some j },
            (v i).2)) :
      SetupEnd v i (some e)
        (Function.update v i
          ({ (v i).1 with bKey := (v.bindings j).e2eKey, setupDone := true, boundB := some j },
            (v i).2))
  | mismatch (j : Fin maxSessions) (partner : partnerOf P v.bindings i = some j)
      (tag : packetDeriveBindingTag P (v i).1.e2eKey (v.bindings j).e2eKey ≠ (v i).1.bindingTag) :
      SetupEnd v i none v
  | alone (partner : partnerOf P v.bindings i = none) :
      SetupEnd v i none (Function.update v i ({ (v i).1 with setupDone := false }, (v i).2))

theorem verifySetup_end (t : Table) (i : Fin maxSessions) (gcmNonce : Bytes gcmNonceLen) :
    SetupEnd P (view t) i (verifySetup P t i gcmNonce).1 (view (verifySetup P t i gcmNonce).2) := by
  unfold verifySetup
  split
  · rename_i j t' hfind
    obtain ⟨hj, hv⟩ := findBForA_eq P hfind
    have hi : (t' i).toBinding = (t i).toBinding := congrArg Prod.fst (congrFun hv i)
    have hblind : (t' i).recvBlind = (t i).recvBlind := congrArg Prod.snd (congrFun hv i)
    have hkey : (t' j).e2eKey = (t j).e2eKey := congrArg (fun b => b.1.e2eKey) (congrFun hv j)
    have haKey : (t' i).e2eKey = (t i).e2eKey := congrArg Binding.e2eKey hi
    have htag : (t' i).bindingTag = (t i).bindingTag := congrArg Binding.bindingTag hi
    rw [haKey, hkey, htag]
    split
    · rename_i hverified
      have hset : view (Function.update t' i
            { t' i with bKey := (t j).e2eKey, setupDone := true, boundB := some j })
          = Function.update (view t) i
              ({ (t i).toBinding with bKey := (t j).e2eKey, setupDone := true, boundB := some j },
                (t i).recvBlind) := by
        rw [view_set, hv, ← hi, ← hblind]
      refine (congrArg (SetupEnd P (view t) i _) ((view_unpin _ _).trans hset)).mpr
        (.verified j _ hj hverified rfl ?_ ?_)
      · have hat := congrArg (fun b => b.1.e2eKey) (congrFun hset j)
        refine hat.trans ?_
        by_cases hji : j = i
        · subst hji
          simp [View.bindings, view]
        · simp [hji, View.bindings]
      · exact (congrFun hset i).trans (Function.update_self _ _ _)
    · rename_i hmismatch
      rw [view_unpin, hv]
      exact .mismatch j hj hmismatch
  · rename_i t' hfind
    obtain ⟨hj, hv⟩ := findBForA_eq P hfind
    have hi : (t' i).toBinding = (t i).toBinding := congrArg Prod.fst (congrFun hv i)
    have hblind : (t' i).recvBlind = (t i).recvBlind := congrArg Prod.snd (congrFun hv i)
    have hset : view (Function.update t' i { t' i with setupDone := false })
        = Function.update (view t) i
            ({ (t i).toBinding with setupDone := false }, (t i).recvBlind) := by
      rw [view_set, hv, ← hi, ← hblind]
    exact (congrArg (SetupEnd P (view t) i none) hset).mpr (.alone hj)

/-! One step. -/

/-- The action delivers a SETUP of full length for session `i`. -/
def StoresSetup (s : GwState) (a : GwAct) (i : Fin maxSessions) (payload : List UInt8) : Prop :=
  ∃ pkt now junk gcmNonce flags t, a = .receive pkt now junk gcmNonce ∧
    findASession P s.table pkt now = (some (i, payload, flags), t) ∧ isDummy flags = false ∧
    payload.head? = some typeSetup ∧ setupMinLen ≤ payload.length

theorem StoresSetup.unique {s : GwState} {a : GwAct} {i i' : Fin maxSessions}
    {payload payload' : List UInt8} (h : StoresSetup P s a i payload)
    (h' : StoresSetup P s a i' payload') : i = i' ∧ payload = payload' := by
  obtain ⟨pkt, now, junk, gcmNonce, flags, t, rfl, hfind, -⟩ := h
  obtain ⟨pkt', now', junk', gcmNonce', flags', t', ha, hfind', -⟩ := h'
  cases ha
  rw [hfind] at hfind'
  cases hfind'
  exact ⟨rfl, rfl⟩

/-- A new session took slot `i`. -/
def TakesSlot (s : GwState) (a : GwAct) (i : Fin maxSessions) (master : AesKey) (role : UInt8) :
    Prop := ∃ now, a = .extend master role now ∧ sessAlloc s.table now = some i

theorem TakesSlot.unique {s : GwState} {a : GwAct} {i i' : Fin maxSessions}
    {master master' : AesKey} {role role' : UInt8} (h : TakesSlot s a i master role)
    (h' : TakesSlot s a i' master' role') : i = i' ∧ master = master' ∧ role = role' := by
  obtain ⟨now, rfl, halloc⟩ := h
  obtain ⟨now', ha, halloc'⟩ := h'
  cases ha
  exact ⟨Option.some.inj (halloc.symm.trans halloc'), rfl, rfl⟩

/-- The effect of one step: at most a packet is sent, a new session takes a slot, or a
SETUP is stored. -/
inductive Effect (s : GwState) (a : GwAct) (s' : GwState) : Prop where
  | sends (out : Option Sending)
      (idle : (∀ i payload, ¬ StoresSetup P s a i payload) ∧
        ∀ i master role, ¬ TakesSlot s a i master role)
      (partnered : ∀ e, out = some e → Partnered P (view s.table) e)
      (view_eq : view s'.table = view s.table) (epoch : s'.epoch = s.epoch)
      (setup : s'.setup = s.setup)
      (sent : s'.sent = s.sent ++ out.toList.map fun e => ⟨e, s.epoch e.aIdx, s.setup e.aIdx⟩)
  | extended (i : Fin maxSessions) (master : AesKey) (role : UInt8)
      (takes : TakesSlot s a i master role)
      (idle : ∀ i payload, ¬ StoresSetup P s a i payload)
      (view_eq : view s'.table = Function.update (view s.table) i
        ({ zeroSession.toBinding with inUse := true, e2eKey := master, role := role },
          zeroSession.recvBlind))
      (epoch : s'.epoch = Function.update s.epoch i (s.epoch i + 1))
      (setup : s'.setup = Function.update s.setup i [])
      (sent : s'.sent = s.sent)
  | setup (i : Fin maxSessions) (payload : List UInt8) (out : Option Sending)
      (stores : StoresSetup P s a i payload)
      (idle : ∀ i master role, ¬ TakesSlot s a i master role)
      (slot : (s.table i).inUse = true ∧ (s.table i).role = sessionRoleA)
      (tagged : (findVerifiedB P (bindings s.table) (s.table i).e2eKey (setupTag payload) i).isSome)
      (ends : SetupEnd P (setupView (view s.table) i payload) i out (view s'.table))
      (epoch : s'.epoch = s.epoch)
      (setup : s'.setup = Function.update s.setup i payload)
      (sent : s'.sent = s.sent ++ out.toList.map fun e => ⟨e, s.epoch e.aIdx, s'.setup e.aIdx⟩)

/-- A step that sends nothing and leaves everything a response depends on. -/
theorem effect_quiet {s s' : GwState} {a : GwAct}
    (idle : (∀ i payload, ¬ StoresSetup P s a i payload) ∧
      ∀ i master role, ¬ TakesSlot s a i master role)
    (view_eq : view s'.table = view s.table) (epoch : s'.epoch = s.epoch)
    (setup : s'.setup = s.setup) (sent : s'.sent = s.sent) : Effect P s a s' :=
  .sends none idle (fun e he => by cases he) view_eq epoch setup (by simp [sent])

theorem effect_sentOut {s : GwState} {a : GwAct} {t : Table} {i : Fin maxSessions}
    {out : Option Sending × Table}
    (idle : (∀ i payload, ¬ StoresSetup P s a i payload) ∧
      ∀ i master role, ¬ TakesSlot s a i master role)
    (hv : view t = view s.table) (hout : OnlySends P t out i) (t' : Table)
    (ht' : view t' = view out.2) : Effect P s a (s.sentOut (out.1, t')) := by
  refine .sends out.1 idle (fun e he => ?_) (ht'.trans (hout.1.trans hv)) rfl rfl rfl
  rw [← hv]
  exact (hout.2 e he).2

theorem effect_receive (s : GwState) (pkt : WirePacket) (now : Nat) (junk : Bytes 32)
    (gcmNonce : Bytes gcmNonceLen) :
    Effect P s (.receive pkt now junk gcmNonce)
      (gwStep P s (.receive pkt now junk gcmNonce)) := by
  have hslot : ∀ i master role, ¬ TakesSlot s (.receive pkt now junk gcmNonce) i master role := by
    rintro i master role ⟨now', h, -⟩
    cases h
  simp only [gwStep]
  split
  · rename_i i payload flags t hfind
    obtain ⟨⟨huse, hrole, haccepts⟩, ht⟩ := findASession_eq_some P hfind
    have hv : view t = view s.table := by
      rw [ht, view_pin]
      exact view_update rfl rfl
    -- nothing else than a full SETUP of session `i` is stored
    have honly : ∀ {p : Prop}, (isDummy flags = false → payload.head? = some typeSetup →
        setupMinLen ≤ payload.length → p) →
        (∀ i payload, StoresSetup P s (.receive pkt now junk gcmNonce) i payload → p) := by
      rintro p hp i' payload' ⟨_, _, _, _, flags', t', ha, hfind', hflags, htype, hlen⟩
      cases ha
      rw [hfind] at hfind'
      cases hfind'
      exact hp hflags htype hlen
    unfold dispatch
    split
    · rename_i hdummy
      exact effect_sentOut P ⟨honly fun h _ _ => by simp [h] at hdummy, hslot⟩ hv
        (handleCover_onlySends P t i payload now junk gcmNonce) _ (view_unpin _ _)
    · rename_i hreal
      have hflags : isDummy flags = false := by simpa using hreal
      split
      · rename_i htype
        unfold handleSetup
        dsimp only
        split
        · rename_i hshort
          exact effect_quiet P ⟨honly fun _ _ h => by omega, hslot⟩ ((view_unpin _ _).trans hv)
            rfl rfl (by simp [GwState.sentOut])
        · rename_i hlong
          refine .setup i payload _ ⟨pkt, now, junk, gcmNonce, flags, t, rfl, hfind, hflags, htype,
            by omega⟩ hslot ⟨huse, hrole⟩ (accepts_setup P hflags htype haccepts) ?_ rfl rfl rfl
          have hend := verifySetup_end P (Function.update t i (storeSetup (t i) payload)) i gcmNonce
          rw [view_storeSetup, hv] at hend
          exact (view_unpin _ _).symm ▸ hend
      · rename_i htype
        have hidle := honly (p := False) fun _ h _ => htype h
        split
        · rename_i r t' hbegin
          exact effect_quiet P ⟨hidle, hslot⟩ ((view_beginRequest P hbegin).trans hv) rfl rfl rfl
        · rename_i t' hbegin
          exact effect_quiet P ⟨hidle, hslot⟩
            ((view_unpin _ _).trans ((view_beginRequest P hbegin).trans hv)) rfl rfl rfl
  · rename_i t hfind
    refine effect_quiet P ⟨?_, hslot⟩ (congrArg view (findASession_eq_none P hfind)) rfl rfl rfl
    rintro i payload ⟨_, _, _, _, flags, t', ha, hfind', -⟩
    cases ha
    rw [hfind] at hfind'
    cases hfind'

theorem gwStep_effect (s : GwState) (a : GwAct) : Effect P s a (gwStep P s a) := by
  cases a with
  | extend master role now =>
    have hidle : ∀ i payload, ¬ StoresSetup P s (.extend master role now) i payload := by
      rintro i payload ⟨_, _, _, _, _, _, h, -⟩
      cases h
    simp only [gwStep]
    split
    · rename_i hfull
      refine effect_quiet P ⟨hidle, ?_⟩ rfl rfl rfl rfl
      rintro i master' role' ⟨now', h, hsome⟩
      cases h
      rw [hfull] at hsome
      cases hsome
    · rename_i i halloc
      exact .extended i master role ⟨now, rfl, halloc⟩ hidle (view_set _ _ _) rfl rfl rfl
  | receive pkt now junk gcmNonce => exact effect_receive P s pkt now junk gcmNonce
  | reply k resp now =>
    have hidle : (∀ i payload, ¬ StoresSetup P s (.reply k resp now) i payload) ∧
        ∀ i master role, ¬ TakesSlot s (.reply k resp now) i master role := by
      constructor
      · rintro i payload ⟨_, _, _, _, _, _, h, -⟩
        cases h
      · rintro i master role ⟨_, h, -⟩
        cases h
    simp only [gwStep]
    split
    · exact effect_quiet P hidle (view_finishRequest _ _ _ _) rfl rfl rfl
    · exact effect_quiet P hidle rfl rfl rfl rfl
  | flush i now gcmNonce =>
    refine effect_sentOut P ?_ rfl (flushPending_onlySends P s.table i now gcmNonce) _ rfl
    constructor
    · rintro i payload ⟨_, _, _, _, _, _, h, -⟩
      cases h
    · rintro i master role ⟨_, h, -⟩
      cases h

end AnonSecNet.Gateway
