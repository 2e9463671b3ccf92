import AnonSecNet.Gateway.Binding
import AnonSecNet.KeyExchange

/-! The SETUP of a requester whose two sessions the gateway holds: it is acknowledged over the
header that it carries, and the sessions stay as the next SETUP needs them. -/
namespace AnonSecNet.Gateway
open Octets
variable (P : Primitives)

/-- The payload of a SETUP, as both programs build it:
`[type][blinding keys][binding tag][mnc_pubkey][mnc_addr][return_header]`. -/
def setupRequest (recvBlind : Fin nPathHops → AesKey) (tag : Mac) (pub : PubKey) (addr : Addr)
    (hdr : ReturnHeader) : List UInt8 :=
  typeSetup :: ((List.finRange nPathHops).flatMap (fun i => (recvBlind i).toList) ++
    (tag.toList ++ (pub.toList ++ (addr.toList ++ hdr.toList))))

section
variable (recvBlind : Fin nPathHops → AesKey) (tag : Mac) (pub : PubKey) (addr : Addr)
  (hdr : ReturnHeader)

theorem length_setupRequest : (setupRequest recvBlind tag pub addr hdr).length = setupMinLen := by
  simp [setupRequest, setupMinLen, List.finRange]

/-- A field of the payload, from what stands in front of it. -/
theorem fit_drop {n off : Nat} {l : List UInt8} {b : Bytes n} (front rest : List UInt8)
    (h : l = front ++ (b.toList ++ rest)) (hoff : front.length = off) :
    Bytes.fit n (l.drop off) = b := by
  rw [h, List.drop_left' hoff, Bytes.fit_append]

theorem setupTag_request : setupTag (setupRequest recvBlind tag pub addr hdr) = tag := by
  refine fit_drop (typeSetup :: (List.finRange nPathHops).flatMap fun i => (recvBlind i).toList) _
    rfl ?_
  simp [setupTagOff, List.finRange]

/-- What the gateway stores of it. -/
theorem storeSetup_request (sess : SgSession) :
    storeSetup sess (setupRequest recvBlind tag pub addr hdr)
      = { sess with
          recvBlind := recvBlind
          bindingTag := tag
          mncAddr := addr
          returnHdr := hdr } := by
  have hkeys : setupRequest recvBlind tag pub addr hdr = typeSetup :: ((recvBlind 0).toList ++
      ((recvBlind 1).toList ++ ((recvBlind 2).toList ++
        (tag.toList ++ (pub.toList ++ (addr.toList ++ hdr.toList)))))) := by
    simp [setupRequest, List.finRange]
  have hblind : (fun i : Fin nPathHops => Bytes.fit aesKeyLen
      ((setupRequest recvBlind tag pub addr hdr).drop (1 + i.val * aesKeyLen))) = recvBlind := by
    funext i
    rw [hkeys]
    rcases hop_cases i with rfl | rfl | rfl
    · exact fit_drop [typeSetup] _ rfl rfl
    · exact fit_drop (typeSetup :: (recvBlind 0).toList) _ rfl (by simp)
    · exact fit_drop (typeSetup :: ((recvBlind 0).toList ++ (recvBlind 1).toList)) _
        (by simp only [List.cons_append, List.append_assoc]; rfl) (by simp)
  have haddr : Bytes.fit addrBytes ((setupRequest recvBlind tag pub addr hdr).drop
      (setupTagOff + macBytes + ecPubkeyLen)) = addr := by
    refine fit_drop (typeSetup :: ((List.finRange nPathHops).flatMap (fun i =>
      (recvBlind i).toList) ++ (tag.toList ++ pub.toList))) hdr.toList ?_ ?_
    · simp only [setupRequest, List.cons_append, List.append_assoc]
    · simp [setupTagOff, List.finRange]
  have hhdr : Bytes.fit returnHeaderSize ((setupRequest recvBlind tag pub addr hdr).drop
      (setupTagOff + macBytes + ecPubkeyLen + addrBytes)) = hdr := by
    refine fit_drop (typeSetup :: ((List.finRange nPathHops).flatMap (fun i =>
      (recvBlind i).toList) ++ (tag.toList ++ (pub.toList ++ addr.toList)))) [] ?_ ?_
    · simp only [setupRequest, List.cons_append, List.append_assoc, List.append_nil]
    · simp [setupTagOff, List.finRange]
  unfold storeSetup
  rw [setupTag_request, haddr, hhdr, hblind]

end

/-- A SETUP with the tag of the two keys. -/
def SetupFor (aKey bKey : AesKey) (recvBlind : Fin nPathHops → AesKey) (hdr : ReturnHeader)
    (payload : List UInt8) : Prop :=
  ∃ pub addr, payload = setupRequest recvBlind (packetDeriveBindingTag P aKey bKey) pub addr hdr

/-- Where the gateway looks into it. -/
theorem SetupFor.fields {aKey bKey : AesKey} {recvBlind : Fin nPathHops → AesKey}
    {hdr : ReturnHeader} {payload : List UInt8} (h : SetupFor P aKey bKey recvBlind hdr payload) :
    payload.length = setupMinLen ∧ payload.head? = some typeSetup ∧
      packetType payload = some typeSetup ∧
      setupTag payload = packetDeriveBindingTag P aKey bKey := by
  obtain ⟨pub, addr, rfl⟩ := h
  refine ⟨length_setupRequest _ _ _ _ _, rfl, ?_, setupTag_request _ _ _ _ _⟩
  unfold setupRequest packetType
  exact if_pos rfl

/-! The two sessions. -/

/-- Slot `a` holds the requester's sending session and slot `b` its receiving one; no other sending
session has the hint, and no other receiving one its binding tag. -/
structure Registered (t : Table) (a b : Fin maxSessions) (aKey bKey : AesKey)
    (sgHint : Bytes sgHintBytes) : Prop where
  live : (t a).inUse = true
  role : (t a).role = sessionRoleA
  key : (t a).e2eKey = aKey
  hint : (t a).sgHint = sgHint
  alone : ∀ i, i ≠ a → (t i).inUse = true → (t i).role = sessionRoleA → (t i).sgHint ≠ sgHint
  liveB : (t b).inUse = true
  roleB : (t b).role = sessionRoleB
  keyB : (t b).e2eKey = bKey
  only : ∀ i, verifiesB P (bindings t) aKey (packetDeriveBindingTag P aKey bKey) a i → i = b
  bound : ∀ i, (t a).boundB = some i → i = b

/-- The slots are held by the same sessions. -/
def SameOwners (t t' : Table) : Prop :=
  ∀ i, (t' i).inUse = (t i).inUse ∧ (t' i).role = (t i).role ∧ (t' i).e2eKey = (t i).e2eKey ∧
    (t' i).sgHint = (t i).sgHint

theorem SameOwners.trans {t t' t'' : Table} (h : SameOwners t t') (h' : SameOwners t' t'') :
    SameOwners t t'' := by
  intro i
  obtain ⟨huse, hrole, hkey, hhint⟩ := h i
  obtain ⟨huse', hrole', hkey', hhint'⟩ := h' i
  exact ⟨huse'.trans huse, hrole'.trans hrole, hkey'.trans hkey, hhint'.trans hhint⟩

theorem sameOwners_update {t : Table} {i : Fin maxSessions} {sess : SgSession}
    (h : sess.inUse = (t i).inUse ∧ sess.role = (t i).role ∧ sess.e2eKey = (t i).e2eKey ∧
      sess.sgHint = (t i).sgHint) : SameOwners t (Function.update t i sess) := by
  intro j
  by_cases hj : j = i
  · subst hj
    rwa [Function.update_self]
  · rw [Function.update_of_ne hj]
    exact ⟨rfl, rfl, rfl, rfl⟩

theorem sameOwners_pin (t : Table) (i : Fin maxSessions) : SameOwners t (pin t i) :=
  sameOwners_update ⟨rfl, rfl, rfl, rfl⟩

theorem sameOwners_unpin (t : Table) (i : Fin maxSessions) : SameOwners t (unpin t i) :=
  sameOwners_update ⟨rfl, rfl, rfl, rfl⟩

section
variable {P} {t : Table} {a b : Fin maxSessions} {aKey bKey : AesKey} {sgHint : Bytes sgHintBytes}

theorem Registered.ne (h : Registered P t a b aKey bKey sgHint) : b ≠ a := by
  rintro rfl
  exact roleA_ne_roleB (h.role.symm.trans h.roleB)

theorem Registered.verifies (h : Registered P t a b aKey bKey sgHint) :
    verifiesB P (bindings t) aKey (packetDeriveBindingTag P aKey bKey) a b :=
  ⟨h.liveB, h.roleB, h.ne, congrArg (packetDeriveBindingTag P aKey) h.keyB⟩

theorem Registered.kept (h : Registered P t a b aKey bKey sgHint) {t' : Table}
    (hsame : SameOwners t t') (hbound : ∀ i, (t' a).boundB = some i → i = b) :
    Registered P t' a b aKey bKey sgHint where
  live := (hsame a).1.trans h.live
  role := (hsame a).2.1.trans h.role
  key := (hsame a).2.2.1.trans h.key
  hint := (hsame a).2.2.2.trans h.hint
  alone i hi huse hrole := by
    obtain ⟨huse', hrole', -, hhint'⟩ := hsame i
    rw [hhint']
    exact h.alone i hi (huse'.symm.trans huse) (hrole'.symm.trans hrole)
  liveB := (hsame b).1.trans h.liveB
  roleB := (hsame b).2.1.trans h.roleB
  keyB := (hsame b).2.2.1.trans h.keyB
  only i hi := by
    obtain ⟨huse', hrole', hkey', -⟩ := hsame i
    obtain ⟨huse, hrole, hne, htag⟩ := hi
    refine h.only i ⟨huse'.symm.trans huse, hrole'.symm.trans hrole, hne, ?_⟩
    exact (congrArg (packetDeriveBindingTag P aKey) hkey').symm.trans htag
  bound := hbound

theorem Registered.partner (h : Registered P t a b aKey bKey sgHint)
    (htag : (t a).bindingTag = packetDeriveBindingTag P aKey bKey) :
    partnerOf P (bindings t) a = some b := by
  cases hbound : (t a).boundB with
  | none =>
    rw [partnerOf_of_unbound P hbound]
    change findVerifiedB P (bindings t) (t a).e2eKey (t a).bindingTag a = some b
    rw [h.key, htag]
    exact findVerifiedB_of_only P h.verifies h.only
  | some j =>
    obtain rfl := h.bound j hbound
    exact partnerOf_of_bound P hbound ⟨h.liveB, h.roleB⟩

section
variable {recvBlind : Fin nPathHops → AesKey} {hdr : ReturnHeader} {payload : List UInt8}

theorem Registered.accepts (h : Registered P t a b aKey bKey sgHint)
    (hsetup : SetupFor P aKey bKey recvBlind hdr payload) :
    accepts P t a payload pktReal = true := by
  obtain ⟨hlen, -, htype, htag⟩ := hsetup.fields
  unfold Gateway.accepts
  rw [if_neg (by decide), htype]
  dsimp only
  rw [if_pos rfl, htag, h.key, findVerifiedB_of_only P h.verifies h.only, hlen]
  rfl

/-- The SETUP is found to be the requester's. -/
theorem Registered.find (h : Registered P t a b aKey bKey sgHint)
    (hsetup : SetupFor P aKey bKey recvBlind hdr payload) {pkt : WirePacket}
    (hhint : pkt.read (wirePacketSize - sgHintBytes) sgHintBytes = sgHint)
    (hunwrap : packetSphinxUnwrap P pkt aKey = some (payload, pktReal)) (now : Nat) :
    findASession P t pkt now = (some (a, payload, pktReal),
      pin (Function.update t a { t a with lastActiveMs := now }) a) := by
  refine findASession_of_alone P h.live h.role (h.hint.trans hhint.symm) ?_ ?_
    (h.accepts hsetup) now
  · rw [h.hint]
    exact h.alone
  · rw [h.key]
    exact hunwrap

end

/-- The stored SETUP is verified and acknowledged. -/
theorem Registered.verified (h : Registered P t a b aKey bKey sgHint)
    (htag : (t a).bindingTag = packetDeriveBindingTag P aKey bKey) (gcmNonce : Bytes gcmNonceLen) :
    ∃ e t', verifySetup P t a gcmNonce = (some e, t') ∧
      e.packet P = sendResponseEx P (t a).recvBlind bKey (t a).returnHdr pktReal setupOk gcmNonce ∧
      Registered P t' a b aKey bKey sgHint := by
  have hpinA : pin t b a = t a := Function.update_of_ne h.ne.symm _ _
  have hpinB : (pin t b b).e2eKey = bKey := by
    rw [pin, Function.update_self]
    exact h.keyB
  have hset : SameOwners t (Function.update (pin t b) a
      { t a with bKey := bKey, setupDone := true, boundB := some b }) :=
    (sameOwners_pin t b).trans (sameOwners_update (by rw [hpinA]; exact ⟨rfl, rfl, rfl, rfl⟩))
  have hverifies : packetDeriveBindingTag P (t a).e2eKey bKey = (t a).bindingTag := by
    rw [h.key, htag]
  unfold verifySetup findBForA
  rw [h.partner htag]
  dsimp only
  rw [hpinA, hpinB, if_pos hverifies]
  refine ⟨_, _, rfl, ?_, h.kept (hset.trans (sameOwners_unpin _ b)) ?_⟩
  · simp only [Sending.packet, sending, Function.update_self, Function.update_of_ne h.ne, hpinB]
  · intro i hi
    simp only [unpin, Function.update_of_ne h.ne.symm, Function.update_self] at hi
    exact (Option.some.inj hi).symm

/-- A session that was found is the requester's still. -/
theorem Registered.touched (h : Registered P t a b aKey bKey sgHint) (now : Nat) :
    Registered P (pin (Function.update t a { t a with lastActiveMs := now }) a) a b aKey bKey
      sgHint := by
  have hstamped : SameOwners t (Function.update t a { t a with lastActiveMs := now }) :=
    sameOwners_update ⟨rfl, rfl, rfl, rfl⟩
  refine h.kept (hstamped.trans (sameOwners_pin _ a)) fun i hi => h.bound i ?_
  simpa only [pin, Function.update_self] using hi

theorem Registered.stored (h : Registered P t a b aKey bKey sgHint) (payload : List UInt8) :
    Registered P (Function.update t a (storeSetup (t a) payload)) a b aKey bKey sgHint := by
  refine h.kept (sameOwners_update ⟨rfl, rfl, rfl, rfl⟩) ?_
  rw [Function.update_self]
  exact h.bound

/-- A SETUP of the requester is acknowledged over its own return header. -/
theorem Registered.acknowledged {s : GwState} (h : Registered P s.table a b aKey bKey sgHint)
    {recvBlind : Fin nPathHops → AesKey} {hdr : ReturnHeader} {payload : List UInt8}
    (hsetup : SetupFor P aKey bKey recvBlind hdr payload) {pkt : WirePacket}
    (hhint : pkt.read (wirePacketSize - sgHintBytes) sgHintBytes = sgHint)
    (hunwrap : packetSphinxUnwrap P pkt aKey = some (payload, pktReal))
    (now : Nat) (junk : Bytes 32) (gcmNonce : Bytes gcmNonceLen) :
    ∃ e, (gwStep P s (.receive pkt now junk gcmNonce)).sent = s.sent ++ [e] ∧
      e.packet P = sendResponseEx P recvBlind bKey hdr pktReal setupOk gcmNonce ∧
      Registered P (gwStep P s (.receive pkt now junk gcmNonce)).table a b aKey bKey sgHint := by
  have hfind := h.find hsetup hhint hunwrap now
  have htouched := h.touched now
  generalize pin (Function.update s.table a { s.table a with lastActiveMs := now }) a = t
    at hfind htouched
  obtain ⟨hlen, hhead, -, htag⟩ := hsetup.fields
  obtain ⟨e, t', hverify, hpacket, hreg⟩ := (htouched.stored payload).verified
    (by rw [Function.update_self]; exact htag) gcmNonce
  have hfields : (storeSetup (t a) payload).recvBlind = recvBlind ∧
      (storeSetup (t a) payload).returnHdr = hdr := by
    obtain ⟨pub, addr, rfl⟩ := hsetup
    rw [storeSetup_request]
    exact ⟨rfl, rfl⟩
  rw [Function.update_self, hfields.1, hfields.2] at hpacket
  have hhandle : handleSetup P t a payload gcmNonce = (some e, t') := by
    unfold handleSetup
    rw [if_neg (by omega)]
    exact hverify
  have hstep : gwStep P s (.receive pkt now junk gcmNonce)
      = { s with setup := Function.update s.setup a payload }.sentOut
          (some e, unpin t' a) := by
    simp only [gwStep, hfind]
    unfold dispatch
    rw [if_neg (by decide), if_pos hhead, hhandle]
    dsimp only
    rw [if_neg (by omega)]
  rw [hstep]
  refine ⟨_, rfl, hpacket, hreg.kept (sameOwners_unpin _ a) fun i hi => hreg.bound i ?_⟩
  simpa only [GwState.sentOut, unpin, Function.update_self] using hi

end

end AnonSecNet.Gateway
