import AnonSecNet.Tor.Sessions

/-! Many circuits over the same three relays. A payload finds its way by the hints in its layers; on
the way back each relay sends the hint of its own session, which the next one does not know. -/
namespace AnonSecNet.Tor
open Octets Buffers Machine
variable (P : Primitives)

/-! A cell sees one session of the table. -/

section
variable {P} {sessions sessions' : List TorSession} {hint : List UInt8}

theorem readCell_congr (hlen : hint.length = torHintBytes)
    (h : sessionFind sessions hint = sessionFind sessions' hint) (rest : List UInt8) :
    readCell P sessions (hint ++ rest) = readCell P sessions' (hint ++ rest) := by
  unfold readCell
  rw [recvAll_append hlen]
  dsimp only
  rw [h]

theorem sessionFind_alone {sess : TorSession} (h : sessionFind sessions hint = some sess) :
    sessionFind [sess] hint = some sess := by
  have hsess := List.find?_some h
  exact List.find?_cons_of_pos hsess

theorem handleConnection_alone {sess : TorSession} (w : World)
    (h : sessionFind sessions hint = some sess) (hlen : hint.length = torHintBytes) (myPort : Nat)
    (nonce : Bytes gcmNonceLen) (rest : List UInt8) :
    handleConnection P w sessions myPort nonce (torModeData :: (hint ++ rest))
      = handleConnection P w [sess] myPort nonce (torModeData :: (hint ++ rest)) := by
  unfold handleConnection handleData
  dsimp only
  rw [if_pos rfl, if_pos rfl, readCell_congr hlen (h.trans (sessionFind_alone h).symm)]

theorem onlySession_alone (hop : Hop) : OnlySession [⟨hop.hint, hop.key, true⟩] hop :=
  ⟨[], [], rfl, fun _ h => absurd h List.not_mem_nil⟩

/-- A relay puts the layer of the session it finds around a response, and that session's hint in
front. -/
theorem handleConnection_reply (w : World) {sess : TorSession} {data : List UInt8}
    (hsess : responseSession sessions hint = some sess) (hhint : hint.length = torHintBytes)
    (hdata : 0 < data.length) (hmax : data.length ≤ torMaxCellSize) (myPort : Nat)
    (hconnects : w.connects (responsePort myPort) = true) (nonce : Bytes gcmNonceLen) :
    ∃ enc, cryptoAesEncrypt P sess.sessionKey nonce data (data.length + gcmOverhead) = some enc ∧
      handleConnection P w sessions myPort nonce
          (torModeResponse :: (hint ++ bigEndianList 2 data.length ++ data))
        = .ok [(responsePort myPort,
          torModeResponse :: (sess.hint.toList ++ bigEndianList 2 enc.1.length ++ enc.1))] := by
  obtain ⟨enc, henc, hsend⟩ := sendResponse_eq P w sess nonce data (responsePort myPort)
  rw [if_pos hconnects] at hsend
  refine ⟨enc, henc, ?_⟩
  unfold handleConnection
  dsimp only
  rw [if_neg (by decide), if_pos rfl]
  unfold handleResponse
  rw [List.append_assoc, recvAll_append hhint]
  dsimp only
  rw [recvAll_append (length_bigEndianList 2 data.length)]
  dsimp only
  rw [valueList_two (hmax.trans_lt (by decide)), if_neg (by omega), malloc_eq rfl, ok_bind,
    recvAll_all]
  dsimp only
  rw [hsess]
  exact hsend

end

/-! The session a response gets. -/

section
variable {t : TorTable}

theorem TorTable.sessions_eq (t : TorTable) :
    t.sessions = (t 0).toTorSession :: List.ofFn fun i : Fin 2047 => (t i.succ).toTorSession := by
  unfold TorTable.sessions
  exact List.ofFn_succ

theorem TorTable.exists_slot (t : TorTable) {sess : TorSession} (h : sess ∈ t.sessions) :
    ∃ i, (t i).toTorSession = sess := by
  unfold TorTable.sessions at h
  exact List.mem_ofFn.mp h

theorem TorTable.Packed.first_inUse (h : t.Packed)
    (hused : ∃ sess ∈ t.sessions, sess.inUse = true) : (t 0).inUse = true := by
  obtain ⟨sess, hsess, huse⟩ := hused
  obtain ⟨i, rfl⟩ := t.exists_slot hsess
  by_cases hi : i = 0
  · exact hi ▸ huse
  · exact h i 0 (Fin.pos_of_ne_zero hi) huse

/-- The session that is taken for one that is not known: the first slot's. -/
theorem TorTable.Packed.responseSession (h : t.Packed) {hint : List UInt8}
    (hunknown : ∀ sess ∈ t.sessions, sess.inUse = true → sess.hint.toList ≠ hint)
    (hused : ∃ sess ∈ t.sessions, sess.inUse = true) :
    responseSession t.sessions hint = some (t 0).toTorSession := by
  have hnone : sessionFind t.sessions hint = none := by
    refine List.find?_eq_none.mpr fun sess hsess htrue => ?_
    rw [Bool.and_eq_true, decide_eq_true_iff] at htrue
    exact hunknown sess hsess htrue.1 htrue.2
  unfold Tor.responseSession
  rw [hnone]
  dsimp only
  rw [t.sessions_eq]
  exact List.find?_cons_of_pos (h.first_inUse hused)

end

/-! What the client makes of it. -/

/-- What is sealed with the other key does not open. -/
def Rejects (own other : AesKey) : Prop :=
  other ≠ own → ∀ nonce m, P.gcmOpen own nonce (P.gcmSeal other nonce m).1
    (P.gcmSeal other nonce m).2 = none

section
variable {P} {hops : Fin torMaxHops → Hop}

theorem decrypt_or_none {own other : AesKey} (h : Rejects P own other) {nonce : Bytes gcmNonceLen}
    {m : List UInt8} {size : Nat} {enc : { c : List UInt8 // c.length ≤ size }}
    (henc : cryptoAesEncrypt P other nonce m size = some enc) :
    cryptoAesDecrypt P own enc.1 enc.1.length = if other = own then some m else none := by
  have hlen := length_cryptoAesEncrypt P henc
  split
  · rename_i heq
    rw [← heq]
    exact cryptoAesDecrypt_encrypt P henc (by omega)
  · rename_i hne
    rw [cryptoAesDecrypt_sealed P henc (by omega)]
    exact h hne nonce m

theorem responseListener_peels {hint enc : List UInt8} (hhint : hint.length = torHintBytes)
    (hlen : enc.length < 65536) :
    responseListener P hops (torModeResponse :: (hint ++ bigEndianList 2 enc.length ++ enc))
      = peelResponse P hops enc torCellPayload := by
  have hmode : ∀ rest, recvAll 1 ([torModeResponse] ++ rest) = some ([torModeResponse], rest) :=
    recvAll_append rfl
  unfold responseListener
  rw [← List.singleton_append, hmode, Option.bind_eq_bind, Option.bind_some]
  dsimp only
  rw [List.append_assoc, recvAll_append hhint, Option.bind_some]
  dsimp only
  rw [recvAll_append (length_bigEndianList 2 enc.length), Option.bind_some]
  dsimp only
  rw [valueList_two hlen, recvAll_all, Option.bind_some]

/-- Three layers come off if the outer two were put on under the client's keys. -/
theorem peelResponse_layers {text r3 : List UInt8} {k2 k1 : AesKey}
    {n2 n1 : Bytes gcmNonceLen} {size2 size1 : Nat}
    {r2 : { c : List UInt8 // c.length ≤ size2 }} {r1 : { c : List UInt8 // c.length ≤ size1 }}
    (echo3 : Layer P (hops 2) text r3) (h2 : cryptoAesEncrypt P k2 n2 r3 size2 = some r2)
    (h1 : cryptoAesEncrypt P k1 n1 r2.1 size1 = some r1) (hreject2 : Rejects P (hops 1).key k2)
    (hreject1 : Rejects P (hops 0).key k1) (hroom : text.length ≤ torCellPayload) :
    peelResponse P hops r1.1 torCellPayload
      = if k1 = (hops 0).key ∧ k2 = (hops 1).key then some text else none := by
  have hlast : peelLayers P [hops 2] r3 = some text := by
    rw [peelLayers_cons P echo3]
    rfl
  have hpeel : peelLayers P (List.ofFn hops) r1.1
      = if k1 = (hops 0).key ∧ k2 = (hops 1).key then some text else none := by
    change (cryptoAesDecrypt P (hops 0).key r1.1 r1.1.length).bind
      (fun pt => (cryptoAesDecrypt P (hops 1).key pt pt.length).bind (peelLayers P [hops 2])) = _
    rw [decrypt_or_none hreject1 h1]
    by_cases hk1 : k1 = (hops 0).key
    · rw [if_pos hk1, Option.bind_some, decrypt_or_none hreject2 h2]
      by_cases hk2 : k2 = (hops 1).key
      · rw [if_pos hk2, if_pos ⟨hk1, hk2⟩, Option.bind_some, hlast]
      · rw [if_neg hk2, if_neg fun h => hk2 h.2]
        rfl
    · rw [if_neg hk1, if_neg fun h => hk1 h.1]
      rfl
  unfold peelResponse
  rw [hpeel, Option.bind_eq_bind]
  split
  · rw [Option.bind_some, if_neg (Nat.not_lt.mpr hroom)]
  · rfl

end

/-- The table of a relay that has done this. -/
def tableAfter (as : List TorAct) : TorTable := (run torStep as .initial).table

/-- The session is found under its hint. -/
def Holds (t : TorTable) (hop : Hop) : Prop :=
  sessionFind t.sessions hop.hint.toList = some ⟨hop.hint, hop.key, true⟩

theorem Holds.mem {t : TorTable} {hop : Hop} (h : Holds t hop) :
    (⟨hop.hint, hop.key, true⟩ : TorSession) ∈ t.sessions := by
  unfold Holds sessionFind at h
  exact List.mem_of_find?_eq_some h

/-- A payload reaches the gateway whole, and its echo comes back exactly if the circuit has the
first slot of the table at TN1 and TN2. -/
theorem circuit_reply {forth back : Fin torMaxHops → List TorAct}
    {hops : Fin torMaxHops → Hop} (hforth : ∀ i, Holds (tableAfter (forth i)) (hops i))
    (hback : ∀ i, Holds (tableAfter (back i)) (hops i))
    (hexit : ∀ sess ∈ (tableAfter (back 1)).sessions, sess.inUse = true →
      sess.hint ≠ (hops 2).hint)
    (hmiddle : ∀ sess ∈ (tableAfter (back 0)).sessions, sess.inUse = true →
      sess.hint ≠ (tableAfter (back 1) 0).hint)
    (hreject : ∀ i : Fin torMaxHops, Rejects P (hops i).key (tableAfter (back i) 0).sessionKey)
    {payload : List UInt8} (hmax : payload.length ≤ torMaxPayload) (hnul : 0 ∉ payload)
    (nonce out ret : Fin torMaxHops → Bytes gcmNonceLen) :
    ∃ wire cell2 cell3 request resp2 resp1 resp0,
      buildForwardCell P hops nonce payload (torMaxCellSize + 256) = some wire ∧
      handleConnection P circuitWorld (tableAfter (forth 0)).sessions torPortTn1 (out 0)
        (torModeData :: wire) = .ok [(torPortTn2, cell2)] ∧
      handleConnection P circuitWorld (tableAfter (forth 1)).sessions torPortTn2 (out 1) cell2
        = .ok [(torPortTn3, cell3)] ∧
      handleConnection P circuitWorld (tableAfter (forth 2)).sessions torPortTn3 (out 2) cell3
        = .ok [(torPortSg, request), (torPortTn2, resp2)] ∧
      sgReceive request = some payload ∧
      handleConnection P circuitWorld (tableAfter (back 1)).sessions torPortTn2 (ret 1) resp2
        = .ok [(torPortTn1, resp1)] ∧
      handleConnection P circuitWorld (tableAfter (back 0)).sessions torPortTn1 (ret 0) resp1
        = .ok [(torPortClient, resp0)] ∧
      responseListener P hops resp0 =
        if (tableAfter (back 0) 0).sessionKey = (hops 0).key ∧
            (tableAfter (back 1) 0).sessionKey = (hops 1).key
        then some (sgEchoPrefix ++ payload) else none := by
  have hpayload : payload.length ≤ 886 := hmax
  have hecho : (sgEchoPrefix ++ payload).length = 9 + payload.length := by
    rw [List.length_append, length_sgEchoPrefix]
  have hroom : (sgEchoPrefix ++ payload).length < torCellPayload :=
    lt_of_le_of_lt (show _ ≤ 895 by omega) (by decide)
  have hfits : ∀ {n}, n ≤ 1162 → n ≤ torMaxCellSize := fun h => h
  obtain ⟨l3, l2, l1, layer3, layer2, layer1, hl3, hl2, hl1, hwire⟩ :=
    buildForwardCell_eq P hmax nonce
  -- Forth: each relay goes by the hint that the cell carries.
  have hfirst := handleConnection_forward circuitWorld (onlySession_alone (hops 0)) layer1 hl1
    (by decide) (by decide) rfl torPortTn1 (out 0)
  have hsecond := handleConnection_forward circuitWorld (onlySession_alone (hops 1)) layer2 hl2
    (by decide) (by decide) rfl torPortTn2 (out 1)
  obtain ⟨r3, echo3, hlast⟩ := handleConnection_exit P (onlySession_alone (hops 2)) layer3 hl3 hnul
    hroom torPortTn3 (out 2)
  rw [List.append_assoc, ← handleConnection_alone circuitWorld (hforth 0) (hops 0).hint.length_eq,
    ← List.append_assoc] at hfirst
  rw [List.append_assoc, ← handleConnection_alone circuitWorld (hforth 1) (hops 1).hint.length_eq,
    ← List.append_assoc] at hsecond
  rw [List.append_assoc (hops 2).hint.toList (bigEndianList 2 l3.length),
    ← handleConnection_alone circuitWorld (hforth 2) (hops 2).hint.length_eq,
    ← List.append_assoc] at hlast
  -- Back: the hint of the last relay is not known to the one before it, and so on.
  have hr3 : r3.length = (sgEchoPrefix ++ payload).length + 28 := echo3.length
  have hsess2 : responseSession (tableAfter (back 1)).sessions (hops 2).hint.toList
      = some (tableAfter (back 1) 0).toTorSession :=
    (torRun_packed (back 1)).responseSession
      (fun sess hsess huse heq => hexit sess hsess huse (Bytes.ext heq)) ⟨_, (hback 1).mem, rfl⟩
  have hsess1 : responseSession (tableAfter (back 0)).sessions (tableAfter (back 1) 0).hint.toList
      = some (tableAfter (back 0) 0).toTorSession :=
    (torRun_packed (back 0)).responseSession
      (fun sess hsess huse heq => hmiddle sess hsess huse (Bytes.ext heq)) ⟨_, (hback 0).mem, rfl⟩
  have hmax3 : r3.length ≤ torMaxCellSize := hfits (by omega)
  obtain ⟨r2, henc2, hback2⟩ := handleConnection_reply (P := P) circuitWorld hsess2
    (hops 2).hint.length_eq (by omega) hmax3 torPortTn2 rfl (ret 1)
  have hr2 : r2.1.length = r3.length + 28 := length_cryptoAesEncrypt P henc2
  have hmax2 : r2.1.length ≤ torMaxCellSize := hfits (by omega)
  obtain ⟨r1, henc1, hback1⟩ := handleConnection_reply (P := P) circuitWorld hsess1
    (tableAfter (back 1) 0).hint.length_eq (by omega) hmax2 torPortTn1 rfl (ret 0)
  have hr1 : r1.1.length = r2.1.length + 28 := length_cryptoAesEncrypt P henc1
  refine ⟨_, _, _, _, _, _, _, hwire, hfirst, hsecond, hlast,
    sgReceive_request (hpayload.trans (by decide)), hback2, hback1, ?_⟩
  rw [responseListener_peels (tableAfter (back 0) 0).hint.length_eq (by omega),
    peelResponse_layers echo3 henc2 henc1 (hreject 1) (hreject 0) hroom.le]

/-- However the threads of the relays are mixed: once a circuit has the first slots, it is the only
one that gets answers. The payload of any other circuit reaches the gateway whole, and the echo
comes back sealed with the first circuit's keys. -/
theorem only_first_circuit_answered {first hops : Fin torMaxHops → Hop}
    {early late forth : Fin torMaxHops → List TorAct}
    (hfirst : ∀ i, (run torStep (early i) .initial).Settled 0 ⟨(first i).hint, (first i).key, true⟩)
    (hroomy : ∀ i, StepsMeet torStep TorRelay.Roomy (late i) (run torStep (early i) .initial))
    (hforth : ∀ i, Holds (tableAfter (forth i)) (hops i))
    (hback : ∀ i, Holds (tableAfter (early i ++ late i)) (hops i))
    (hexit : ∀ sess ∈ (tableAfter (early 1 ++ late 1)).sessions, sess.inUse = true →
      sess.hint ≠ (hops 2).hint)
    (hmiddle : ∀ sess ∈ (tableAfter (early 0 ++ late 0)).sessions, sess.inUse = true →
      sess.hint ≠ (first 1).hint)
    (hreject : ∀ i : Fin torMaxHops, Rejects P (hops i).key (first i).key)
    {payload : List UInt8} (hmax : payload.length ≤ torMaxPayload) (hnul : 0 ∉ payload)
    (nonce out ret : Fin torMaxHops → Bytes gcmNonceLen) :
    ∃ wire cell2 cell3 request resp2 resp1 resp0,
      buildForwardCell P hops nonce payload (torMaxCellSize + 256) = some wire ∧
      handleConnection P circuitWorld (tableAfter (forth 0)).sessions torPortTn1 (out 0)
        (torModeData :: wire) = .ok [(torPortTn2, cell2)] ∧
      handleConnection P circuitWorld (tableAfter (forth 1)).sessions torPortTn2 (out 1) cell2
        = .ok [(torPortTn3, cell3)] ∧
      handleConnection P circuitWorld (tableAfter (forth 2)).sessions torPortTn3 (out 2) cell3
        = .ok [(torPortSg, request), (torPortTn2, resp2)] ∧
      sgReceive request = some payload ∧
      handleConnection P circuitWorld (tableAfter (early 1 ++ late 1)).sessions torPortTn2 (ret 1)
        resp2 = .ok [(torPortTn1, resp1)] ∧
      handleConnection P circuitWorld (tableAfter (early 0 ++ late 0)).sessions torPortTn1 (ret 0)
        resp1 = .ok [(torPortClient, resp0)] ∧
      responseListener P hops resp0 =
        if (first 0).key = (hops 0).key ∧ (first 1).key = (hops 1).key
        then some (sgEchoPrefix ++ payload) else none := by
  have hstays : ∀ i, (tableAfter (early i ++ late i) 0).toTorSession
      = ⟨(first i).hint, (first i).key, true⟩ := by
    intro i
    have hsession := (session_stays (hfirst i) (hroomy i)).session
    rwa [← run_append] at hsession
  have hkey : ∀ i, (tableAfter (early i ++ late i) 0).sessionKey = (first i).key :=
    fun i => congrArg (fun sess : TorSession => sess.sessionKey) (hstays i)
  have hhint : (tableAfter (early 1 ++ late 1) 0).hint = (first 1).hint :=
    congrArg (fun sess : TorSession => sess.hint) (hstays 1)
  have hreply := circuit_reply P hforth hback hexit (hhint ▸ hmiddle)
    (fun i => (hkey i).symm ▸ hreject i) hmax hnul nonce out ret
  rw [hkey, hkey] at hreply
  exact hreply

/-! Two circuits. -/

def laterHops (i : Fin torMaxHops) : Hop :=
  ⟨Bytes.fit 32 [UInt8.ofNat (i + 10)], Bytes.fit 16 [UInt8.ofNat (i + 10)]⟩

def extendActs (hop : Hop) : List TorAct := [.extend 0 hop 0, .fill 0, .fill 0, .fill 0]

/-- At each relay one circuit is built after the other. -/
def twoExtends (i : Fin torMaxHops) : List TorAct :=
  extendActs (sampleHops i) ++ extendActs (laterHops i)

def twoSlots (i : Fin torMaxHops) : TorTable :=
  Function.update (Function.update (fun _ => TorSlot.zero) 0 (extendedSlot (sampleHops i) 0 0)) 1
    (extendedSlot (laterHops i) 0 0)

theorem twoSlots_one (i : Fin torMaxHops) : twoSlots i 1 = extendedSlot (laterHops i) 0 0 :=
  Function.update_self _ _ _

theorem twoSlots_zero (i : Fin torMaxHops) : twoSlots i 0 = extendedSlot (sampleHops i) 0 0 := by
  have hne : (0 : Fin torMaxSessions) ≠ 1 := by decide
  exact (Function.update_of_ne hne _ _).trans (Function.update_self _ _ _)

theorem run_first (i : Fin torMaxHops) : run torStep (extendActs (sampleHops i)) .initial
    = TorRelay.initial.setSlot 0 (extendedSlot (sampleHops i) 0 0) := by
  have halloc : torSessionAlloc TorRelay.initial.table TorRelay.initial.now = some 0 := by
    unfold torSessionAlloc
    exact Slots.alloc_free rfl fun j hj => absurd hj (Fin.not_lt_zero j)
  exact extend_whole rfl halloc (sampleHops i) 0

theorem second_free (i : Fin torMaxHops) :
    ((TorRelay.initial.setSlot 0 (extendedSlot (sampleHops i) 0 0)).table 1).inUse = false := by
  have hne : (1 : Fin torMaxSessions) ≠ 0 := by decide
  let first := extendedSlot (sampleHops i) 0 0
  change (Function.update TorRelay.initial.table 0 first 1).inUse = false
  rw [Function.update_of_ne hne]
  rfl

theorem tableAfter_two (i : Fin torMaxHops) : tableAfter (twoExtends i) = twoSlots i := by
  let first := extendedSlot (sampleHops i) 0 0
  have halloc : torSessionAlloc (TorRelay.initial.setSlot 0 first).table TorRelay.initial.now
      = some 1 := by
    unfold torSessionAlloc
    refine Slots.alloc_free (second_free i) ?_
    intro j hj
    have hzero : j = 0 := Fin.ext (Nat.lt_one_iff.mp hj)
    change (Function.update TorRelay.initial.table 0 first j).inUse = true
    rw [hzero, Function.update_self]
    rfl
  unfold tableAfter twoExtends
  rw [run_append, run_first]
  exact congrArg TorRelay.table (extend_whole rfl halloc (laterHops i) 0)

theorem twoSlots_inUse {i : Fin torMaxHops} {sess : TorSession}
    (h : sess ∈ (tableAfter (twoExtends i)).sessions) (huse : sess.inUse = true) :
    sess.hint = (sampleHops i).hint ∨ sess.hint = (laterHops i).hint := by
  rw [tableAfter_two] at h
  obtain ⟨j, rfl⟩ := (twoSlots i).exists_slot h
  unfold twoSlots at huse ⊢
  by_cases h1 : j = 1
  · rw [h1, Function.update_self]
    exact .inr rfl
  · rw [Function.update_of_ne h1] at huse ⊢
    by_cases h0 : j = 0
    · rw [h0, Function.update_self]
      exact .inl rfl
    · rw [Function.update_of_ne h0] at huse
      cases huse

theorem holds_later (i : Fin torMaxHops) : Holds (tableAfter (twoExtends i)) (laterHops i) := by
  have hslot := twoSlots_one i
  have hhints : ∀ i, (sampleHops i).hint.toList ≠ (laterHops i).hint.toList := by decide
  have hfind : torSlotFind (twoSlots i) (laterHops i).hint.toList = some 1 := by
    rw [torSlotFind_eq_some, hslot]
    refine ⟨⟨rfl, rfl⟩, ?_⟩
    intro j hj _
    have hzero : j = 0 := Fin.ext (Nat.lt_one_iff.mp hj)
    rw [hzero, twoSlots_zero]
    exact hhints i
  unfold Holds
  rw [tableAfter_two, sessionFind_sessions, hfind, Option.map_some, hslot]
  rfl

theorem first_settled (i : Fin torMaxHops) :
    (run torStep (extendActs (sampleHops i)) .initial).Settled 0
      ⟨(sampleHops i).hint, (sampleHops i).key, true⟩ := by
  rw [run_first]
  constructor
  · let first := extendedSlot (sampleHops i) 0 0
    change (Function.update TorRelay.initial.table 0 first 0).toTorSession = _
    rw [Function.update_self]
    rfl
  · rfl
  · exact fun _ => nofun

theorem second_roomy (i : Fin torMaxHops) : StepsMeet torStep TorRelay.Roomy
    (extendActs (laterHops i)) (run torStep (extendActs (sampleHops i)) .initial) := by
  rw [run_first]
  exact ⟨⟨1, second_free i⟩, trivial, trivial, trivial, trivial⟩

/-- The second circuit over the relays gets no echo. -/
theorem only_first_circuit_answered_second :
    (∀ i, Holds (tableAfter (twoExtends i)) (laterHops i)) ∧
      ∃ wire resp1 resp0,
        buildForwardCell .sample laterHops (fun _ => Bytes.zero 12) [72, 105]
          (torMaxCellSize + 256) = some wire ∧
        handleConnection .sample circuitWorld (tableAfter (twoExtends 0)).sessions torPortTn1
          (Bytes.zero 12) resp1 = .ok [(torPortClient, resp0)] ∧
        responseListener .sample laterHops resp0 = none := by
  have hexit : ∀ sess ∈ (tableAfter (twoExtends 1)).sessions, sess.inUse = true →
      sess.hint ≠ (laterHops 2).hint := by
    intro sess hsess huse
    cases twoSlots_inUse hsess huse with
    | inl h =>
      rw [h]
      decide
    | inr h =>
      rw [h]
      decide
  have hmiddle : ∀ sess ∈ (tableAfter (twoExtends 0)).sessions, sess.inUse = true →
      sess.hint ≠ (sampleHops 1).hint := by
    intro sess hsess huse
    cases twoSlots_inUse hsess huse with
    | inl h =>
      rw [h]
      decide
    | inr h =>
      rw [h]
      decide
  have hreject : ∀ i : Fin torMaxHops, Rejects .sample (laterHops i).key (sampleHops i).key := by
    have hkeys : ∀ i : Fin torMaxHops,
        (sampleHops i).key.read 0 16 ≠ (laterHops i).key.read 0 16 := by decide
    intro i _ nonce m
    exact if_neg (hkeys i)
  obtain ⟨wire, _, _, _, _, resp1, resp0, hwire, _, _, _, _, _, hresp, hlisten⟩ :=
    only_first_circuit_answered .sample first_settled second_roomy holds_later holds_later hexit
      hmiddle hreject
      (show ([72, 105] : List UInt8).length ≤ torMaxPayload by decide) (by decide)
      (fun _ => Bytes.zero 12) (fun _ => Bytes.zero 12) (fun _ => Bytes.zero 12)
  refine ⟨holds_later, wire, resp1, resp0, hwire, hresp, ?_⟩
  rw [hlisten, if_neg]
  intro h
  exact absurd h.1 (by decide)

end AnonSecNet.Tor
