import AnonSecNet.Gateway.Handlers
import AnonSecNet.Sender.SlotPool

/-! Responses that arrive late: a wait on a reused slot does not take them for its own. -/
namespace AnonSecNet.Sender
open Octets Gateway Machine
variable {ι : Type*}

/-- What the gateway encrypts for a slot: the SETUP acknowledgement, cover, and its answers to the
requests on the slot. -/
def Pool.Encrypted (s : Pool ι) (i : SlotIdx) (plain : List UInt8) : Prop :=
  plain = pktReal :: setupOk ∨ (∃ filler, plain = pktDummy :: filler) ∨
    ∃ r resp q, (r, resp) ∈ s.answered ∧ s.requests[r]? = some q ∧ q.slot = i ∧
      plain = pktReal :: withNonce q.app resp

instance (s : Pool ι) (i : SlotIdx) (plain : List UInt8) : Decidable (s.Encrypted i plain) :=
  decidable_of_iff (plain = pktReal :: setupOk ∨ plain.head? = some pktDummy ∨
      ∃ a ∈ s.answered, ∃ q ∈ s.requests[a.1]?, q.slot = i ∧
        plain = pktReal :: withNonce q.app a.2) <| by
    refine or_congr Iff.rfl (or_congr ?_ ?_)
    · rw [List.head?_eq_some_iff]
    · simp only [Prod.exists, Option.mem_def]
      exact ⟨fun ⟨r, resp, hans, q, hq⟩ => ⟨r, resp, q, hans, hq⟩,
        fun ⟨r, resp, q, hans, hq⟩ => ⟨r, resp, hans, q, hq⟩⟩

variable (P : Primitives) (kSSgB : SlotIdx → AesKey)

/-- What decrypts under the key of a slot was encrypted by the gateway. -/
def Pool.Authentic (s : Pool ι) : SlotAct ι → Prop
  | .arrive i wire => ∀ plain,
      cryptoAesDecrypt P (kSSgB i) (Client.encResp wire) returnPayloadSize = some plain →
        s.Encrypted i plain
  | _ => True

/-- The nonce is none that a request on the slot had before, and not the start of the SETUP
acknowledgement. -/
def Pool.Fresh (s : Pool ι) : SlotAct ι → Prop
  | .worker t (.send app _ _) => ∀ i, s.threads t = .holding i →
      app.reqNonce.toList ≠ setupOk.take slotNonceBytes ∧
        ∀ q ∈ s.requests, q.slot = i → q.app.reqNonce ≠ app.reqNonce
  | _ => True

instance (s : Pool ι) (a : SlotAct ι) : Decidable (s.Authentic P kSSgB a) :=
  match a with
  | .arrive i wire =>
    match h : cryptoAesDecrypt P (kSSgB i) (Client.encResp wire) returnPayloadSize with
    | none => .isTrue fun plain hplain => by rw [h] at hplain; cases hplain
    | some plain => decidable_of_iff (s.Encrypted i plain)
        ⟨fun henc plain' hplain => by rw [h] at hplain; exact Option.some.inj hplain ▸ henc,
          fun hall => hall plain h⟩
  | .worker _ _ | .answer _ _ | .tick _ => .isTrue trivial

instance (s : Pool ι) (a : SlotAct ι) : Decidable (s.Fresh a) :=
  match a with
  | .worker t (.send _ _ _) => inferInstanceAs (Decidable (∀ i, s.threads t = .holding i → _))
  | .worker _ .acquire | .worker _ (.enter _) | .worker _ .check | .worker _ .wake
  | .worker _ .timeOut | .worker _ .copy | .worker _ .filter | .worker _ .release
  | .answer _ _ | .arrive _ _ | .tick _ => .isTrue trivial

/-- A slot has one holder, and what its wait returns is the answer to the holder's request. -/
def Pool.OwnResponses (s : Pool ι) : Prop :=
  (∀ t u i, (s.threads t).slot = some i → (s.threads u).slot = some i → t = u) ∧
    ∀ t i r deadline resp, s.threads t = .returned i r deadline (some resp) →
      (r, resp) ∈ s.answered ∧ ∃ q, s.requests[r]? = some q ∧ q.sender = t ∧ q.slot = i

/-! The invariant. -/

/-- A packet the listener has let through. -/
def Pool.Carries (s : Pool ι) (i : SlotIdx) (wire : WirePacket) : Prop :=
  ∀ plain, gcmOverhead ≤ Client.encLen wire →
    cryptoAesDecrypt P (kSSgB i) (Client.encResp wire) returnPayloadSize = some plain →
      s.Encrypted i plain ∧ plain.head? = some pktReal

structure Pool.Sound (s : Pool ι) : Prop where
  tracked : s.Tracked
  distinct : ∀ (r u : Nat) (q v : SlotRequest ι), s.requests[r]? = some q →
    s.requests[u]? = some v → q.slot = v.slot → q.app.reqNonce = v.app.reqNonce → r = u
  notSetup : ∀ q ∈ s.requests, q.app.reqNonce.toList ≠ setupOk.take slotNonceBytes
  stored : ∀ i, s.Carries P kSSgB i (s.slots i).respBuf
  inHand : ∀ t i r deadline wire, s.threads t = .copied i r deadline wire →
    s.Carries P kSSgB i wire
  results : ∀ t i r deadline resp, s.threads t = .returned i r deadline (some resp) →
    (r, resp) ∈ s.answered

variable {P kSSgB} {s s' : Pool ι}

theorem Pool.Carries.grows {i : SlotIdx} {wire : WirePacket} (hc : s.Carries P kSSgB i wire)
    (h : s.Grows s') : s'.Carries P kSSgB i wire := by
  intro plain hlen hplain
  obtain ⟨henc, hreal⟩ := hc plain hlen hplain
  refine ⟨?_, hreal⟩
  rcases henc with hsetup | hcover | ⟨r, resp, q, hans, hq, hslot, heq⟩
  · exact .inl hsetup
  · exact .inr (.inl hcover)
  · exact .inr (.inr ⟨r, resp, q, h.answered hans, h.request hq, hslot, heq⟩)

/-- What a wait makes of a packet in hand is the answer to its request. -/
theorem Pool.Sound.takes (h : s.Sound P kSSgB) {t : ι} {i : SlotIdx} {r : Nat} {wire : WirePacket}
    {resp : List UInt8} (hslot : (s.threads t).slot = some i)
    (hreq : (s.threads t).request = some r) (hwire : s.Carries P kSSgB i wire)
    (htakes : s.takes P kSSgB i wire = some resp) : (r, resp) ∈ s.answered := by
  obtain ⟨q, hq, -, hqi, hnonce⟩ := h.tracked.own t i r hslot hreq
  unfold Pool.takes senderWaitResponse at htakes
  split at htakes
  · cases htakes
  · rename_i hlen
    split at htakes
    · rename_i plain hplain
      split at htakes
      · cases htakes
      · split at htakes
        · cases htakes
        · rename_i hshort hecho
          obtain rfl := Option.some.inj htakes
          rw [not_not] at hecho
          obtain ⟨henc, hreal⟩ := hwire plain (by omega) hplain
          rcases henc with rfl | ⟨filler, rfl⟩ | ⟨u, resp', v, hans, hv, hvi, rfl⟩
          · have hsetup := h.notSetup q (List.mem_of_getElem? hq)
            rw [← hnonce, ← hecho] at hsetup
            exact absurd rfl hsetup
          · exact absurd (Option.some.inj hreal) (by decide)
          · have hnonced : withNonce v.app resp' = v.app.reqNonce.toList ++ resp' := by
              unfold withNonce
              rw [if_pos v.echoed]
            rw [hnonced] at hecho ⊢
            have hecho' : v.app.reqNonce = (s.slots i).pendingNonce := by
              apply Bytes.ext
              rw [← hecho, List.drop_succ_cons, List.drop_zero, List.take_left' (by simp)]
            obtain rfl := h.distinct u r v q hv hq (hvi.trans hqi.symm) (hecho'.trans hnonce)
            obtain ⟨v', hv', hbound⟩ := h.tracked.bounded u resp' hans
            obtain rfl := Option.some.inj (hv.symm.trans hv')
            rw [hnonced, List.length_append] at hbound
            rw [Nat.add_comm, List.drop_succ_cons, List.drop_left' (by simp),
              List.take_of_length_le (by omega)]
            exact hans
    · cases htakes

/-- No thread moves. -/
theorem Pool.Sound.keeps (hs : s.Sound P kSSgB) (htracked : s'.Tracked)
    (hthreads : s'.threads = s.threads) (hrequests : s'.requests = s.requests)
    (hanswered : s.answered ⊆ s'.answered)
    (hstored : ∀ i, s'.Carries P kSSgB i (s'.slots i).respBuf) : s'.Sound P kSSgB where
  tracked := htracked
  distinct := by
    rw [hrequests]
    exact hs.distinct
  notSetup := by
    rw [hrequests]
    exact hs.notSetup
  stored := hstored
  inHand := by
    rw [hthreads]
    exact fun u i r deadline wire h =>
      (hs.inHand u i r deadline wire h).grows ⟨by rw [hrequests], hanswered⟩
  results := by
    rw [hthreads]
    exact fun u i r deadline resp h => hanswered (hs.results u i r deadline resp h)

theorem getElem?_concat {α : Type*} {l : List α} {x y : α} {n : Nat}
    (h : (l ++ [x])[n]? = some y) : l[n]? = some y ∨ (n = l.length ∧ y = x) := by
  rcases lt_trichotomy n l.length with hlt | rfl | hgt
  · rw [List.getElem?_append_left hlt] at h
    exact .inl h
  · rw [List.getElem?_concat_length] at h
    exact .inr ⟨rfl, (Option.some.inj h).symm⟩
  · rw [List.getElem?_eq_none (by simp; omega)] at h
    cases h

section
variable [DecidableEq ι] {t : ι} {a : WorkerAct}

/-- The guard says that the nonce of a request that goes out is new. -/
theorem Pool.Sound.works (hs : s.Sound P kSSgB) (h : s.Works P kSSgB t a s')
    (hfresh : s.Fresh (.worker t a)) : s'.Sound P kSSgB := by
  have hgrows := h.grows
  have hrequests : s'.requests = s.requests ∨ ∃ i app echoed, a = .send app echoed true ∧
      s.threads t = .holding i ∧ s'.requests = s.requests ++ [⟨t, i, app, echoed⟩] := by
    cases h with
    | sends i app echoed hphase => exact .inr ⟨i, app, echoed, rfl, hphase, rfl⟩
    | _ => exact .inl rfl
  constructor
  · exact hs.tracked.works h
  · intro r u q v hq hv hslot hnonce
    rcases hrequests with hsame | ⟨i, app, echoed, rfl, hphase, hsent⟩
    · rw [hsame] at hq hv
      exact hs.distinct r u q v hq hv hslot hnonce
    · obtain ⟨-, hnew⟩ := hfresh i hphase
      rw [hsent] at hq hv
      rcases getElem?_concat hq with hq | ⟨rfl, rfl⟩
      · rcases getElem?_concat hv with hv | ⟨rfl, rfl⟩
        · exact hs.distinct r u q v hq hv hslot hnonce
        · exact absurd hnonce (hnew q (List.mem_of_getElem? hq) hslot)
      · rcases getElem?_concat hv with hv | ⟨rfl, rfl⟩
        · exact absurd hnonce.symm (hnew v (List.mem_of_getElem? hv) hslot.symm)
        · rfl
  · intro q hq
    rcases hrequests with hsame | ⟨i, app, echoed, rfl, hphase, hsent⟩
    · exact hs.notSetup q (hsame ▸ hq)
    · rw [hsent] at hq
      rcases List.mem_append.mp hq with hq | hq
      · exact hs.notSetup q hq
      · obtain rfl := List.mem_singleton.mp hq
        exact (hfresh i hphase).1
  · intro i
    rw [h.respBuf]
    exact (hs.stored i).grows hgrows
  · intro u i r deadline wire hcopied
    by_cases hu : u = t
    · subst hu
      rcases h.inHand hcopied with hold | rfl
      · exact (hs.inHand u i r deadline wire hold).grows hgrows
      · exact (hs.stored i).grows hgrows
    · exact (hs.inHand u i r deadline wire (h.other hu ▸ hcopied)).grows hgrows
  · intro u i r deadline resp hreturned
    rw [h.answered]
    by_cases hu : u = t
    · subst hu
      rcases h.result hreturned with hold | ⟨hnone, -⟩ | ⟨wakeAt, hnone, -⟩ |
        ⟨wire, resp', -, hresp, hphase, htakes⟩
      · exact hs.results u i r deadline resp hold
      · cases hnone
      · cases hnone
      · obtain rfl := Option.some.inj hresp
        exact hs.takes (by rw [hphase]; rfl) (by rw [hphase]; rfl)
          (hs.inHand u i r deadline wire hphase) htakes
    · exact hs.results u i r deadline resp (h.other hu ▸ hreturned)

theorem Pool.Sound.moves (hs : s.Sound P kSSgB) {a : SlotAct ι} (h : s.Moves P kSSgB a s')
    (hauthentic : s.Authentic P kSSgB a) (hfresh : s.Fresh a) : s'.Sound P kSSgB := by
  have htracked := hs.tracked.moves h
  cases h with
  | stays => exact hs
  | works t a s' h => exact hs.works h hfresh
  | answers r resp q hrequest hfits =>
    have hgrows : s.Grows { s with answered := s.answered ++ [(r, resp)] } :=
      ⟨List.prefix_refl _, List.subset_append_left _ _⟩
    exact hs.keeps htracked rfl rfl hgrows.answered fun i => (hs.stored i).grows hgrows
  | stores i wire haccepts =>
    refine hs.keeps htracked rfl rfl (List.Subset.refl _) fun j => ?_
    by_cases hj : j = i
    · subst hj
      rw [Pool.slots_setSlot_self]
      intro plain hlen hplain
      refine ⟨hauthentic plain hplain, ?_⟩
      unfold listenerAccepts Client.listenerAccepts at haccepts
      rw [hplain] at haccepts
      cases plain with
      | nil => simp at haccepts
      | cons flags rest =>
        simp only [Bool.and_eq_true, beq_iff_eq] at haccepts
        rw [haccepts.2]
        rfl
    · rw [s.slots_setSlot_of_ne hj]
      exact hs.stored j
  | passes ms => exact hs.keeps htracked rfl rfl (List.Subset.refl _) hs.stored

theorem Pool.sound_initial (ι : Type*) : (Pool.initial ι).Sound P kSSgB where
  tracked := Pool.tracked_initial ι
  distinct := fun _ _ _ _ h => nomatch h
  notSetup := fun _ h => nomatch h
  stored := fun i plain hlen => by
    have hzero : Client.encLen (Bytes.zero wirePacketSize) = 0 := by decide +kernel
    exact absurd hlen (by
      change ¬ gcmOverhead ≤ Client.encLen (Bytes.zero wirePacketSize)
      rw [hzero]
      decide)
  inHand := fun _ _ _ _ _ h => nomatch h
  results := fun _ _ _ _ _ h => nomatch h

/-- In every run of threads, gateway and listeners in any order, a slot has one holder, and a wait
returns nothing but the answer to the request that its thread sent on the slot. -/
theorem late_responses_rejected (P : Primitives) (kSSgB : SlotIdx → AesKey) (acts : List (SlotAct ι))
    (h : StepsMeet (Pool.step P kSSgB) (fun s a => s.Authentic P kSSgB a ∧ s.Fresh a) acts
      (Pool.initial ι)) :
    Along (Pool.step P kSSgB) Pool.OwnResponses acts (Pool.initial ι) := by
  have hsound := along_of_stepsMeet (Pool.step P kSSgB) (Pool.Sound P kSSgB)
    (fun s a hs hguard => hs.moves (s.step_moves a) hguard.1 hguard.2) (Pool.sound_initial ι) h
  refine Along.mono _ (fun s hs => ⟨hs.tracked.exclusive.alone, ?_⟩) hsound
  intro t i r deadline resp hreturned
  obtain ⟨q, hq, hsender, hslot, -⟩ :=
    hs.tracked.own t i r (by rw [hreturned]; rfl) (by rw [hreturned]; rfl)
  exact ⟨hs.results t i r deadline resp hreturned, q, hq, hsender, hslot⟩

end

/-- A heartbeat times out, and its answer arrives after the slot has gone to another thread. -/
def reusedSlot : List (SlotAct Nat) :=
  sendHeartbeat 0 1 ++ [.tick 3000, .worker 0 .timeOut, .worker 0 .release] ++ sendHeartbeat 1 2 ++
    [.answer 0 [7], .arrive sampleSlot (heartbeatAnswer 1 [7])] ++ waitOnce 1 ++
    [.answer 1 [8], .arrive sampleSlot (heartbeatAnswer 2 [8])] ++ waitOnce 1

theorem late_responses_rejected_reused :
    Along (Pool.step .sample sampleSlotKey) Pool.OwnResponses reusedSlot (Pool.initial Nat) ∧
      (run (Pool.step .sample sampleSlotKey) reusedSlot (Pool.initial Nat)).threads 1 =
        .returned sampleSlot 1 6000 (some [8]) :=
  ⟨late_responses_rejected .sample sampleSlotKey reusedSlot (by decide +kernel), by decide +kernel⟩

end AnonSecNet.Sender
