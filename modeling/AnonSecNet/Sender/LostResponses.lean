import AnonSecNet.Sender.StaleResponses

/-! Responses that arrive in time: when the single buffer of a slot loses one. -/
namespace AnonSecNet.Sender
open Octets Gateway Machine
variable {ι : Type*}

/-- The deadline of the wait, once there is one. -/
def Phase.deadline : Phase → Option Nat
  | .idle | .holding _ | .sent _ _ => none
  | .looping _ _ d | .blocked _ _ d _ | .woken _ _ d | .copied _ _ d _ | .returned _ _ d _ => some d

/-- What the wait has returned. -/
def Phase.result : Phase → Option (Option (List UInt8))
  | .returned _ _ _ result => some result
  | .idle | .holding _ | .sent _ _ | .looping _ _ _ | .blocked _ _ _ _ | .woken _ _ _
  | .copied _ _ _ _ => none

/-- The wait for request `r` has no such packet in hand. -/
def Phase.Lacks (bears : WirePacket → Prop) (r : Nat) : Phase → Prop
  | .sent _ u | .looping _ u _ | .blocked _ u _ _ | .woken _ u _ => u = r
  | .copied _ u _ wire => u = r ∧ ¬ bears wire
  | .idle | .holding _ | .returned _ _ _ _ => False

instance (bears : WirePacket → Prop) [DecidablePred bears] (r : Nat) (p : Phase) :
    Decidable (p.Lacks bears r) :=
  match p with
  | .sent _ u | .looping _ u _ | .blocked _ u _ _ | .woken _ u _ =>
    inferInstanceAs (Decidable (u = r))
  | .copied _ u _ wire => inferInstanceAs (Decidable (u = r ∧ ¬ bears wire))
  | .idle | .holding _ | .returned _ _ _ _ => .isFalse id

variable (P : Primitives) (kSSgB : SlotIdx → AesKey)

/-- The packet brings this answer to the request. -/
def Bears (q : SlotRequest ι) (resp : List UInt8) (wire : WirePacket) : Prop :=
  (gcmOverhead ≤ Client.encLen wire ∧ Client.encLen wire ≤ 512) ∧
    cryptoAesDecrypt P (kSSgB q.slot) (Client.encResp wire) returnPayloadSize =
      some (pktReal :: withNonce q.app resp)

instance (q : SlotRequest ι) (resp : List UInt8) : DecidablePred (Bears P kSSgB q resp) :=
  fun _ => inferInstanceAs (Decidable (_ ∧ _))

/-- The slot holds the answer, and no wait has copied it. -/
def Pool.Unread (s : Pool ι) (q : SlotRequest ι) (resp : List UInt8) : Prop :=
  (s.slots q.slot).respReady = true ∧ Bears P kSSgB q resp (s.slots q.slot).respBuf

instance (s : Pool ι) (q : SlotRequest ι) (resp : List UInt8) :
    Decidable (s.Unread P kSSgB q resp) := inferInstanceAs (Decidable (_ ∧ _))

/-- The wait does not find its deadline over before it has looked at the answer, and it takes no
other packet for it. -/
def Pool.Heeds (s : Pool ι) (r : Nat) (q : SlotRequest ι) (resp : List UInt8) :
    Phase → WorkerAct → Prop
  | .looping _ u deadline, .check =>
    u = r → s.Unread P kSSgB q resp → expired deadline s.clock = false
  | .copied i u _ wire, .filter =>
    u = r → (s.takes P kSSgB i wire).isSome → Bears P kSSgB q resp wire
  | _, _ => True

instance (s : Pool ι) (r : Nat) (q : SlotRequest ι) (resp : List UInt8) (p : Phase)
    (a : WorkerAct) : Decidable (s.Heeds P kSSgB r q resp p a) := by
  unfold Pool.Heeds
  split <;> infer_instance

/-- The action does not lose the answer `resp` to request `r`: the listener does not overwrite it
unread, and the wait does not miss it. -/
def Pool.Spares (r : Nat) (resp : List UInt8) (s : Pool ι) : SlotAct ι → Prop
  | .arrive i wire => ∀ q ∈ s.requests[r]?, q.slot = i → listenerAccepts P (kSSgB i) wire = true →
      (s.threads q.sender).Lacks (Bears P kSSgB q resp) r → s.Unread P kSSgB q resp →
        Bears P kSSgB q resp wire
  | .worker t a => ∀ q ∈ s.requests[r]?, s.Heeds P kSSgB r q resp (s.threads t) a
  | .answer _ _ | .tick _ => True

instance (r : Nat) (resp : List UInt8) (s : Pool ι) (a : SlotAct ι) :
    Decidable (s.Spares P kSSgB r resp a) :=
  match a with
  | .arrive _ _ => inferInstanceAs (Decidable (∀ q ∈ s.requests[r]?, _ → _))
  | .worker t a =>
    inferInstanceAs (Decidable (∀ q ∈ s.requests[r]?, s.Heeds P kSSgB r q resp (s.threads t) a))
  | .answer _ _ | .tick _ => .isTrue trivial

/-- The gateway's answer to the request of the thread comes to the listener before the deadline. -/
structure Pool.Comes (s : Pool ι) (t : ι) (r : Nat) (resp : List UInt8) (i : SlotIdx)
    (wire : WirePacket) : Prop where
  answered : (r, resp) ∈ s.answered
  current : (s.threads t).request = some r
  inTime : ∀ deadline ∈ (s.threads t).deadline, s.clock < deadline
  packet : ∃ q ∈ s.requests[r]?, q.slot = i ∧
    ∃ (gcmNonce : Bytes gcmNonceLen) (enc : { c : List UInt8 // c.length ≤ returnPayloadSize - 2 }),
      cryptoAesEncrypt P (kSSgB i) gcmNonce (pktReal :: withNonce q.app resp)
        (returnPayloadSize - 2) = some enc ∧
      wire.read returnHeaderSize returnPayloadSize = returnPayload enc

/-- While the thread is at the request, its wait has returned the answer, or it has made fewer
than five steps of its own since the answer came and can make the next one. -/
def Pool.Delivers [DecidableEq ι] (s : Pool ι) (t : ι) (r : Nat) (resp : List UInt8)
    (made : Nat) : Prop :=
  (s.threads t).request = some r →
    (s.threads t).result = some (some resp) ∨
      (s.threads t).result = none ∧ made < 5 ∧
        ∃ a, (s.work P kSSgB t a).threads t ≠ s.threads t

variable {P kSSgB} {s s' : Pool ι} {t : ι} {r : Nat} {q : SlotRequest ι} {resp : List UInt8}
  {i : SlotIdx} {wire : WirePacket}

/-! The answer. -/

theorem length_withNonce (q : SlotRequest ι) (resp : List UInt8) :
    (withNonce q.app resp).length = slotNonceBytes + resp.length := by
  unfold withNonce
  rw [if_pos q.echoed]
  simp

/-- The waiting thread is the one that sent the request, on its slot. -/
theorem Pool.Tracked.owner (h : s.Tracked) (hq : s.requests[r]? = some q) {i : SlotIdx}
    (hslot : (s.threads t).slot = some i) (hreq : (s.threads t).request = some r) :
    q.sender = t ∧ q.slot = i ∧ (s.slots i).pendingNonce = q.app.reqNonce := by
  obtain ⟨v, hv, hsender, hvi, hnonce⟩ := h.own t i r hslot hreq
  obtain rfl := Option.some.inj (hq.symm.trans hv)
  exact ⟨hsender, hvi, hnonce⟩

/-- The wait for the request takes a packet that brings the answer. -/
theorem Pool.Tracked.takes (h : s.Tracked) (hq : s.requests[r]? = some q)
    (hfits : slotNonceBytes + resp.length ≤ maxInnerPayload) {i : SlotIdx} {wire : WirePacket}
    (hslot : (s.threads t).slot = some i) (hreq : (s.threads t).request = some r)
    (hwire : Bears P kSSgB q resp wire) : s.takes P kSSgB i wire = some resp := by
  obtain ⟨-, rfl, hnonce⟩ := h.owner hq hslot hreq
  obtain ⟨hlen, hplain⟩ := hwire
  rw [← length_withNonce q] at hfits
  unfold withNonce at hfits hplain
  rw [if_pos q.echoed, ← hnonce] at hfits hplain
  exact senderWaitResponse_of_plain P hlen hfits hplain

theorem Pool.Comes.bears (h : s.Comes P kSSgB t r resp i wire) (hs : s.Tracked) :
    ∃ q, s.requests[r]? = some q ∧ q.sender = t ∧ q.slot = i ∧ Bears P kSSgB q resp wire ∧
      listenerAccepts P (kSSgB i) wire = true ∧
        slotNonceBytes + resp.length ≤ maxInnerPayload := by
  obtain ⟨q, hq, rfl, gcmNonce, enc, henc, hread⟩ := h.packet
  obtain ⟨j, hslot⟩ := Phase.slot_of_request h.current
  obtain ⟨hsender, -, -⟩ := hs.owner hq hslot h.current
  obtain ⟨v, hv, hfits⟩ := hs.bounded r resp h.answered
  obtain rfl := Option.some.inj (hv.symm.trans hq)
  obtain ⟨hlen, hplain⟩ := Client.decrypt_of_payload P hfits henc hread
  refine ⟨v, hv, hsender, rfl, ⟨?_, hplain⟩, Client.listener_accepts_real P hfits henc hread, ?_⟩
  · simp at hfits hlen ⊢
    omega
  · rw [← length_withNonce v]
    exact hfits

/-! Where the answer is. -/

/-- The answer is unread in the slot, or the wait has it, and the wait is going to be woken for
it. -/
def Phase.Saved (unread event : Prop) (bears : WirePacket → Prop) (r : Nat) (resp : List UInt8) :
    Phase → Prop
  | .idle | .holding _ => True
  | .sent _ u | .looping _ u _ | .blocked _ u _ _ => u = r → unread ∧ event
  | .woken _ u _ => u = r → unread
  | .copied _ u _ wire => u = r → bears wire ∨ unread ∧ event
  | .returned _ u _ result => u = r → result = some resp

theorem Phase.saved_of_ne {p : Phase} (h : p.request ≠ some r) (unread event : Prop)
    (bears : WirePacket → Prop) : p.Saved unread event bears r resp := by
  cases p with
  | idle | holding => trivial
  | sent | looping | blocked | woken | copied | returned =>
    exact fun hu => absurd (congrArg some hu) h

variable (P kSSgB) in
def Pool.Saved (s : Pool ι) (r : Nat) (q : SlotRequest ι) (resp : List UInt8) : Prop :=
  (s.threads q.sender).Saved (s.Unread P kSSgB q resp) ((s.slots q.slot).respEvent = true)
    (Bears P kSSgB q resp) r resp

theorem Pool.Saved.result (hsaved : s.Saved P kSSgB r q resp)
    (hreq : (s.threads q.sender).request = some r) {result : Option (List UInt8)}
    (hresult : (s.threads q.sender).result = some result) : result = some resp := by
  unfold Pool.Saved at hsaved
  cases hphase : s.threads q.sender with
  | idle | holding | sent | looping | blocked | woken | copied =>
    rw [hphase] at hresult
    cases hresult
  | returned i u deadline outcome =>
    rw [hphase] at hsaved hreq hresult
    obtain rfl := Option.some.inj hresult
    exact hsaved (Option.some.inj hreq)

/-- No wait for the request has returned another answer. -/
def Pool.Honest (s : Pool ι) (r : Nat) (resp : List UInt8) : Prop :=
  ∀ t i deadline resp', s.threads t = .returned i r deadline (some resp') → resp' = resp

/-! The time. -/

/-- The deadline lies at most one timeout ahead, and a wait only gives up once it is over. -/
def Phase.Timed (clock : Nat) : Phase → Prop
  | .looping _ _ d | .woken _ _ d | .copied _ _ d _ => d < clock + 2 ^ 31
  | .blocked _ _ d wakeAt => d < clock + 2 ^ 31 ∧ d ≤ wakeAt
  | .returned _ _ d none => d ≤ clock
  | .idle | .holding _ | .sent _ _ | .returned _ _ _ (some _) => True

theorem Phase.Timed.later {p : Phase} {clock clock' : Nat} (h : p.Timed clock)
    (hle : clock ≤ clock') : p.Timed clock' := by
  cases p with
  | idle | holding | sent => trivial
  | looping | woken | copied | blocked =>
    simp only [Phase.Timed] at h ⊢
    omega
  | returned i r d result =>
    cases result with
    | none => exact Nat.le_trans h hle
    | some resp => trivial

theorem le_of_expired {deadline now : Nat} (h : expired deadline now = true)
    (hlt : deadline < now + 2 ^ 31) : deadline ≤ now := by
  unfold expired ticksSince longValue at h
  rw [decide_eq_true_iff] at h
  omega

theorem le_of_not_expired {deadline now : Nat} (hlt : deadline < now + 2 ^ 31) :
    deadline ≤ now + ticksSince deadline now := by
  unfold ticksSince longValue
  omega

variable [DecidableEq ι]

theorem Pool.Works.timed {a : WorkerAct} (h : s.Works P kSSgB t a s')
    (hs : (s.threads t).Timed s.clock) : (s'.threads t).Timed s'.clock := by
  rw [h.clock]
  cases h with
  | stays | stamps => exact hs
  | acquires | sends | releases | accepts =>
    rw [Pool.threads_setThread_self]
    trivial
  | enters i r timeoutMs hphase =>
    rw [Pool.threads_setThread_self]
    exact Nat.add_lt_add_left timeoutMs.2 s.clock
  | expires i r deadline hphase hlate =>
    rw [hphase] at hs
    rw [Pool.threads_setThread_self]
    exact le_of_expired hlate hs
  | blocks i r deadline hphase hearly =>
    rw [hphase] at hs
    rw [Pool.threads_setThread_self]
    exact ⟨hs, le_of_not_expired hs⟩
  | wakes i r deadline wakeAt hphase hevent =>
    rw [hphase] at hs
    rw [Pool.threads_setThread_self]
    exact hs.1
  | timesOut i r deadline wakeAt hphase hevent hlate =>
    rw [hphase] at hs
    rw [Pool.threads_setThread_self]
    exact Nat.le_trans hs.2 hlate
  | copies i r deadline hphase | discards i r deadline wire hphase htakes =>
    rw [hphase] at hs
    rw [Pool.threads_setThread_self]
    exact hs

theorem Pool.Moves.timed {a : SlotAct ι} (h : s.Moves P kSSgB a s')
    (hs : ∀ u, (s.threads u).Timed s.clock) (u : ι) : (s'.threads u).Timed s'.clock := by
  cases h with
  | stays | answers | stores => exact hs u
  | works t a s' h =>
    by_cases hu : u = t
    · rw [hu]
      exact h.timed (hs t)
    · rw [h.other hu, h.clock]
      exact hs u
  | passes ms => exact (hs u).later (Nat.le_add_right _ _)

theorem Pool.Honest.moves (hhonest : s.Honest r resp) (hs : s.Tracked)
    (hfits : slotNonceBytes + resp.length ≤ maxInnerPayload) {a : SlotAct ι}
    (h : s.Moves P kSSgB a s') (hspares : s.Spares P kSSgB r resp a) : s'.Honest r resp := by
  cases h with
  | stays | answers | stores | passes => exact hhonest
  | works t a s' h =>
    intro u i deadline resp' hreturned
    by_cases hu : u = t
    · subst hu
      rcases h.result hreturned with hold | ⟨hnone, -⟩ | ⟨wakeAt, hnone, -⟩ |
        ⟨wire, answer, rfl, hanswer, hphase, htakes⟩
      · exact hhonest u i deadline resp' hold
      · cases hnone
      · cases hnone
      · obtain rfl := Option.some.inj hanswer
        have hslot : (s.threads u).slot = some i := by rw [hphase]; rfl
        have hreq : (s.threads u).request = some r := by rw [hphase]; rfl
        obtain ⟨q, hq, -⟩ := hs.own u i r hslot hreq
        have hbears := hspares q hq
        rw [hphase] at hbears
        have hours := hs.takes hq hfits hslot hreq (hbears rfl (by rw [htakes]; rfl))
        exact Option.some.inj (htakes.symm.trans hours)
    · exact hhonest u i deadline resp' (h.other hu ▸ hreturned)

theorem Pool.Works.saved {a : WorkerAct} (h : s.Works P kSSgB t a s') (hs : s.Tracked)
    (hq : s.requests[r]? = some q) (hfits : slotNonceBytes + resp.length ≤ maxInnerPayload)
    (hspares : s.Spares P kSSgB r resp (.worker t a)) (hsaved : s.Saved P kSSgB r q resp) :
    s'.Saved P kSSgB r q resp := by
  unfold Pool.Saved at hsaved ⊢
  by_cases ht : q.sender = t
  · subst ht
    have hguard := hspares q hq
    cases h with
    | stays => exact hsaved
    | stamps i app echoed hphase =>
      rw [Pool.threads_setSlot, hphase]
      trivial
    | acquires | releases =>
      rw [Pool.threads_setThread_self]
      trivial
    | sends i app echoed hphase =>
      have hlt := (List.getElem?_eq_some_iff.mp hq).1
      dsimp only
      rw [Pool.threads_setThread_self]
      exact fun hu => absurd hu (by omega)
    | enters i u timeoutMs hphase | blocks i u deadline hphase hearly =>
      rw [hphase] at hsaved
      rw [Pool.threads_setThread_self]
      exact hsaved
    | expires i u deadline hphase hlate =>
      rw [hphase] at hsaved hguard
      rw [Pool.threads_setThread_self]
      exact fun hu => Bool.noConfusion ((hguard hu (hsaved hu).1).symm.trans hlate)
    | wakes i u deadline wakeAt hphase hevent =>
      have hown := hs.owner (t := q.sender) (i := i) hq (by rw [hphase]; rfl)
      rw [hphase] at hsaved hown
      rw [Pool.threads_setThread_self]
      intro hu
      obtain ⟨-, rfl, -⟩ := hown (congrArg some hu)
      obtain ⟨⟨hready, hbears⟩, -⟩ := hsaved hu
      unfold Pool.Unread
      rw [Pool.slots_setThread, Pool.slots_setSlot_self]
      exact ⟨hready, hbears⟩
    | timesOut i u deadline wakeAt hphase hevent hlate =>
      have hown := hs.owner (t := q.sender) (i := i) hq (by rw [hphase]; rfl)
      rw [hphase] at hsaved hown
      rw [Pool.threads_setThread_self]
      intro hu
      obtain ⟨-, rfl, -⟩ := hown (congrArg some hu)
      exact Bool.noConfusion (hevent.symm.trans (hsaved hu).2)
    | copies i u deadline hphase =>
      have hown := hs.owner (t := q.sender) (i := i) hq (by rw [hphase]; rfl)
      rw [hphase] at hsaved hown
      rw [Pool.threads_setThread_self]
      intro hu
      obtain ⟨-, rfl, -⟩ := hown (congrArg some hu)
      exact .inl (hsaved hu).2
    | accepts i u deadline wire answer hphase htakes =>
      have htake (hreq : (s.threads q.sender).request = some r)
          (hbears : Bears P kSSgB q resp wire) :=
        hs.takes (i := i) hq hfits (by rw [hphase]; rfl) hreq hbears
      rw [hphase] at hguard htake
      rw [Pool.threads_setThread_self]
      intro hu
      have hbears := hguard hu (by rw [htakes]; rfl)
      exact htakes.symm.trans (htake (congrArg some hu) hbears)
    | discards i u deadline wire hphase htakes =>
      have htake (hreq : (s.threads q.sender).request = some r)
          (hbears : Bears P kSSgB q resp wire) :=
        hs.takes (i := i) hq hfits (by rw [hphase]; rfl) hreq hbears
      rw [hphase] at hsaved htake
      rw [Pool.threads_setThread_self]
      intro hu
      rcases hsaved hu with hbears | hunread
      · cases htakes.symm.trans (htake (congrArg some hu) hbears)
      · exact hunread
  · rw [h.other ht]
    by_cases hreq : (s.threads q.sender).request = some r
    · obtain ⟨i, hslot⟩ := Phase.slot_of_request hreq
      obtain ⟨-, rfl, -⟩ := hs.owner hq hslot hreq
      unfold Pool.Unread
      rw [h.apart hs.exclusive ht hslot]
      exact hsaved
    · exact Phase.saved_of_ne hreq _ _ _

/-- The listener may overwrite the answer only with another packet that brings it. -/
theorem Pool.Moves.saved {a : SlotAct ι} (h : s.Moves P kSSgB a s') (hs : s.Tracked)
    (hq : s.requests[r]? = some q) (hfits : slotNonceBytes + resp.length ≤ maxInnerPayload)
    (hspares : s.Spares P kSSgB r resp a) (hsaved : s.Saved P kSSgB r q resp) :
    s'.Saved P kSSgB r q resp := by
  cases h with
  | stays | answers | passes => exact hsaved
  | works t a s' h => exact h.saved hs hq hfits hspares hsaved
  | stores i wire haccepts =>
    have hguard := hspares q hq
    unfold Pool.Saved Pool.Unread at hsaved ⊢
    rw [Pool.threads_setSlot]
    by_cases hi : q.slot = i
    · subst hi
      rw [Pool.slots_setSlot_self]
      unfold Pool.Unread at hguard
      cases hphase : s.threads q.sender with
      | idle | holding => trivial
      | sent | looping | blocked =>
        rw [hphase] at hsaved hguard
        exact fun hu => ⟨⟨rfl, hguard rfl haccepts hu (hsaved hu).1⟩, rfl⟩
      | woken =>
        rw [hphase] at hsaved hguard
        exact fun hu => ⟨rfl, hguard rfl haccepts hu (hsaved hu)⟩
      | copied j u deadline packet =>
        rw [hphase] at hsaved hguard
        intro hu
        by_cases hbears : Bears P kSSgB q resp packet
        · exact .inl hbears
        · obtain ⟨hunread, -⟩ := (hsaved hu).resolve_left hbears
          exact .inr ⟨⟨rfl, hguard rfl haccepts ⟨hu, hbears⟩ hunread⟩, rfl⟩
      | returned =>
        rw [hphase] at hsaved
        exact hsaved
    · rw [s.slots_setSlot_of_ne hi]
      exact hsaved

theorem Pool.Moves.grows {a : SlotAct ι} (h : s.Moves P kSSgB a s') : s.Grows s' := by
  cases h with
  | stays | stores | passes => exact ⟨List.prefix_refl _, List.Subset.refl _⟩
  | works t a s' h => exact h.grows
  | answers => exact ⟨List.prefix_refl _, List.subset_append_left _ _⟩

/-! How far the wait is. -/

/-- The steps of its own that the wait has left. -/
def Phase.left (bears : WirePacket → Prop) [DecidablePred bears] : Phase → Nat
  | .idle | .holding _ | .returned _ _ _ _ => 0
  | .sent _ _ => 5
  | .looping _ _ _ => 4
  | .blocked _ _ _ _ => 3
  | .woken _ _ _ => 2
  | .copied _ _ _ wire => if bears wire then 1 else 5

theorem Phase.left_le (bears : WirePacket → Prop) [DecidablePred bears] (p : Phase) :
    p.left bears ≤ 5 := by
  cases p with
  | idle | holding | returned | sent | looping | blocked | woken => simp [Phase.left]
  | copied =>
    unfold Phase.left
    dsimp only
    split <;> omega

theorem Phase.left_pos {bears : WirePacket → Prop} [DecidablePred bears] {p : Phase}
    (hreq : p.request = some r) (hresult : p.result = none) : 0 < p.left bears := by
  cases p with
  | idle | holding => cases hreq
  | returned => cases hresult
  | sent | looping | blocked | woken => exact Nat.succ_pos _
  | copied =>
    unfold Phase.left
    dsimp only
    split <;> omega

theorem Pool.Works.back {a : WorkerAct} (h : s.Works P kSSgB t a s') (hlt : r < s.requests.length)
    (hreq : (s'.threads t).request = some r) : (s.threads t).request = some r := by
  obtain ⟨i, hslot⟩ := Phase.slot_of_request hreq
  rcases h.own hslot hreq with ⟨-, hreq, -⟩ | ⟨app, echoed, -, -, hlen, -⟩
  · exact hreq
  · omega

theorem Pool.Works.left_lt {a : WorkerAct} (h : s.Works P kSSgB q.sender a s') (hs : s.Tracked)
    (hq : s.requests[r]? = some q) (hfits : slotNonceBytes + resp.length ≤ maxInnerPayload)
    (hsaved : s.Saved P kSSgB r q resp) (hreq : (s'.threads q.sender).request = some r)
    (hchange : s'.threads q.sender ≠ s.threads q.sender) :
    (s'.threads q.sender).left (Bears P kSSgB q resp) <
      (s.threads q.sender).left (Bears P kSSgB q resp) := by
  have hlt := (List.getElem?_eq_some_iff.mp hq).1
  have hback := h.back hlt hreq
  cases h with
  | stays | stamps => exact absurd rfl hchange
  | acquires i hphase | sends i app echoed hphase =>
    rw [hphase] at hback
    cases hback
  | releases =>
    rw [Pool.threads_setThread_self] at hreq
    cases hreq
  | enters i u timeoutMs hphase | expires i u deadline hphase hlate
  | blocks i u deadline hphase hearly | timesOut i u deadline wakeAt hphase hevent hlate
  | wakes i u deadline wakeAt hphase hevent =>
    rw [Pool.threads_setThread_self, hphase]
    simp [Phase.left]
  | copies i u deadline hphase =>
    obtain ⟨-, rfl, -⟩ := hs.owner (i := i) hq (by rw [hphase]; rfl) hback
    unfold Pool.Saved at hsaved
    rw [hphase] at hsaved hback
    rw [Pool.threads_setThread_self, hphase]
    have hbears := (hsaved (Option.some.inj hback)).2
    simp [Phase.left, hbears]
  | accepts i u deadline wire answer hphase htakes =>
    rw [Pool.threads_setThread_self]
    exact Phase.left_pos hback (by rw [hphase]; rfl)
  | discards i u deadline wire hphase htakes =>
    rw [Pool.threads_setThread_self]
    have hlacks : ¬ Bears P kSSgB q resp wire := fun hbears => by
      have htake := hs.takes (i := i) hq hfits (by rw [hphase]; rfl) hback hbears
      cases htakes.symm.trans htake
    rw [hphase]
    simp [Phase.left, hlacks]

theorem Pool.Moves.back {a : SlotAct ι} (h : s.Moves P kSSgB a s') (hq : s.requests[r]? = some q)
    (hreq : (s'.threads q.sender).request = some r) :
    (s.threads q.sender).request = some r := by
  cases h with
  | stays | answers | stores | passes => exact hreq
  | works t a s' h =>
    by_cases ht : q.sender = t
    · subst ht
      exact h.back (List.getElem?_eq_some_iff.mp hq).1 hreq
    · rw [← h.other ht]
      exact hreq

theorem Pool.Moves.left_le {a : SlotAct ι} (h : s.Moves P kSSgB a s') (hs : s.Tracked)
    (hq : s.requests[r]? = some q) (hfits : slotNonceBytes + resp.length ≤ maxInnerPayload)
    (hsaved : s.Saved P kSSgB r q resp) (hreq : (s'.threads q.sender).request = some r) :
    (s'.threads q.sender).left (Bears P kSSgB q resp) +
        (if s'.threads q.sender ≠ s.threads q.sender then 1 else 0) ≤
      (s.threads q.sender).left (Bears P kSSgB q resp) := by
  by_cases hchange : s'.threads q.sender = s.threads q.sender
  · rw [if_neg (not_not.mpr hchange), hchange]
    exact Nat.le_refl _
  · rw [if_pos hchange]
    cases h with
    | stays | answers | stores | passes => exact absurd rfl hchange
    | works t a s' h =>
      by_cases ht : q.sender = t
      · subst ht
        exact h.left_lt hs hq hfits hsaved hreq hchange
      · exact absurd (h.other ht) hchange

/-- The wait is never stuck. -/
theorem Pool.Saved.next (hsaved : s.Saved P kSSgB r q resp) (hs : s.Tracked)
    (hq : s.requests[r]? = some q) (hreq : (s.threads q.sender).request = some r)
    (hresult : (s.threads q.sender).result = none) :
    ∃ a, (s.work P kSSgB q.sender a).threads q.sender ≠ s.threads q.sender := by
  unfold Pool.Saved at hsaved
  cases hphase : s.threads q.sender with
  | idle | holding =>
    rw [hphase] at hreq
    cases hreq
  | returned =>
    rw [hphase] at hresult
    cases hresult
  | sent i u =>
    refine ⟨.enter ⟨0, Nat.two_pow_pos 31⟩, ?_⟩
    simp [Pool.work, hphase]
  | looping i u deadline =>
    refine ⟨.check, ?_⟩
    cases hlate : expired deadline s.clock with
    | true => simp [Pool.work, hphase, hlate]
    | false => simp [Pool.work, hphase, hlate]
  | blocked i u deadline wakeAt =>
    obtain ⟨-, rfl, -⟩ := hs.owner (i := i) hq (by rw [hphase]; rfl) hreq
    rw [hphase] at hsaved hreq
    have hevent := (hsaved (Option.some.inj hreq)).2
    refine ⟨.wake, ?_⟩
    simp [Pool.work, hphase, hevent]
  | woken i u deadline =>
    refine ⟨.copy, ?_⟩
    simp [Pool.work, hphase]
  | copied i u deadline wire =>
    refine ⟨.filter, ?_⟩
    unfold Pool.work
    rw [hphase]
    dsimp only
    split <;> simp

/-! The run. -/

theorem Pool.Comes.saved (h : s.Comes P kSSgB q.sender r resp q.slot wire)
    (htimed : (s.threads q.sender).Timed s.clock) (hhonest : s.Honest r resp)
    (hbears : Bears P kSSgB q resp wire) (haccepts : listenerAccepts P (kSSgB q.slot) wire = true) :
    (s.step P kSSgB (.arrive q.slot wire)).Saved P kSSgB r q resp := by
  have hcurrent := h.current
  have hinTime := h.inTime
  unfold Pool.step Pool.Saved Pool.Unread
  dsimp only
  rw [if_pos haccepts, Pool.threads_setSlot, Pool.slots_setSlot_self]
  cases hphase : s.threads q.sender with
  | idle | holding => trivial
  | sent | looping | blocked => exact fun _ => ⟨⟨rfl, hbears⟩, rfl⟩
  | woken => exact fun _ => ⟨rfl, hbears⟩
  | copied => exact fun _ => .inr ⟨⟨rfl, hbears⟩, rfl⟩
  | returned i u deadline result =>
    rw [hphase] at htimed hcurrent hinTime
    cases Option.some.inj hcurrent
    intro _
    cases result with
    | none => exact absurd (hinTime deadline rfl) (Nat.not_lt.mpr htimed)
    | some answer => rw [hhonest q.sender i deadline answer hphase]

/-- Each own step brings the wait closer to the answer. -/
theorem delivers_of_saved (hs : s.Tracked) (hq : s.requests[r]? = some q)
    (hfits : slotNonceBytes + resp.length ≤ maxInnerPayload) (hsaved : s.Saved P kSSgB r q resp)
    {acts : List (SlotAct ι)}
    (hspares : StepsMeet (Pool.step P kSSgB) (Pool.Spares P kSSgB r resp) acts s) :
    (run (Pool.step P kSSgB) acts s).Delivers P kSSgB q.sender r resp
      (tally (Pool.step P kSSgB)
        (fun s a => (s.step P kSSgB a).threads q.sender ≠ s.threads q.sender) acts s) := by
  have hkeep (s : Pool ι) (a : SlotAct ι)
      (h : s.Tracked ∧ s.requests[r]? = some q ∧ s.Saved P kSSgB r q resp)
      (hG : s.Spares P kSSgB r resp a) : (s.step P kSSgB a).Tracked ∧
        (s.step P kSSgB a).requests[r]? = some q ∧ (s.step P kSSgB a).Saved P kSSgB r q resp :=
    ⟨h.1.moves (s.step_moves a), (s.step_moves a).grows.request h.2.1,
      (s.step_moves a).saved h.1 h.2.1 hfits hG h.2.2⟩
  have hstart := And.intro hs (And.intro hq hsaved)
  obtain ⟨hs', hq', hsaved'⟩ := (along_of_stepsMeet _ _ hkeep hstart hspares).last
  intro hreq
  obtain ⟨-, hmade⟩ := rank_run (Pool.step P kSSgB) _
    (fun s => (s.threads q.sender).request = some r)
    (fun s => (s.threads q.sender).left (Bears P kSSgB q resp))
    (C := fun s a => (s.step P kSSgB a).threads q.sender ≠ s.threads q.sender) hkeep
    (fun s a h hon => (s.step_moves a).back h.2.1 hon)
    (fun s a h hG hon => (s.step_moves a).left_le h.1 h.2.1 hfits h.2.2 hon) hstart hspares hreq
  have hleft := (s.threads q.sender).left_le (Bears P kSSgB q resp)
  cases hresult : ((run (Pool.step P kSSgB) acts s).threads q.sender).result with
  | none =>
    have hpos : 0 < Phase.left (Bears P kSSgB q resp) _ := Phase.left_pos hreq hresult
    exact .inr ⟨rfl, by omega, hsaved'.next hs' hq' hreq hresult⟩
  | some result => exact .inl (congrArg some (hsaved'.result hreq hresult))

/-- In every run whose actions spare it, an answer that comes before the deadline of its wait is
what the wait returns, after at most five steps. -/
theorem responses_kept (P : Primitives) (kSSgB : SlotIdx → AesKey) (u v : List (SlotAct ι)) (t : ι)
    (r : Nat) (resp : List UInt8) (i : SlotIdx) (wire : WirePacket)
    (hspares : StepsMeet (Pool.step P kSSgB) (Pool.Spares P kSSgB r resp)
      (u ++ .arrive i wire :: v) (Pool.initial ι))
    (hcomes : (run (Pool.step P kSSgB) u (Pool.initial ι)).Comes P kSSgB t r resp i wire) :
    (run (Pool.step P kSSgB) (u ++ .arrive i wire :: v) (Pool.initial ι)).Delivers P kSSgB t r resp
      (tally (Pool.step P kSSgB) (fun s a => (s.step P kSSgB a).threads t ≠ s.threads t) v
        (run (Pool.step P kSSgB) (u ++ [.arrive i wire]) (Pool.initial ι))) := by
  rw [stepsMeet_append] at hspares
  obtain ⟨hbefore, -, hafter⟩ := hspares
  obtain ⟨htracked, htimed⟩ := run_keeps (Pool.step P kSSgB)
    (fun s => s.Tracked ∧ ∀ u, (s.threads u).Timed s.clock)
    (fun s a hs => ⟨hs.1.moves (s.step_moves a), (s.step_moves a).timed hs.2⟩) u
    (s := Pool.initial ι) ⟨Pool.tracked_initial ι, fun _ => trivial⟩
  obtain ⟨q, hq, rfl, rfl, hbears, haccepts, hfits⟩ := hcomes.bears htracked
  have hhonest := (along_of_stepsMeet (Pool.step P kSSgB) (fun s => s.Tracked ∧ s.Honest r resp)
    (fun s a hs hG => ⟨hs.1.moves (s.step_moves a), hs.2.moves hs.1 hfits (s.step_moves a) hG⟩)
    ⟨Pool.tracked_initial ι, fun _ _ _ _ h => nomatch h⟩ hbefore).last.2
  rw [run_concat, run_append]
  exact delivers_of_saved (htracked.moves (Pool.step_moves _ _))
    ((Pool.step_moves _ _).grows.request hq) hfits
    (hcomes.saved (htimed q.sender) hhonest hbears haccepts) hafter

/-- A heartbeat has timed out, another thread has sent one on the slot, and the gateway has
answered both. -/
def bothAnswered : List (SlotAct Nat) :=
  sendHeartbeat 0 1 ++ [.tick 3000, .worker 0 .timeOut, .worker 0 .release] ++ sendHeartbeat 1 2 ++
    [.answer 0 [7], .answer 1 [8]]

theorem comes_heartbeatAnswer {s : Pool Nat} {t r : Nat} {nonce : UInt8} {resp : List UInt8}
    (hanswered : (r, resp) ∈ s.answered) (hcurrent : (s.threads t).request = some r)
    (hinTime : ∀ deadline ∈ (s.threads t).deadline, s.clock < deadline)
    (hrequest : ∃ q ∈ s.requests[r]?, q.slot = sampleSlot ∧
      withNonce q.app resp = withNonce (sampleHeartbeat nonce) resp)
    (hlen : (pktReal :: withNonce (sampleHeartbeat nonce) resp).length + gcmOverhead ≤
      returnPayloadSize - 2) :
    s.Comes .sample sampleSlotKey t r resp sampleSlot (heartbeatAnswer nonce resp) := by
  obtain ⟨q, hq, hslot, hplain⟩ := hrequest
  obtain ⟨enc, henc, -⟩ := cryptoAesEncrypt_of_fits .sample (sampleSlotKey sampleSlot)
    (Bytes.zero _) (pktReal :: withNonce (sampleHeartbeat nonce) resp) (returnPayloadSize - 2) hlen
  refine ⟨hanswered, hcurrent, hinTime, q, hq, hslot, Bytes.zero _, enc, ?_, read_slotPacket henc⟩
  rw [hplain]
  exact henc

theorem responses_kept_afterStale :
    (run (Pool.step .sample sampleSlotKey)
      ((bothAnswered ++ [.arrive sampleSlot (heartbeatAnswer 1 [7]), .worker 1 .wake,
        .worker 1 .copy]) ++ .arrive sampleSlot (heartbeatAnswer 2 [8]) ::
          (.worker 1 .filter :: .worker 1 .check :: waitOnce 1)) (Pool.initial Nat)).Delivers
        .sample sampleSlotKey 1 1 [8] 5 :=
  responses_kept .sample sampleSlotKey (bothAnswered ++ [.arrive sampleSlot (heartbeatAnswer 1 [7]),
      .worker 1 .wake, .worker 1 .copy]) (.worker 1 .filter :: .worker 1 .check :: waitOnce 1) 1 1 [8]
    sampleSlot (heartbeatAnswer 2 [8]) (by decide +kernel)
    (comes_heartbeatAnswer (by decide +kernel) (by decide +kernel) (by decide +kernel)
      (by decide +kernel) (by decide))

/-- The answer to the earlier request comes right behind it. -/
def overwritten : List (SlotAct Nat) :=
  .arrive sampleSlot (heartbeatAnswer 1 [7]) ::
    (waitOnce 1 ++ [.tick 3000, .worker 1 .timeOut])

theorem stale_response_overwrites :
    StepsMeet (Pool.step .sample sampleSlotKey)
      (fun s a => s.Authentic .sample sampleSlotKey a ∧ s.Fresh a)
      (bothAnswered ++ .arrive sampleSlot (heartbeatAnswer 2 [8]) :: overwritten)
      (Pool.initial Nat) ∧
    (run (Pool.step .sample sampleSlotKey) bothAnswered (Pool.initial Nat)).Comes .sample
      sampleSlotKey 1 1 [8] sampleSlot (heartbeatAnswer 2 [8]) ∧
    (run (Pool.step .sample sampleSlotKey)
      (bothAnswered ++ .arrive sampleSlot (heartbeatAnswer 2 [8]) :: overwritten)
      (Pool.initial Nat)).threads 1 = .returned sampleSlot 1 6000 none :=
  ⟨by decide +kernel, comes_heartbeatAnswer (by decide +kernel) (by decide +kernel)
    (by decide +kernel) (by decide +kernel) (by decide), by decide +kernel⟩

end AnonSecNet.Sender
