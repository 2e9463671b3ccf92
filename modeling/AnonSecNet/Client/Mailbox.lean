import AnonSecNet.Client.Receive
import AnonSecNet.Foundation.Machine

/-! The one mailbox of `client.c`: requests sent in sequence, each followed by a wait, while
responses arrive in any order and at any time. -/
namespace AnonSecNet.Client
open Octets
variable (P : Primitives) (kRSgB : AesKey) (response : Nat → List UInt8)

/-- `buf` is `g_resp_buf` and `ready` the event. -/
structure State where
  sent : Nat
  waiting : Bool
  buf : WirePacket
  ready : Bool
  returned : List (Nat × List UInt8)

def State.initial : State := ⟨0, false, Bytes.zero _, false, []⟩

/-- The request a wait belongs to. -/
def State.last (s : State) : Nat := s.sent - 1

inductive Act where
  | send
  | arrive (n : Nat) (flags : UInt8) (hdr : ReturnHeader) (gcmNonce : Bytes gcmNonceLen)
  | wait

/-- A return packet as the last relay delivers it: `response n` is what the SG answers to
request `n`. -/
def deliveredWire (n : Nat) (flags : UInt8) (hdr : ReturnHeader) (gcmNonce : Bytes gcmNonceLen) :
    Option WirePacket :=
  if (response n).length ≤ maxInnerPayload then
    (cryptoAesEncrypt P kRSgB gcmNonce (flags :: response n) (returnPayloadSize - 2)).map
      fun enc => hdr ++ Gateway.returnPayload enc
  else none

/-- One round of `response_listener`. -/
def stepArrive (s : State) (wire : WirePacket) : State :=
  if listenerAccepts P kRSgB wire then { s with buf := wire, ready := true } else s

/-- `wait_response`; without a response in the mailbox it times out. -/
def stepWait (s : State) : State :=
  if s.ready then
    { s with
      waiting := false
      ready := false
      returned := s.returned ++
        ((waitResponse P kRSgB s.buf).toList.map fun out => (s.last, out)) }
  else { s with waiting := false }

/-- A request is only sent once the wait for the one before it is over, and only requests
that were sent are answered. -/
def step (s : State) : Act → State
  | .send => if s.waiting then s else { s with sent := s.sent + 1, waiting := true }
  | .arrive n flags hdr gcmNonce =>
    if n < s.sent then
      match deliveredWire P kRSgB response n flags hdr gcmNonce with
      | some wire => stepArrive P kRSgB s wire
      | none => s
    else s
  | .wait => if s.waiting then stepWait P kRSgB s else s

/-- Every wait returned the response to the request sent immediately before it. -/
def Correlated (s : State) : Prop := ∀ r ∈ s.returned, r.2 = response r.1

/-! The same run seen from the network, where there is no mailbox. -/

/-- How many requests are out, whether the last of them is waited for, and which request the last
real response answers that has come since the wait before. -/
structure Arrivals where
  sent : Nat
  waiting : Bool
  latest : Option Nat

def Arrivals.initial : Arrivals := ⟨0, false, none⟩

def Arrivals.step (net : Arrivals) : Act → Arrivals
  | .send => if net.waiting then net else { net with sent := net.sent + 1, waiting := true }
  | .arrive n flags _ _ =>
    if n < net.sent ∧ flags = pktReal ∧ (response n).length ≤ maxInnerPayload then
      { net with latest := some n }
    else net
  | .wait => if net.waiting then { net with waiting := false, latest := none } else net

/-- When a wait ends, the last real response that has come since the wait before is one to the
request just sent, if any has come. -/
def LatestAnswers (net : Arrivals) (a : Act) : Prop :=
  a = .wait → net.waiting = true → ∀ n, net.latest = some n →
    response n = response (net.sent - 1)

/-! What the listener accepts. -/

theorem deliveredWire_eq_some {n : Nat} {flags : UInt8} {hdr : ReturnHeader}
    {gcmNonce : Bytes gcmNonceLen} {wire : WirePacket}
    (h : deliveredWire P kRSgB response n flags hdr gcmNonce = some wire) :
    (response n).length ≤ maxInnerPayload ∧ ∃ enc,
      cryptoAesEncrypt P kRSgB gcmNonce (flags :: response n) (returnPayloadSize - 2) = some enc ∧
      wire.read returnHeaderSize returnPayloadSize = Gateway.returnPayload enc := by
  unfold deliveredWire at h
  split at h
  · rename_i hlen
    obtain ⟨enc, henc, rfl⟩ := Option.map_eq_some_iff.mp h
    exact ⟨hlen, enc, henc, Bytes.read_append_snd _ _⟩
  · cases h

/-- The listener keeps real responses and drops cover. -/
theorem accepts_iff_real {n : Nat} {flags : UInt8} {hdr : ReturnHeader}
    {gcmNonce : Bytes gcmNonceLen} {wire : WirePacket}
    (h : deliveredWire P kRSgB response n flags hdr gcmNonce = some wire) :
    listenerAccepts P kRSgB wire = true ↔ flags = pktReal := by
  obtain ⟨hlen, enc, henc, hread⟩ := deliveredWire_eq_some P kRSgB response h
  constructor
  · intro haccept
    unfold listenerAccepts at haccept
    rw [(decrypt_of_payload P hlen henc hread).2] at haccept
    simp only [Bool.and_eq_true, beq_iff_eq] at haccept
    exact haccept.2
  · rintro rfl
    exact (receives_real P hlen henc hread).1

theorem deliveredWire_isSome {n : Nat} (flags : UInt8) (hdr : ReturnHeader)
    (gcmNonce : Bytes gcmNonceLen) :
    (deliveredWire P kRSgB response n flags hdr gcmNonce).isSome ↔
      (response n).length ≤ maxInnerPayload := by
  constructor
  · intro h
    obtain ⟨wire, hwire⟩ := Option.isSome_iff_exists.mp h
    exact (deliveredWire_eq_some P kRSgB response hwire).1
  · intro hlen
    obtain ⟨enc, henc, -⟩ := cryptoAesEncrypt_of_fits P kRSgB gcmNonce (flags :: response n)
      (returnPayloadSize - 2) (by simp at hlen ⊢; omega)
    unfold deliveredWire
    rw [if_pos hlen, henc]
    rfl

/-! The mailbox against the arrivals. -/

/-- The mailbox holds the latest arrival, and nothing when none has come since the last wait. -/
structure Follows (s : State) (net : Arrivals) : Prop where
  sent : s.sent = net.sent
  waiting : s.waiting = net.waiting
  ready : s.ready = net.latest.isSome
  mailbox : ∀ n, net.latest = some n → waitResponse P kRSgB s.buf = some (response n)

theorem Follows.initial : Follows P kRSgB response State.initial Arrivals.initial :=
  ⟨rfl, rfl, rfl, nofun⟩

section
variable {P kRSgB response} {s : State} {net : Arrivals}

theorem Follows.send (h : Follows P kRSgB response s net) :
    Follows P kRSgB response (step P kRSgB response s .send) (net.step response .send) ∧
      (step P kRSgB response s .send).returned = s.returned := by
  unfold Client.step Arrivals.step
  dsimp only
  rw [h.waiting]
  split
  · exact ⟨h, rfl⟩
  · exact ⟨⟨congrArg (· + 1) h.sent, rfl, h.ready, h.mailbox⟩, rfl⟩

theorem Follows.arrive (h : Follows P kRSgB response s net) (n : Nat) (flags : UInt8)
    (hdr : ReturnHeader) (gcmNonce : Bytes gcmNonceLen) :
    Follows P kRSgB response (step P kRSgB response s (.arrive n flags hdr gcmNonce))
        (net.step response (.arrive n flags hdr gcmNonce)) ∧
      (step P kRSgB response s (.arrive n flags hdr gcmNonce)).returned = s.returned := by
  have hisSome := deliveredWire_isSome P kRSgB response (n := n) flags hdr gcmNonce
  unfold Client.step Arrivals.step
  dsimp only
  rw [h.sent]
  by_cases hsent : n < net.sent
  · rw [if_pos hsent]
    cases hwire : deliveredWire P kRSgB response n flags hdr gcmNonce with
    | none =>
      rw [hwire] at hisSome
      rw [if_neg fun hcond => by simpa using hisSome.mpr hcond.2.2]
      exact ⟨h, rfl⟩
    | some wire =>
      obtain ⟨hlen, enc, henc, hread⟩ := deliveredWire_eq_some P kRSgB response hwire
      have haccept := accepts_iff_real P kRSgB response hwire
      dsimp only
      unfold stepArrive
      by_cases hreal : flags = pktReal
      · rw [if_pos (haccept.mpr hreal), if_pos ⟨hsent, hreal, hlen⟩]
        subst hreal
        refine ⟨⟨h.sent, h.waiting, rfl, fun m hm => ?_⟩, rfl⟩
        rw [← Option.some.inj hm]
        exact (receives_real P hlen henc hread).2
      · rw [if_neg fun hcond => hreal (haccept.mp hcond), if_neg fun hcond => hreal hcond.2.1]
        exact ⟨h, rfl⟩
  · rw [if_neg hsent, if_neg fun hcond => hsent hcond.1]
    exact ⟨h, rfl⟩

/-- What a wait returns is the latest arrival, which it takes away. -/
theorem Follows.wait (h : Follows P kRSgB response s net) :
    Follows P kRSgB response (step P kRSgB response s .wait) (net.step response .wait) ∧
      (step P kRSgB response s .wait).returned
        = s.returned ++ if net.waiting then
            net.latest.toList.map fun n => (net.sent - 1, response n)
          else [] := by
  unfold Client.step Arrivals.step
  dsimp only
  rw [h.waiting]
  by_cases hwait : net.waiting = true
  · rw [if_pos hwait, if_pos hwait, if_pos hwait]
    unfold stepWait
    rw [h.ready]
    cases hlatest : net.latest with
    | none =>
      rw [if_neg (by simp)]
      refine ⟨⟨h.sent, rfl, ?_, nofun⟩, (List.append_nil _).symm⟩
      rfl
    | some n =>
      rw [if_pos (by simp), h.mailbox n hlatest]
      refine ⟨⟨h.sent, rfl, rfl, nofun⟩, ?_⟩
      rw [State.last, h.sent]
      rfl
  · rw [if_neg hwait, if_neg hwait, if_neg hwait]
    exact ⟨h, (List.append_nil _).symm⟩

/-- One action keeps the mailbox to the arrivals, and all that is returned answers its request as
long as the latest arrivals do. -/
theorem Follows.step (h : Follows P kRSgB response s net) (hs : Correlated response s) (a : Act) :
    Follows P kRSgB response (step P kRSgB response s a) (net.step response a) ∧
      (Correlated response (Client.step P kRSgB response s a) ↔ LatestAnswers response net a) := by
  have hquiet : ∀ {s'}, s'.returned = s.returned → a ≠ .wait →
      (Correlated response s' ↔ LatestAnswers response net a) := fun hsame hact =>
    iff_of_true (fun r hr => hs r (hsame ▸ hr)) fun hwait => absurd hwait hact
  cases a with
  | send => exact ⟨h.send.1, hquiet h.send.2 nofun⟩
  | arrive n flags hdr gcmNonce =>
    exact ⟨(h.arrive n flags hdr gcmNonce).1, hquiet (h.arrive n flags hdr gcmNonce).2 nofun⟩
  | wait =>
    obtain ⟨hnext, hreturned⟩ := h.wait
    refine ⟨hnext, ?_⟩
    unfold Correlated
    rw [hreturned]
    constructor
    · intro hall _ hwait n hlatest
      refine hall (net.sent - 1, response n) (List.mem_append_right _ ?_)
      rw [if_pos hwait, hlatest]
      exact List.mem_singleton.mpr rfl
    · intro hlatest r hr
      obtain hr | hr := List.mem_append.mp hr
      · exact hs r hr
      · by_cases hwait : net.waiting = true
        · rw [if_pos hwait] at hr
          obtain ⟨n, hn, rfl⟩ := List.mem_map.mp hr
          exact hlatest rfl hwait n (Option.mem_toList.mp hn)
        · rw [if_neg hwait] at hr
          cases hr

theorem Follows.along_iff (h : Follows P kRSgB response s net) (hs : Correlated response s)
    (acts : List Act) :
    Machine.Along (Client.step P kRSgB response) (Correlated response) acts s ↔
      Machine.StepsMeet (Arrivals.step response) (LatestAnswers response) acts net := by
  induction acts generalizing s net with
  | nil => exact iff_of_true hs trivial
  | cons a acts ih =>
    obtain ⟨hnext, hiff⟩ := h.step hs a
    constructor
    · rintro ⟨-, hrest⟩
      exact ⟨hiff.mp hrest.head, (ih hnext hrest.head).mp hrest⟩
    · rintro ⟨hlatest, hrest⟩
      have hs' := hiff.mpr hlatest
      exact ⟨hs, (ih hnext hs').mpr hrest⟩

end

/-- In every run of the client, every wait returns the response to its own request exactly if of
the real responses that come between two waits the last is always one to the request just sent. -/
theorem responses_correlated_iff (acts : List Act) :
    Machine.Along (step P kRSgB response) (Correlated response) acts State.initial ↔
      Machine.StepsMeet (Arrivals.step response) (LatestAnswers response) acts Arrivals.initial :=
  (Follows.initial P kRSgB response).along_iff nofun acts

/-- One timed-out request whose response comes late, and the next request. -/
def lateRun : List Act :=
  [.send, .wait, .arrive 0 pktReal (Bytes.zero _) (Bytes.zero _), .send, .wait]

/-- The second request is answered with the response to the first. -/
theorem late_response_is_returned :
    (Machine.run (step .sample (sampleMaster 0) fun n => [UInt8.ofNat n]) lateRun
      State.initial).returned = [(1, [0])] ∧
    ¬ Machine.Along (step .sample (sampleMaster 0) fun n => [UInt8.ofNat n])
        (Correlated fun n => [UInt8.ofNat n]) lateRun State.initial := by
  have hend : (Machine.run (step .sample (sampleMaster 0) fun n => [UInt8.ofNat n]) lateRun
      State.initial).returned = [(1, [0])] := by decide +kernel
  refine ⟨hend, fun h => ?_⟩
  have hlast : Correlated (fun n => [UInt8.ofNat n]) _ := h.last
  have hreturned := hlast (1, [0]) (by rw [hend]; exact List.mem_singleton.mpr rfl)
  revert hreturned
  decide

end AnonSecNet.Client
