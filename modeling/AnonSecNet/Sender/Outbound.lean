import AnonSecNet.Client.Outbound

/-! `send_app_request` of `sender.c` with the credit that holds cover back. -/
namespace AnonSecNet.Sender
open Octets
open Client (Outbound)

/-- The globals that `send_app_request` works on. -/
structure RequestGlobals where
  state : SenderState
  outbound : Outbound

/-- The arguments of a request, and what it gets from outside. -/
structure RequestCall where
  type : RequestType
  key : CString
  data : Option (List UInt8)
  inp : SendInput

variable (P : Primitives) (mixing : Bool)

/-- With the packet that got away. Up to the packet it is the request to an entry node that
accepts. -/
def RequestGlobals.sendAppRequest (w : RequestGlobals) (c : RequestCall) :
    SendOutcome WirePacket × RequestGlobals :=
  match Sender.sendAppRequest P w.state c.type c.key c.data { c.inp with connects := true } with
  | (.refused, s) => (.refused, { w with state := s })
  | (.overrun, s) => (.overrun, { w with state := s })
  | (.sent pkt, s) =>
    let (away, outbound) := w.outbound.dispatch mixing (fun _ => 1) c.inp.connects pkt
    (if away then .sent pkt else .refused, ⟨s, outbound⟩)

/-- Nothing stops the request. -/
def RequestGlobals.Sends (w : RequestGlobals) (c : RequestCall) : Prop :=
  Sender.Sends w.state c.key (c.data.map List.length)
    { c.inp with connects := mixing || c.inp.connects }

instance (w : RequestGlobals) (c : RequestCall) : Decidable (w.Sends mixing c) := by
  unfold RequestGlobals.Sends
  infer_instance

/-- The copy of the request runs past the end of its buffer. -/
def RequestGlobals.Overruns (w : RequestGlobals) (c : RequestCall) : Prop :=
  Sender.Overruns w.state c.key (c.data.map List.length) c.inp

/-- The counters and the credit are as before. -/
structure RequestGlobals.Unconsumed (w w' : RequestGlobals) : Prop where
  slots : ∀ i, (w'.state.slots i).counters = (w.state.slots i).counters
  credit : w'.outbound.realTrafficPending = w.outbound.realTrafficPending

variable (w : RequestGlobals) (c : RequestCall)

theorem RequestGlobals.sendAppRequest_state :
    (w.sendAppRequest P mixing c).2.state
      = (Sender.sendAppRequest P w.state c.type c.key c.data
          { c.inp with connects := true }).2 := by
  unfold RequestGlobals.sendAppRequest
  split
  all_goals
    rename_i hout
    rw [hout]

/-- When the packet gets away, and when the buffer is overrun. -/
theorem RequestGlobals.sendAppRequest_spec :
    ((w.sendAppRequest P mixing c).1.isSent = true ↔ w.Sends mixing c) ∧
      ((w.sendAppRequest P mixing c).1 = .overrun ↔ w.Overruns c) := by
  obtain ⟨-, hsent, hover⟩ := Sender.sendAppRequest_spec P w.state c.type c.key c.data
    { c.inp with connects := true }
  have hneeds : w.Sends mixing c → Sender.Sends w.state c.key (c.data.map List.length)
      { c.inp with connects := true } :=
    fun h => ⟨h.1, h.2.1, h.2.2.1, h.2.2.2.1, rfl, h.2.2.2.2.2⟩
  have hcopy : Sender.Overruns w.state c.key (c.data.map List.length)
      { c.inp with connects := true } ↔ w.Overruns c := Iff.rfl
  rw [hcopy] at hover
  unfold RequestGlobals.sendAppRequest
  cases hout : Sender.sendAppRequest P w.state c.type c.key c.data
      { c.inp with connects := true } with
  | mk outcome s =>
    rw [hout] at hsent hover
    cases outcome with
    | refused =>
      exact ⟨iff_of_false nofun fun h => (nomatch hsent.mpr (hneeds h)),
        iff_of_false nofun fun h => (nomatch hover.mpr h)⟩
    | overrun =>
      exact ⟨iff_of_false nofun fun h => (nomatch hsent.mpr (hneeds h)),
        iff_of_true rfl (hover.mp rfl)⟩
    | sent pkt =>
      obtain ⟨hready, hheader, hnonce, hrandom, -, hshort⟩ := hsent.mp rfl
      have hnot : ¬ w.Overruns c := fun h => nomatch hover.mpr h
      unfold Outbound.dispatch RequestGlobals.Sends Sender.Sends
      cases mixing <;> cases hconnects : c.inp.connects <;>
        simp [hready, hheader, hnonce, hrandom, hshort, hnot]

/-- A request that is rejected consumes nothing exactly if the paths are not ready. -/
theorem RequestGlobals.unconsumed_iff :
    ((w.sendAppRequest P mixing c).1.isSent = false →
        (w.sendAppRequest P mixing c).1 = .refused ∧
          w.Unconsumed (w.sendAppRequest P mixing c).2) ↔
      w.state.ready = false ∨ w.Sends mixing c := by
  constructor
  · intro h
    by_contra hnot
    obtain ⟨hready, hstopped⟩ := not_or.mp hnot
    rw [Bool.not_eq_false] at hready
    have hnone : (w.sendAppRequest P mixing c).1.isSent = false := by
      rw [← Bool.not_eq_true, (w.sendAppRequest_spec P mixing c).1]
      exact hstopped
    have hdrawn := (sendAppRequest_counters P w.state c.type c.key c.data
      { c.inp with connects := true } c.inp.slot).1
    have hkept := congrArg Client.Counters.returnPkt ((h hnone).2.slots c.inp.slot)
    rw [w.sendAppRequest_state, hdrawn, if_pos ⟨hready, rfl⟩] at hkept
    omega
  · rintro (hready | hsends) hnone
    · have hstay : Sender.sendAppRequest P w.state c.type c.key c.data
          { c.inp with connects := true } = (.refused, w.state) := by
        unfold Sender.sendAppRequest
        rw [if_pos hready]
      unfold RequestGlobals.sendAppRequest
      rw [hstay]
      exact ⟨rfl, fun _ => rfl, rfl⟩
    · have hsome := (w.sendAppRequest_spec P mixing c).1.mpr hsends
      rw [hnone] at hsome
      cases hsome

/-! Runs of requests. -/

/-- The counters of the slots that requests take values from. -/
inductive CounterOf where
  | returnPkt (i : Fin senderResponsePortCount)
  | sendPkt (i : Fin senderResponsePortCount)

def RequestGlobals.counter (w : RequestGlobals) : CounterOf → Nat
  | .returnPkt i => (w.state.slots i).counters.returnPkt
  | .sendPkt i => (w.state.slots i).counters.sendPkt

/-- The seeds of the hops that look for the hints of the counter. -/
def RequestGlobals.hintSeed (w : RequestGlobals) : CounterOf → Fin nPathHops → AesKey
  | .returnPkt i, hop => ((w.state.slots i).recvHops hop).hintSeed
  | .sendPkt i, hop => ((w.state.slots i).path.hops hop).hintSeed

/-- The hint of the slot's next header, or of its next packet, at one of the hops. -/
def RequestGlobals.nextHint (w : RequestGlobals) (x : CounterOf) (hop : Fin nPathHops) : Hint :=
  packetDeriveHopHint P (w.hintSeed x hop) (longValue (w.counter x))

/-- The request takes a value from the counter. -/
def RequestGlobals.Draws (w : RequestGlobals) (c : RequestCall) : CounterOf → Prop
  | .returnPkt i => w.state.ready = true ∧ c.inp.slot = i
  | .sendPkt i => Reaches w.state c.key (c.data.map List.length) { c.inp with connects := true } ∧
      c.inp.slot = i

instance (x : CounterOf) : Decidable (w.Draws c x) := by
  cases x <;> (unfold RequestGlobals.Draws; infer_instance)

def RequestGlobals.request (w : RequestGlobals) (c : RequestCall) : RequestGlobals :=
  (w.sendAppRequest P mixing c).2

theorem RequestGlobals.counter_request (x : CounterOf) :
    (w.request P mixing c).counter x = w.counter x + if w.Draws c x then 1 else 0 := by
  have hdrawn := sendAppRequest_counters P w.state c.type c.key c.data
    { c.inp with connects := true }
  rw [← w.sendAppRequest_state P mixing c] at hdrawn
  cases x with
  | returnPkt i => exact (hdrawn i).1
  | sendPkt i => exact (hdrawn i).2.1

theorem RequestGlobals.counter_run (x : CounterOf) (cs : List RequestCall) :
    (Machine.run (RequestGlobals.request P mixing) cs w).counter x
      = w.counter x + Machine.tally (RequestGlobals.request P mixing)
          (fun w c => w.Draws c x) cs w :=
  Machine.counter_run (RequestGlobals.request P mixing)
    (f := fun w => w.counter x) (G := fun w c => w.Draws c x)
    (fun w c => w.counter_request P mixing c x) cs w

/-- Over a run the return counter of a slot goes up with the slot's packets that got away, and with
nothing else, exactly if no request on it was rejected while the paths were ready. -/
theorem RequestGlobals.returnPkt_run_iff (i : Fin senderResponsePortCount)
    (cs : List RequestCall) :
    ((Machine.run (RequestGlobals.request P mixing) cs w).state.slots i).counters.returnPkt
        = (w.state.slots i).counters.returnPkt
          + Machine.tally (RequestGlobals.request P mixing)
              (fun w c => w.Sends mixing c ∧ c.inp.slot = i) cs w ↔
      Machine.StepsMeet (RequestGlobals.request P mixing)
        (fun w c => c.inp.slot = i → w.state.ready = false ∨ w.Sends mixing c) cs w := by
  have hcount := RequestGlobals.counter_run P mixing w (.returnPkt i) cs
  have hsent := Machine.tally_eq_iff (RequestGlobals.request P mixing)
    (G := fun w c => w.Sends mixing c ∧ c.inp.slot = i) (H := fun w c => w.Draws c (.returnPkt i))
    (fun _ _ h => ⟨h.1.1, h.2⟩) cs w
  have hcond : (fun (w : RequestGlobals) (c : RequestCall) =>
        c.inp.slot = i → w.state.ready = false ∨ w.Sends mixing c)
      = fun w c => w.Draws c (.returnPkt i) → w.Sends mixing c ∧ c.inp.slot = i := by
    funext w c
    unfold RequestGlobals.Draws
    rw [← Bool.not_eq_true, ← imp_iff_not_or]
    exact propext ⟨fun h hd => ⟨h hd.2 hd.1, hd.2⟩, fun h hi hready => (h ⟨hready, hi⟩).1⟩
  rw [hcond, ← hsent]
  change (Machine.run (RequestGlobals.request P mixing) cs w).counter (.returnPkt i) = _ ↔ _
  rw [hcount]
  exact Nat.add_left_cancel_iff

/-- A request that meets the condition stays in its buffer. -/
theorem RequestGlobals.not_overruns {w : RequestGlobals} {c : RequestCall}
    (h : w.state.ready = false ∨ w.Sends mixing c) : ¬ w.Overruns c := by
  intro hcopy
  obtain hready | hsends := h
  · exact Bool.noConfusion (hready.symm.trans hcopy.1)
  · exact absurd hsends.2.2.2.2.2.2 (Nat.not_le_of_lt hcopy.2.2.2.2.2)

/-- Over a run no buffer is overrun and the return counters of all slots go up with the packets that
got away, exactly if no request was rejected while the paths were ready. -/
theorem RequestGlobals.returnPkts_run_iff (cs : List RequestCall) :
    (Machine.StepsMeet (RequestGlobals.request P mixing) (fun w c => ¬ w.Overruns c) cs w ∧
      ∀ i, ((Machine.run (RequestGlobals.request P mixing) cs w).state.slots i).counters.returnPkt
        = (w.state.slots i).counters.returnPkt
          + Machine.tally (RequestGlobals.request P mixing)
              (fun w c => w.Sends mixing c ∧ c.inp.slot = i) cs w) ↔
      Machine.StepsMeet (RequestGlobals.request P mixing)
        (fun w c => w.state.ready = false ∨ w.Sends mixing c) cs w := by
  have hslots (i : Fin senderResponsePortCount) :=
    RequestGlobals.returnPkt_run_iff P mixing w i cs
  constructor
  · intro h
    have hall := Machine.StepsMeet.all _ fun i => (hslots i).mp (h.2 i)
    exact hall.mono _ fun w c hc => hc c.inp.slot rfl
  · intro h
    refine ⟨h.mono _ fun w c hc => RequestGlobals.not_overruns mixing hc, fun i => ?_⟩
    refine (hslots i).mpr (h.mono _ fun w c hc => ?_)
    exact fun _ => hc

end AnonSecNet.Sender
