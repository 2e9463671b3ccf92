import AnonSecNet.Client.Packets
import AnonSecNet.Gateway.Mailbox
import AnonSecNet.MixNode.HintWindow
import Mathlib.Data.List.Perm.Basic

/-! The return headers of one client on their way round: built on one counter, carried to the
gateway by requests and by cover, waiting there in the mailboxes of the sending legs, and looked
up by the first relay of the receiving path in the order in which they left. -/
namespace AnonSecNet.Retrieval.MailboxGap
open Octets Machine Client Gateway MixNode
variable (P : Primitives) (route : ReturnRoute) {ι : Type*}

inductive Kind where
  | setup | request | cover
deriving DecidableEq

/-- A forward packet, with the return header in its payload. -/
structure Forward (ι : Type*) where
  leg : ι
  kind : Kind
  hdr : ReturnHeader

/-- A response of the ring, or what the gateway sends at once: the reply to a SETUP and cover. -/
inductive Way where
  | ring | direct
deriving DecidableEq

structure Departure where
  hdr : ReturnHeader
  way : Way
  found : Bool

/-- `serving` are the requests that threads of the gateway work on. Recorded besides: the counter
of every header, the headers that left the gateway and whether the relay found them, and those
that never will. -/
structure State (ι : Type*) where
  returnPkt : Nat
  transit : List (Forward ι)
  serving : List (Forward ι)
  box : ι → BoxSlot
  relay : HintState
  built : List (ReturnHeader × Nat)
  departed : List Departure
  lost : List ReturnHeader

def State.initial : State ι where
  returnPkt := 0
  transit := []
  serving := []
  box := fun _ => BoxSlot.taken sessionRoleA
  relay := sessionInitHintWindow P (route.recvHops 0).hintSeed
  built := []
  departed := []
  lost := []

/-- `live` says that the gateway has what it needs to answer: a finished setup, a bound receiving
session and a relay that accepts the connection. -/
inductive Act (ι : Type*) where
  | build (leg : ι) (kind : Kind) (nonces : Fin nPathHops → Bytes returnNonceBytes) (sent : Bool)
  | arrive (live : Bool) (now : Nat)
  | serve (k : Nat) (resp : Option (List UInt8)) (now : Nat)
  | flush (leg : ι) (live : Bool) (now : Nat)

/-- What `send_response` drops. -/
def overflow (b : BoxSlot) : List ReturnHeader :=
  if b.waiting.length = pendingRespQueue then (b.waiting.take 1).map PendingResp.hdr else []

/-- What `pending_resp_flush_thread` takes from a slot. -/
def flushPop (b : BoxSlot) (now : Nat) : Option PendingCell × BoxSlot :=
  if b.inUse = true ∧ b.role = sessionRoleA then b.pendingPop pendingResponseMaxWaitMs now
  else (none, b)

variable [DecidableEq ι]

/-- The state behind an action, and the header that leaves with it. -/
def act (s : State ι) : Act ι → State ι × Option (ReturnHeader × Way)
  | .build leg kind nonces sent =>
    let header := buildReturnHeaderInto P route ⟨0, 0, s.returnPkt⟩ nonces
    let s := { s with
      returnPkt := header.2.returnPkt
      built := s.built ++ [(header.1, longValue s.returnPkt)] }
    if sent then ({ s with transit := s.transit ++ [⟨leg, kind, header.1⟩] }, none)
    else ({ s with lost := s.lost ++ [header.1] }, none)
  | .arrive live now =>
    match s.transit with
    | [] => (s, none)
    | f :: rest =>
      let s := { s with transit := rest }
      if ¬live then ({ s with lost := s.lost ++ [f.hdr] }, none)
      else
        match f.kind with
        | .setup => (s, some (f.hdr, .direct))
        | .request => ({ s with serving := s.serving ++ [f] }, none)
        | .cover =>
          match (s.box f.leg).pendingPop 0 now with
          -- the spare header of the cover packet goes unused
          | (some e, b) =>
            ({ s with box := Function.update s.box f.leg b, lost := s.lost ++ [f.hdr] },
              some (e.hdr, .ring))
          | (none, _) => (s, some (f.hdr, .direct))
  | .serve k resp now =>
    match s.serving[k]? with
    | none => (s, none)
    | some f =>
      let s := { s with serving := s.serving.eraseIdx k }
      match resp with
      | none => ({ s with lost := s.lost ++ [f.hdr] }, none)
      | some resp =>
        if resp.length ≤ maxInnerPayload then
          ({ s with
            box := Function.update s.box f.leg ((s.box f.leg).sendResponse f.hdr resp now)
            lost := s.lost ++ overflow (s.box f.leg) }, none)
        else ({ s with lost := s.lost ++ [f.hdr] }, none)
  | .flush leg live now =>
    match flushPop (s.box leg) now with
    | (none, _) => (s, none)
    | (some e, b) =>
      let s := { s with box := Function.update s.box leg b }
      if live then (s, some (e.hdr, .ring)) else ({ s with lost := s.lost ++ [e.hdr] }, none)

/-- `handle_return` of the first relay: the MAC of a header the client built verifies, and the
packets are taken in the order in which they left. -/
def depart (s : State ι) (hdr : ReturnHeader) (way : Way) : State ι :=
  match matchHint s.relay (returnOuterHint hdr) with
  | none => { s with departed := s.departed ++ [⟨hdr, way, false⟩] }
  | some (d, w) =>
    { s with
      relay := sessionAdvanceHintWindow P s.relay d w
      departed := s.departed ++ [⟨hdr, way, true⟩] }

def step (s : State ι) (a : Act ι) : State ι :=
  match act P route s a with
  | (s, none) => s
  | (s, some (hdr, way)) => depart P s hdr way

/-- Every response that left a ring had its hint in the window. -/
def RingFound (s : State ι) : Prop := ∀ d ∈ s.departed, d.way = .ring → d.found = true

instance (s : State ι) : Decidable (RingFound s) :=
  inferInstanceAs (Decidable (∀ d ∈ s.departed, _))

def AllFound (s : State ι) : Prop := ∀ d ∈ s.departed, d.found = true

instance (s : State ι) : Decidable (AllFound s) :=
  inferInstanceAs (Decidable (∀ d ∈ s.departed, _))

/-- A header with this counter left the gateway. -/
def Left (s : State ι) (m : Nat) : Prop := ∃ d ∈ s.departed, (d.hdr, m) ∈ s.built

/-- Fewer than `HINT_SAFETY_MARGIN` counters lie between this one and one that left before, unless
it is among the first `HINT_WINDOW`; and none left that was built so much later. -/
structure WithinReach (s : State ι) (c : Nat) : Prop where
  ahead : c < hintWindow ∨ ∃ m, Left s m ∧ c ≤ m + hintSafetyMargin
  behind : ∀ m, Left s m → m < c + hintSafetyMargin

def Bridged (s : State ι) (a : Act ι) : Prop :=
  ∀ hdr way, (act P route s a).2 = some (hdr, way) → ∀ c, (hdr, c) ∈ s.built → WithinReach s c

/-! Where the headers are. -/

def headers (b : BoxSlot) : List ReturnHeader := b.waiting.map PendingResp.hdr

def Boxed (box : ι → BoxSlot) (hdr : ReturnHeader) : Prop := ∃ leg, hdr ∈ headers (box leg)

def Waits (s : State ι) (hdr : ReturnHeader) : Prop :=
  hdr ∈ s.transit.map Forward.hdr ∨ hdr ∈ s.serving.map Forward.hdr ∨ Boxed s.box hdr

theorem boxes_update (box : ι → BoxSlot) (leg : ι) (b : BoxSlot) (new : List ReturnHeader)
    {out : List ReturnHeader}
    (h : new ++ headers (box leg) = out ++ headers b ∨ headers (box leg) ++ new = out ++ headers b)
    (hdr : ReturnHeader) :
    hdr ∈ new ∨ Boxed box hdr ↔ hdr ∈ out ∨ Boxed (Function.update box leg b) hdr := by
  have hleg : hdr ∈ new ∨ hdr ∈ headers (box leg) ↔ hdr ∈ out ∨ hdr ∈ headers b := by
    rcases h with h | h
    · rw [← List.mem_append, h, List.mem_append]
    · rw [or_comm, ← List.mem_append, h, List.mem_append]
  constructor
  · rintro (hnew | ⟨l, hl⟩)
    · exact (hleg.mp (Or.inl hnew)).imp id fun hb => ⟨leg, by rwa [Function.update_self]⟩
    · by_cases hlleg : l = leg
      · subst hlleg
        exact (hleg.mp (Or.inr hl)).imp id fun hb => ⟨l, by rwa [Function.update_self]⟩
      · exact Or.inr ⟨l, by rwa [Function.update_of_ne hlleg]⟩
  · rintro (hout | ⟨l, hl⟩)
    · exact (hleg.mpr (Or.inl hout)).imp id fun hb => ⟨leg, hb⟩
    · by_cases hlleg : l = leg
      · subst hlleg
        rw [Function.update_self] at hl
        exact (hleg.mpr (Or.inr hl)).imp id fun hb => ⟨l, hb⟩
      · exact Or.inr ⟨l, by rwa [Function.update_of_ne hlleg] at hl⟩

theorem headers_pop {b b' : BoxSlot} {maxAgeMs now : Nat} {e : PendingCell}
    (h : b.pendingPop maxAgeMs now = (some e, b')) : headers b = [e.hdr] ++ headers b' := by
  obtain ⟨hnone, -⟩ | ⟨e', hsome, hwaiting⟩ := b.pendingPop_cases maxAgeMs now
  · rw [hnone] at h
    cases h
  · rw [h] at hsome hwaiting
    obtain rfl := Option.some.inj hsome
    rw [headers, hwaiting]
    rfl

theorem headers_flushPop {b b' : BoxSlot} {now : Nat} {e : PendingCell}
    (h : flushPop b now = (some e, b')) : headers b = [e.hdr] ++ headers b' := by
  unfold flushPop at h
  split at h
  · exact headers_pop h
  · cases h

theorem headers_sendResponse (b : BoxSlot) (hdr : ReturnHeader) {resp : List UInt8} (now : Nat)
    (h : resp.length ≤ maxInnerPayload) :
    headers b ++ [hdr] = overflow b ++ headers (b.sendResponse hdr resp now) := by
  unfold headers overflow
  rw [BoxSlot.waiting_sendResponse h, List.map_append, ← List.append_assoc]
  congr 1
  split
  · rw [← List.map_append]
    congr 1
    cases b.waiting <;> simp
  · rfl

/-- The hints of these headers are those of their counters. -/
def Carry (built : List (ReturnHeader × Nat)) : Prop :=
  ∀ b ∈ built, returnOuterHint b.1 = packetDeriveHopHint P (route.recvHops 0).hintSeed b.2 ∧
    ∃ k, b.2 = longValue k

/-- An action without the departure: what it builds is new, and nothing is lost sight of. -/
structure Moves (s s' : State ι) (out : Option (ReturnHeader × Way)) : Prop where
  relay : s'.relay = s.relay
  departed : s'.departed = s.departed
  leaves : out ≠ none → s'.built = s.built
  built : ∃ new, s'.built = s.built ++ new ∧ Carry P route new ∧
    ∀ hdr, (hdr ∈ new.map Prod.fst ∨ Waits s hdr ∨ hdr ∈ s.lost) ↔
      (hdr ∈ out.toList.map Prod.fst ∨ Waits s' hdr ∨ hdr ∈ s'.lost)

theorem returnOuterHint_build (k : Nat) (nonces : Fin nPathHops → Bytes returnNonceBytes) :
    returnOuterHint (buildReturnHeaderInto P route ⟨0, 0, k⟩ nonces).1
      = packetDeriveHopHint P (route.recvHops 0).hintSeed (longValue k) := by
  unfold returnOuterHint buildReturnHeaderInto packetBuildReturnHeader
  dsimp only
  rw [Bytes.read_append_left (h := by decide), Bytes.read_append_left (h := by decide)]
  exact returnBlock_hint P _ _ _ _ _

theorem act_moves (s : State ι) (a : Act ι) :
    Moves P route s (act P route s a).1 (act P route s a).2 := by
  have hquiet : ∀ {s' : State ι} {out}, s'.relay = s.relay → s'.departed = s.departed →
      s'.built = s.built → (∀ hdr, Waits s hdr ∨ hdr ∈ s.lost ↔
        hdr ∈ Option.toList (out.map Prod.fst) ∨ Waits s' hdr ∨ hdr ∈ s'.lost) →
      Moves P route s s' out := by
    intro s' out hrelay hdeparted hbuilt hall
    refine ⟨hrelay, hdeparted, fun _ => hbuilt, [], by rw [hbuilt, List.append_nil], nofun,
      fun hdr => ?_⟩
    cases out <;> simpa using hall hdr
  cases a with
  | build leg kind nonces sent =>
    have hcarries : Carry P route [((buildReturnHeaderInto P route ⟨0, 0, s.returnPkt⟩ nonces).1,
        longValue s.returnPkt)] := by
      intro b hb
      obtain rfl := List.mem_singleton.mp hb
      exact ⟨returnOuterHint_build P route s.returnPkt nonces, s.returnPkt, rfl⟩
    cases sent with
    | false =>
      refine ⟨rfl, rfl, fun hout => absurd rfl hout, _, rfl, hcarries, fun hdr => ?_⟩
      grind [act, Waits]
    | true =>
      refine ⟨rfl, rfl, fun hout => absurd rfl hout, _, rfl, hcarries, fun hdr => ?_⟩
      grind [act, Waits]
  | arrive live now =>
    cases htransit : s.transit with
    | nil =>
      simp only [act, htransit]
      exact hquiet rfl rfl rfl fun hdr => by simp
    | cons f rest =>
      cases live with
      | false =>
        simp only [act, htransit]
        refine hquiet rfl rfl rfl fun hdr => ?_
        grind [Waits]
      | true =>
        cases hkind : f.kind with
        | setup =>
          simp only [act, htransit, hkind]
          refine hquiet rfl rfl rfl fun hdr => ?_
          grind [Waits]
        | request =>
          simp only [act, htransit, hkind]
          refine hquiet rfl rfl rfl fun hdr => ?_
          grind [Waits]
        | cover =>
          rcases hpop : (s.box f.leg).pendingPop 0 now with ⟨_ | e, b⟩
          · simp only [act, htransit, hkind, hpop]
            refine hquiet rfl rfl rfl fun hdr => ?_
            grind [Waits]
          · simp only [act, htransit, hkind, hpop]
            refine hquiet rfl rfl rfl fun hdr => ?_
            have hbox := boxes_update s.box f.leg b [] (Or.inl (headers_pop hpop)) hdr
            grind [Waits]
  | serve k resp now =>
    cases hserving : s.serving[k]? with
    | none =>
      simp only [act, hserving]
      exact hquiet rfl rfl rfl fun hdr => by simp
    | some f =>
      have herase : ∀ hdr, hdr ∈ s.serving.map Forward.hdr ↔
          hdr = f.hdr ∨ hdr ∈ (s.serving.eraseIdx k).map Forward.hdr := by
        intro hdr
        obtain ⟨hk, rfl⟩ := List.getElem?_eq_some_iff.mp hserving
        rw [← List.mem_cons, ← List.map_cons]
        exact ((List.getElem_cons_eraseIdx_perm hk).map Forward.hdr).mem_iff.symm
      cases resp with
      | none =>
        simp only [act, hserving]
        refine hquiet rfl rfl rfl fun hdr => ?_
        grind [Waits]
      | some resp =>
        by_cases hlen : resp.length ≤ maxInnerPayload
        · simp only [act, hserving, if_pos hlen]
          refine hquiet rfl rfl rfl fun hdr => ?_
          have hbox := boxes_update s.box f.leg _ _
            (Or.inr (headers_sendResponse _ f.hdr now hlen)) hdr
          grind [Waits]
        · simp only [act, hserving, if_neg hlen]
          refine hquiet rfl rfl rfl fun hdr => ?_
          grind [Waits]
  | flush leg live now =>
    rcases hpop : flushPop (s.box leg) now with ⟨_ | e, b⟩
    · simp only [act, hpop]
      exact hquiet rfl rfl rfl fun hdr => by simp
    · have hbox := boxes_update s.box leg b [] (Or.inl (headers_flushPop hpop))
      cases live with
      | false =>
        simp only [act, hpop]
        refine hquiet rfl rfl rfl fun hdr => ?_
        grind [Waits]
      | true =>
        simp only [act, hpop]
        refine hquiet rfl rfl rfl fun hdr => ?_
        grind [Waits]

/-- What is built takes the next value of the return counter. -/
theorem act_counted (s : State ι) (a : Act ι) :
    (act P route s a).1.returnPkt = s.returnPkt ∧ (act P route s a).1.built = s.built ∨
      (act P route s a).1.returnPkt = s.returnPkt + 1 ∧
        ∃ hdr, (act P route s a).1.built = s.built ++ [(hdr, longValue s.returnPkt)] := by
  cases a with
  | build leg kind nonces sent =>
    refine Or.inr ⟨?_, (buildReturnHeaderInto P route ⟨0, 0, s.returnPkt⟩ nonces).1, ?_⟩
    · cases sent <;> rfl
    · cases sent <;> rfl
  | arrive live now =>
    refine Or.inl ?_
    simp only [act]
    repeat' split
    all_goals exact ⟨rfl, rfl⟩
  | serve k resp now =>
    refine Or.inl ?_
    simp only [act]
    repeat' split
    all_goals exact ⟨rfl, rfl⟩
  | flush leg live now =>
    refine Or.inl ?_
    simp only [act]
    repeat' split
    all_goals exact ⟨rfl, rfl⟩

/-! Every header the client built is somewhere. -/

/-- A header has left, waits or is lost. -/
structure Known (s : State ι) : Prop where
  carries : Carry P route s.built
  accounted : ∀ hdr, hdr ∈ s.built.map Prod.fst ↔
    hdr ∈ s.departed.map Departure.hdr ∨ Waits s hdr ∨ hdr ∈ s.lost

omit [DecidableEq ι] in
theorem Known.initial : Known P route (State.initial P route : State ι) where
  carries := nofun
  accounted hdr := by simp [State.initial, Waits, Boxed, headers]

omit [DecidableEq ι] in
theorem depart_eq (s : State ι) (hdr : ReturnHeader) (way : Way) :
    ∃ relay, depart P s hdr way = { s with
      relay := relay
      departed := s.departed
        ++ [⟨hdr, way, (matchHint s.relay (returnOuterHint hdr)).isSome⟩] } := by
  unfold depart
  cases matchHint s.relay (returnOuterHint hdr) with
  | none => exact ⟨s.relay, rfl⟩
  | some m => exact ⟨_, rfl⟩

omit [DecidableEq ι] in
theorem Known.moves {s s' : State ι} {out : Option (ReturnHeader × Way)} (h : Known P route s)
    (hmoves : Moves P route s s' out) :
    Carry P route s'.built ∧ ∀ hdr, hdr ∈ s'.built.map Prod.fst ↔
      (hdr ∈ s.departed.map Departure.hdr ∨ hdr ∈ out.toList.map Prod.fst) ∨
        Waits s' hdr ∨ hdr ∈ s'.lost := by
  obtain ⟨new, hbuilt, hcarries, hall⟩ := hmoves.built
  rw [hbuilt]
  refine ⟨fun b hb => ?_, fun hdr => ?_⟩
  · exact (List.mem_append.mp hb).elim (h.carries b) (hcarries b)
  · have hold := h.accounted hdr
    have hnew := hall hdr
    rw [List.map_append, List.mem_append]
    grind

theorem built_step (s : State ι) (a : Act ι) :
    (step P route s a).built = (act P route s a).1.built := by
  unfold MailboxGap.step
  rcases act P route s a with ⟨s', _ | ⟨hdr, way⟩⟩
  · rfl
  · obtain ⟨relay, hdepart⟩ := depart_eq P s' hdr way
    dsimp only
    rw [hdepart]

theorem returnPkt_step (s : State ι) (a : Act ι) :
    (step P route s a).returnPkt = (act P route s a).1.returnPkt := by
  unfold MailboxGap.step
  rcases act P route s a with ⟨s', _ | ⟨hdr, way⟩⟩
  · rfl
  · obtain ⟨relay, hdepart⟩ := depart_eq P s' hdr way
    dsimp only
    rw [hdepart]

theorem Known.step {s : State ι} (h : Known P route s) (a : Act ι) :
    Known P route (step P route s a) := by
  have hmoves := act_moves P route s a
  obtain ⟨hcarries, haccounted⟩ := h.moves P route hmoves
  unfold MailboxGap.step
  rcases hact : act P route s a with ⟨s', _ | ⟨hdr, way⟩⟩
  · rw [hact] at hmoves hcarries haccounted
    refine ⟨hcarries, fun hdr => ?_⟩
    rw [haccounted, hmoves.departed]
    simp
  · rw [hact] at hmoves hcarries haccounted
    obtain ⟨relay, hdepart⟩ := depart_eq P s' hdr way
    dsimp only
    rw [hdepart]
    refine ⟨hcarries, fun hdr' => ?_⟩
    dsimp only
    rw [haccounted, hmoves.departed, List.map_append, List.mem_append]
    rfl

/-! The window of the relay. -/

theorem Carry.unique {built : List (ReturnHeader × Nat)} (h : Carry P route built)
    (hfree : CountersDistinct P) {hdr : ReturnHeader} {c c' : Nat} (hc : (hdr, c) ∈ built)
    (hc' : (hdr, c') ∈ built) : c = c' := by
  have hlt : ∀ b ∈ built, b.2 < 2 ^ 64 := by
    intro b hb
    obtain ⟨k, hk⟩ := (h b hb).2
    rw [hk]
    exact longValue_lt k
  exact hfree _ c c' (hlt _ hc) (hlt _ hc') ((h _ hc).1.symm.trans (h _ hc').1)

/-- The counters confirmed at the relay, all in the window of real counters. -/
def logOf (log : List Nat) : Domain → List Nat
  | .real => log
  | .cover => []

/-- Nothing was missed, so the relay's window follows what has left. -/
structure InStep (s : State ι) : Prop where
  carries : Carry P route s.built
  sent : ∀ d ∈ s.departed, d.hdr ∈ s.built.map Prod.fst
  found : AllFound s
  seed : s.relay.hintSeed = (route.recvHops 0).hintSeed
  window : ∃ log, WindowOk P s.relay (logOf log) ∧ ∀ m, m ∈ log ↔ Left s m

omit [DecidableEq ι] in
theorem InStep.initial : InStep P route (State.initial P route : State ι) where
  carries := nofun
  sent := nofun
  found := nofun
  seed := rfl
  window := by
    refine ⟨[], ?_, fun m => ?_⟩
    · have hnil : logOf [] = fun _ => [] := by
        funext d
        cases d <;> rfl
      rw [hnil]
      exact WindowOk.init P _
    · simp [Left, State.initial]

/-- The window of real counters holds exactly the counters within reach of those that left. -/
theorem mem_window_iff (log : List Nat) {c : Nat} :
    baseFor .real log ≤ c ∧ c < baseFor .real log + hintWindow ↔
      (c < hintWindow ∨ ∃ m ∈ log, c ≤ m + hintSafetyMargin) ∧
        ∀ m ∈ log, m < c + hintSafetyMargin := by
  unfold baseFor
  cases hmax : log.max? with
  | none =>
    obtain rfl := List.max?_eq_none_iff.mp hmax
    simp [Domain.first]
  | some hw =>
    obtain ⟨hmem, hle⟩ := List.max?_eq_some_iff.mp hmax
    simp only [Option.elim_some, Domain.first, hintSafetyMargin, hintWindow, Nat.zero_max]
    constructor
    · rintro ⟨hlo, hhi⟩
      refine ⟨?_, fun m hm => ?_⟩
      · by_cases hc : c < 64
        · exact Or.inl hc
        · exact Or.inr ⟨hw, hmem, by omega⟩
      · have := hle m hm
        omega
    · rintro ⟨hahead, hbehind⟩
      have hlo := hbehind hw hmem
      refine ⟨by omega, ?_⟩
      rcases hahead with hc | ⟨m, hm, hc⟩
      · omega
      · have := hle m hm
        omega

/-- The counters of the headers stay where the cover counters begin out of the relay's reach. -/
def Small (s : State ι) : Prop := ∀ b ∈ s.built, b.2 + hintWindow ≤ hintCoverCounterBase

variable {P route}

omit [DecidableEq ι] in
/-- A header within reach is found among the real counters, where its own is the one that
matches. -/
theorem InStep.matches_of_reach {s : State ι} (h : InStep P route s) (hfree : CountersDistinct P)
    {hdr : ReturnHeader} {c : Nat} (hmem : (hdr, c) ∈ s.built) (hreach : WithinReach s c) :
    ∃ w, matchHint s.relay (returnOuterHint hdr) = some (.real, w) ∧
      s.relay.matchedAbs .real w = c := by
  obtain ⟨log, ok, hlog⟩ := h.window
  obtain ⟨hhint, k, hk⟩ := h.carries _ hmem
  have hc : c < 2 ^ 64 := lt_of_eq_of_lt hk (longValue_lt k)
  have hwindow := mem_window_iff log (c := c)
  simp only [hlog] at hwindow
  obtain ⟨hlo, hhi⟩ := hwindow.mpr ⟨by simpa [and_comm] using hreach.ahead, hreach.behind⟩
  have hoffset : c - baseFor .real log < AnonSecNet.hintWindow := by omega
  have habs : s.relay.matchedAbs .real (c - baseFor .real log) = c := by
    have hbase : s.relay.hintBase .real = baseFor .real log := ok.base .real
    unfold HintState.matchedAbs
    omega
  refine ⟨⟨c - baseFor .real log, hoffset⟩, ?_⟩
  rw [hhint, ← h.seed]
  exact ⟨(ok.matchHint_iff hfree hc .real _).mpr ⟨habs, nofun⟩, habs⟩

omit [DecidableEq ι] in
/-- Below the cover counters the relay finds a header only within reach. -/
theorem InStep.reach {s : State ι} (h : InStep P route s) (hfree : CountersDistinct P)
    (hsmall : Small s) {hdr : ReturnHeader} {c : Nat} (hmem : (hdr, c) ∈ s.built)
    (hsome : (matchHint s.relay (returnOuterHint hdr)).isSome) : WithinReach s c := by
  obtain ⟨log, ok, hlog⟩ := h.window
  have hhint := (h.carries _ hmem).1
  have hc : c + 64 ≤ 2 ^ 62 := hsmall _ hmem
  have hleft : ∀ m ∈ log, m + 64 ≤ 2 ^ 62 := by
    intro m hm
    obtain ⟨d, -, hdm⟩ := (hlog m).mp hm
    exact hsmall _ hdm
  have hbase : s.relay.hintBase .real = baseFor .real log := ok.base .real
  have hcoverBase : s.relay.hintBase .cover = 2 ^ 62 := by
    rw [ok.base]
    simp [baseFor, logOf, Domain.first, hintCoverCounterBase]
  have hbaseLe : baseFor .real log + 64 ≤ 2 ^ 62 := by
    unfold baseFor
    cases hmax : log.max? with
    | none => simp [Domain.first]
    | some hw =>
      have := hleft hw (List.max?_eq_some_iff.mp hmax).1
      simp only [Option.elim_some, Domain.first, hintSafetyMargin]
      omega
  obtain ⟨⟨d, w⟩, hm⟩ := Option.isSome_iff_exists.mp hsome
  rw [hhint, ← h.seed] at hm
  obtain ⟨habs, -⟩ := (ok.matchHint_iff hfree (by omega) d w).mp hm
  have hw : w.val < 64 := w.isLt
  unfold HintState.matchedAbs at habs
  have hin : baseFor .real log ≤ c ∧ c < baseFor .real log + hintWindow := by
    unfold AnonSecNet.hintWindow
    cases d with
    | real => omega
    | cover => omega
  have hwindow := (mem_window_iff log).mp hin
  simp only [hlog] at hwindow
  exact ⟨by simpa [and_comm] using hwindow.1, hwindow.2⟩

omit [DecidableEq ι] in
theorem InStep.left_iff {s s' : State ι} (h : InStep P route s) (hfree : CountersDistinct P)
    {out : Option (ReturnHeader × Way)} (hmoves : Moves P route s s' out) (m : Nat) :
    Left s' m ↔ Left s m := by
  obtain ⟨new, hbuilt, hnew, -⟩ := hmoves.built
  have hcarries : Carry P route s'.built := by
    rw [hbuilt]
    exact fun b hb => (List.mem_append.mp hb).elim (h.carries b) (hnew b)
  unfold Left
  rw [hmoves.departed]
  constructor
  · rintro ⟨d, hd, hm⟩
    obtain ⟨⟨hdr, c⟩, hc, hdr_eq⟩ := List.mem_map.mp (h.sent d hd)
    obtain rfl : hdr = d.hdr := hdr_eq
    have hc' : (d.hdr, c) ∈ s'.built := hbuilt ▸ List.mem_append_left new hc
    exact ⟨d, hd, hcarries.unique P route hfree hc' hm ▸ hc⟩
  · rintro ⟨d, hd, hm⟩
    exact ⟨d, hd, hbuilt ▸ List.mem_append_left new hm⟩

omit [DecidableEq ι] in
/-- A header leaves and is found. -/
theorem InStep.depart {s : State ι} (h : InStep P route s) (hfree : CountersDistinct P)
    {hdr : ReturnHeader} {way : Way} {c : Nat} (hmem : (hdr, c) ∈ s.built)
    (hreach : WithinReach s c) :
    InStep P route (depart P s hdr way) := by
  obtain ⟨w, hm, hmatched⟩ := h.matches_of_reach hfree hmem hreach
  obtain ⟨log, ok, hlog⟩ := h.window
  have hdepart : MailboxGap.depart P s hdr way = { s with
      relay := sessionAdvanceHintWindow P s.relay .real w
      departed := s.departed ++ [⟨hdr, way, true⟩] } := by
    unfold MailboxGap.depart
    rw [hm]
  have hleft : ∀ m, Left (MailboxGap.depart P s hdr way) m ↔ m = c ∨ Left s m := by
    intro m
    rw [hdepart]
    unfold Left
    constructor
    · rintro ⟨d, hd, hdm⟩
      rcases List.mem_append.mp hd with hd | hd
      · exact Or.inr ⟨d, hd, hdm⟩
      · obtain rfl := List.mem_singleton.mp hd
        exact Or.inl (h.carries.unique P route hfree hdm hmem)
    · rintro (rfl | ⟨d, hd, hdm⟩)
      · exact ⟨_, List.mem_append_right _ List.mem_cons_self, hmem⟩
      · exact ⟨d, List.mem_append_left _ hd, hdm⟩
  refine ⟨?_, ?_, ?_, ?_, ⟨c :: log, ?_, fun m => ?_⟩⟩
  · rw [hdepart]
    exact h.carries
  · rw [hdepart]
    intro d hd
    rcases List.mem_append.mp hd with hd | hd
    · exact h.sent d hd
    · rw [List.mem_singleton.mp hd]
      exact List.mem_map_of_mem hmem
  · rw [hdepart]
    intro d hd
    rcases List.mem_append.mp hd with hd | hd
    · exact h.found d hd
    · rw [List.mem_singleton.mp hd]
  · rw [hdepart]
    dsimp only
    rw [hintSeed_advance]
    exact h.seed
  · have hadvance := ok.advance P .real w
    have hlogOf : Function.update (logOf log) .real
        (s.relay.matchedAbs .real w :: logOf log .real) = logOf (c :: log) := by
      funext d
      cases d with
      | real => rw [Function.update_self, hmatched]; rfl
      | cover => rw [Function.update_of_ne (by decide)]; rfl
    rw [hdepart]
    dsimp only
    rwa [hlogOf] at hadvance
  · rw [hleft, List.mem_cons, hlog]

omit [DecidableEq ι] in
/-- What an action does apart from the departure leaves the relay alone. -/
theorem InStep.moves {s s' : State ι} {out : Option (ReturnHeader × Way)} (h : InStep P route s)
    (hfree : CountersDistinct P) (hmoves : Moves P route s s' out) : InStep P route s' := by
  have hleft := h.left_iff hfree hmoves
  obtain ⟨new, hbuilt, hnew, -⟩ := hmoves.built
  obtain ⟨log, ok, hlog⟩ := h.window
  refine ⟨?_, ?_, ?_, ?_, ⟨log, ?_, fun m => ?_⟩⟩
  · rw [hbuilt]
    exact fun b hb => (List.mem_append.mp hb).elim (h.carries b) (hnew b)
  · rw [hbuilt, hmoves.departed, List.map_append]
    exact fun d hd => List.mem_append_left _ (h.sent d hd)
  · rw [AllFound, hmoves.departed]
    exact h.found
  · rw [hmoves.relay]
    exact h.seed
  · rw [hmoves.relay]
    exact ok
  · rw [hlog, hleft]

omit [DecidableEq ι] in
/-- A header that leaves was built. -/
theorem Known.leaves {s s' : State ι} (h : Known P route s) {hdr : ReturnHeader} {way : Way}
    (hmoves : Moves P route s s' (some (hdr, way))) : ∃ c, (hdr, c) ∈ s.built := by
  obtain ⟨new, hbuilt, -, hall⟩ := hmoves.built
  obtain rfl : new = [] := List.append_cancel_left
    (hbuilt.symm.trans ((hmoves.leaves nofun).trans (List.append_nil _).symm))
  have hwaits : Waits s hdr ∨ hdr ∈ s.lost := by simpa using (hall hdr).mpr (Or.inl (by simp))
  obtain ⟨b, hb, rfl⟩ := List.mem_map.mp ((h.accounted hdr).mpr (Or.inr hwaits))
  exact ⟨b.2, hb⟩

omit [DecidableEq ι] in
theorem WithinReach.congr {s s' : State ι} {c : Nat} (h : ∀ m, Left s' m ↔ Left s m) :
    WithinReach s' c ↔ WithinReach s c := by
  constructor
  · rintro ⟨hahead, hbehind⟩
    exact ⟨by simpa only [h] using hahead, by simpa only [h] using hbehind⟩
  · rintro ⟨hahead, hbehind⟩
    exact ⟨by simpa only [h] using hahead, by simpa only [h] using hbehind⟩

/-- An action keeps the relay in step if it bridges what was lost, and below the cover counters
only then. -/
theorem InStep.step_iff {s : State ι} (hknown : Known P route s) (h : InStep P route s)
    (hfree : CountersDistinct P) (a : Act ι) :
    (Bridged P route s a → InStep P route (step P route s a)) ∧
      (Small s → AllFound (step P route s a) → Bridged P route s a) := by
  have hmoves := act_moves P route s a
  unfold Bridged MailboxGap.step
  rcases hact : act P route s a with ⟨s', _ | ⟨hdr, way⟩⟩
  · rw [hact] at hmoves
    exact ⟨fun _ => h.moves hfree hmoves, fun _ _ => nofun⟩
  · rw [hact] at hmoves
    obtain ⟨c, hc⟩ := hknown.leaves hmoves
    have h' := h.moves hfree hmoves
    have hreach := WithinReach.congr (c := c) (h.left_iff hfree hmoves)
    have hc' : (hdr, c) ∈ s'.built := (hmoves.leaves nofun).symm ▸ hc
    constructor
    · intro hbridged
      exact h'.depart hfree hc' (hreach.mpr (hbridged hdr way rfl c hc))
    · intro hsmall hall hdr' way' hout c' hmem
      obtain ⟨rfl, rfl⟩ := Prod.mk.inj (Option.some.inj hout)
      obtain rfl := h.carries.unique P route hfree hc hmem
      obtain ⟨relay, hdepart⟩ := depart_eq P s' hdr way
      have hsmall' : Small s' := by
        unfold Small
        rwa [hmoves.leaves nofun]
      refine hreach.mp (h'.reach hfree hsmall' hc' (hall ⟨hdr, way, _⟩ ?_))
      dsimp only
      rw [hdepart]
      exact List.mem_append_right _ List.mem_cons_self

/-- A run of fewer actions than there are real counters builds no header beyond them. -/
theorem small_of_length (acts : List (Act ι)) {s : State ι}
    (hcounted : ∀ b ∈ s.built, b.2 < s.returnPkt)
    (hlen : s.returnPkt + acts.length + hintWindow ≤ hintCoverCounterBase) :
    StepsMeet (step P route) (fun s _ => Small s) acts s := by
  induction acts generalizing s with
  | nil => trivial
  | cons a acts ih =>
    rw [List.length_cons] at hlen
    refine ⟨fun b hb => by have := hcounted b hb; omega, ih ?_ ?_⟩
    · intro b hb
      rw [built_step] at hb
      rw [returnPkt_step]
      obtain ⟨hpkt, hbuilt⟩ | ⟨hpkt, hdr, hbuilt⟩ := act_counted P route s a
      · rw [hbuilt] at hb
        rw [hpkt]
        exact hcounted b hb
      · rw [hbuilt] at hb
        rw [hpkt]
        obtain hb | hb := List.mem_append.mp hb
        · exact (hcounted b hb).trans (Nat.lt_succ_self _)
        · rw [List.mem_singleton.mp hb]
          exact Nat.lt_succ_of_le (Nat.mod_le _ _)
    · rw [returnPkt_step]
      obtain ⟨hpkt, -⟩ | ⟨hpkt, -⟩ := act_counted P route s a <;> omega

/-- In every run whose departures are within reach of the earlier ones, every response that leaves
a ring is found by the relay; and in a run that does not get to the counters of cover, the relay
finds all that leaves only then. -/
theorem ring_found_of_bridged (hfree : CountersDistinct P) (acts : List (Act ι)) :
    (StepsMeet (step P route) (Bridged P route) acts (State.initial P route) →
      Along (step P route) RingFound acts (State.initial P route)) ∧
    (acts.length + hintWindow ≤ hintCoverCounterBase →
      (Along (step P route) AllFound acts (State.initial P route) ↔
        StepsMeet (step P route) (Bridged P route) acts (State.initial P route))) := by
  have hinit : Known P route (State.initial P route : State ι) ∧
      InStep P route (State.initial P route : State ι) :=
    ⟨Known.initial P route, InStep.initial P route⟩
  constructor
  · intro hmeet
    have hall := along_of_stepsMeet (step P route) (fun s => Known P route s ∧ InStep P route s)
      (fun s a inv hbridged => ⟨inv.1.step P route a, (inv.2.step_iff inv.1 hfree a).1 hbridged⟩)
      hinit hmeet
    exact hall.mono _ fun s inv d hd _ => inv.2.found d hd
  · intro hlen
    have hsmall : StepsMeet (step P route) (fun s _ => Small s) acts (State.initial P route) :=
      small_of_length acts nofun (by simpa [State.initial] using hlen)
    exact along_iff_stepsMeet_allowed (step P route) (fun s => Known P route s ∧ InStep P route s)
      (fun s inv => inv.2.found)
      (fun s a inv _ hbridged => ⟨inv.1.step P route a, (inv.2.step_iff inv.1 hfree a).1 hbridged⟩)
      (fun s a inv hsmall hall => (inv.2.step_iff inv.1 hfree a).2 hsmall hall)
      hinit hsmall

/-! A burst of requests that are answered before the mailbox is emptied. -/

def burst (n : Nat) : List (Act Unit) :=
  (List.range n).flatMap fun k =>
    [.build () .request (fun _ => bigEndian returnNonceBytes (k + 1)) true, .arrive true 0,
      .serve 0 (some []) 0]

/-- The setup and its reply, then the burst, and at last the flush thread. -/
def burstRun (n : Nat) : List (Act Unit) :=
  [.build () .setup (fun _ => Bytes.zero _) true, .arrive true 0] ++ burst n
    ++ [.flush () true pendingResponseMaxWaitMs]

theorem ring_found_of_bridged_burst :
    StepsMeet (step .sample ReturnRoute.sample) (Bridged .sample ReturnRoute.sample) (burstRun 3)
        (State.initial .sample ReturnRoute.sample) ∧
      Along (step .sample ReturnRoute.sample) RingFound (burstRun 3)
        (State.initial .sample ReturnRoute.sample) := by
  have hmeet : StepsMeet (step .sample ReturnRoute.sample) (Bridged .sample ReturnRoute.sample)
      (burstRun 3) (State.initial .sample ReturnRoute.sample) :=
    ((ring_found_of_bridged countersDistinct_sample (burstRun 3)).2 (by decide)).mp
      (by decide +kernel)
  exact ⟨hmeet, (ring_found_of_bridged countersDistinct_sample (burstRun 3)).1 hmeet⟩

/-- 95 responses: those with the counters up to 63, the last ones of the window, are dropped. -/
theorem burst_outruns_window :
    ¬ RingFound (run (step .sample ReturnRoute.sample) (burstRun 95)
      (State.initial .sample ReturnRoute.sample)) := by
  decide +kernel

end AnonSecNet.Retrieval.MailboxGap
