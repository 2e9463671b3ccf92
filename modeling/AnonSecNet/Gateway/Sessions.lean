import AnonSecNet.Foundation.Slots
import AnonSecNet.Gateway.Response
import AnonSecNet.Packet.ForwardRoundTrip

/-! The session table of `service_gateway.c`: allocation, lookup by packet, and the binding
of a sending session (role A) to a receiving session (role B). -/
namespace AnonSecNet.Gateway
open Octets
variable (P : Primitives)

/-- `pending_resp_t`. -/
structure PendingResp where
  resp : List UInt8
  hdr : ReturnHeader
  sinceMs : Nat

/-- The fields of a session that its binding rests on. -/
structure Binding where
  inUse : Bool
  role : UInt8
  e2eKey : AesKey
  bindingTag : Mac
  bKey : AesKey
  setupDone : Bool
  boundB : Option (Fin maxSessions)
deriving DecidableEq

/-- `sg_session_t`, without the fields that nothing reads. -/
structure SgSession extends Binding where
  sgHint : Bytes sgHintBytes
  recvBlind : Fin nPathHops → AesKey
  mncAddr : Addr
  returnHdr : ReturnHeader
  lastActiveMs : Nat
  inFlight : Nat
  pending : List PendingResp

abbrev Table : Type := Fin maxSessions → SgSession

def bindings (t : Table) (i : Fin maxSessions) : Binding := (t i).toBinding

/-- A slot after `memset`, except that `bound_b_idx` counts as -1. -/
def zeroSession : SgSession where
  inUse := false
  role := 0
  e2eKey := Bytes.zero _
  bindingTag := Bytes.zero _
  bKey := Bytes.zero _
  setupDone := false
  boundB := none
  sgHint := Bytes.zero _
  recvBlind := fun _ => Bytes.zero _
  mncAddr := Bytes.zero _
  returnHdr := Bytes.zero _
  lastActiveMs := 0
  inFlight := 0
  pending := []

def sessAlloc (t : Table) (now : Nat) : Option (Fin maxSessions) :=
  Slots.alloc (fun i => (t i).inUse) sessionTtlMs (fun i => ticksSince now (t i).lastActiveMs)
    (fun i => (t i).inFlight = 0)

/-- What `handle_connection` stores for a `MODE_EXTEND`. -/
def extendedSession (master : AesKey) (role : UInt8) (now : Nat) : SgSession :=
  { zeroSession with
    inUse := true
    lastActiveMs := now
    e2eKey := master
    role := role
    sgHint := packetDeriveSgHint P master }

/-! Binding tags. -/

section
variable (bs : Fin maxSessions → Binding)

/-- Whether slot `j` holds a receiving session that `wantTag` ties to `aKey`. -/
def verifiesB (aKey : AesKey) (wantTag : Mac) (skip j : Fin maxSessions) : Prop :=
  (bs j).inUse = true ∧ (bs j).role = sessionRoleB ∧ j ≠ skip ∧
    packetDeriveBindingTag P aKey (bs j).e2eKey = wantTag

instance (aKey : AesKey) (wantTag : Mac) (skip j : Fin maxSessions) :
    Decidable (verifiesB P bs aKey wantTag skip j) := inferInstanceAs (Decidable (_ ∧ _))

/-- Irreducible, so that nothing unrolls the scan. -/
@[irreducible] def findVerifiedB (aKey : AesKey) (wantTag : Mac) (skip : Fin maxSessions) :
    Option (Fin maxSessions) :=
  (List.finRange maxSessions).find? fun j => decide (verifiesB P bs aKey wantTag skip j)

/-- The bound slot while it holds a receiving session, or else the first one that verifies. -/
def partnerOf (i : Fin maxSessions) : Option (Fin maxSessions) :=
  match (bs i).boundB with
  | some j =>
    if (bs j).inUse = true ∧ (bs j).role = sessionRoleB then some j
    else findVerifiedB P bs (bs i).e2eKey (bs i).bindingTag i
  | none => findVerifiedB P bs (bs i).e2eKey (bs i).bindingTag i

end

def pin (t : Table) (i : Fin maxSessions) : Table :=
  Function.update t i { t i with inFlight := (t i).inFlight + 1 }

def unpin (t : Table) (i : Fin maxSessions) : Table :=
  Function.update t i { t i with inFlight := (t i).inFlight - 1 }

def findBForA (t : Table) (i : Fin maxSessions) : Option (Fin maxSessions) × Table :=
  match partnerOf P (bindings t) i with
  | some j => (some j, pin t j)
  | none => (none, t)

/-! Lookup by packet. -/

/-- Where the tag of a SETUP payload lies. -/
def setupTagOff : Nat := 1 + nPathHops * aesKeyLen

def setupTag (payload : List UInt8) : Mac := Bytes.fit macBytes (payload.drop setupTagOff)

/-- `ptype`; nothing for a payload of no known shape. -/
def packetType (payload : List UInt8) : Option UInt8 :=
  match payload with
  | [] => none
  | first :: _ =>
    if first = typeSetup then some typeSetup
    else
      match payload.drop returnHdrInPayload with
      | [] => none
      | type :: _ =>
        if first = 0x04 ∧ type ∈ [typeGet, typePut, typeHandshakeInit, typeHandshakePoll,
          typeHeartbeat, typeHandshakeRespond] then some type else none

def isDummy (flags : UInt8) : Bool := flags &&& pktDummy ≠ 0

/-- The checks `find_a_session` makes on a payload that decrypted under slot `i`. -/
def accepts (t : Table) (i : Fin maxSessions) (payload : List UInt8) (flags : UInt8) : Bool :=
  if isDummy flags then decide (returnHeaderSize ≤ payload.length)
  else
    match packetType payload with
    | none => false
    | some type =>
      if type = typeSetup then
        decide (setupTagOff + macBytes ≤ payload.length) &&
          (findVerifiedB P (bindings t) (t i).e2eKey (setupTag payload) i).isSome
      else
        decide (payload.getD ecPubkeyLen 0 = 127) && (t i).setupDone &&
          decide (addrPort (Bytes.fit addrBytes (payload.drop ecPubkeyLen))
            = addrPort (t i).mncAddr)

def tryCandidate (t : Table) (pkt : WirePacket) (i : Fin maxSessions) :
    Option (List UInt8 × UInt8) :=
  if (t i).inUse = true ∧ (t i).role = sessionRoleA ∧
      (t i).sgHint = pkt.read (wirePacketSize - sgHintBytes) sgHintBytes then
    (packetSphinxUnwrap P pkt (t i).e2eKey).filter fun out => accepts P t i out.1 out.2
  else none

@[irreducible] def firstCandidate (t : Table) (pkt : WirePacket) :
    Option (Fin maxSessions × List UInt8 × UInt8) :=
  (List.finRange maxSessions).findSome? fun i => (tryCandidate P t pkt i).map fun out => (i, out)

/-- The matched session is pinned. -/
def findASession (t : Table) (pkt : WirePacket) (now : Nat) :
    Option (Fin maxSessions × List UInt8 × UInt8) × Table :=
  match firstCandidate P t pkt with
  | some (i, out) =>
    (some (i, out), pin (Function.update t i { t i with lastActiveMs := now }) i)
  | none => (none, t)

/-! What the lookups find. -/

theorem findVerifiedB_eq_some {bs : Fin maxSessions → Binding} {aKey : AesKey} {wantTag : Mac}
    {skip j : Fin maxSessions} (h : findVerifiedB P bs aKey wantTag skip = some j) :
    verifiesB P bs aKey wantTag skip j := by
  unfold findVerifiedB at h
  simpa using List.find?_some h

theorem findVerifiedB_of_only {bs : Fin maxSessions → Binding} {aKey : AesKey} {wantTag : Mac}
    {skip j : Fin maxSessions} (h : verifiesB P bs aKey wantTag skip j)
    (honly : ∀ k, verifiesB P bs aKey wantTag skip k → k = j) :
    findVerifiedB P bs aKey wantTag skip = some j := by
  have hsome : (findVerifiedB P bs aKey wantTag skip).isSome := by
    unfold findVerifiedB
    exact List.find?_isSome.mpr ⟨j, List.mem_finRange j, decide_eq_true h⟩
  obtain ⟨k, hk⟩ := Option.isSome_iff_exists.mp hsome
  rw [hk, honly k (findVerifiedB_eq_some P hk)]

/-- Only the other slots are looked at. -/
theorem findVerifiedB_congr {bs bs' : Fin maxSessions → Binding} {aKey : AesKey} {wantTag : Mac}
    {skip : Fin maxSessions} (h : ∀ j, j ≠ skip → bs' j = bs j) :
    findVerifiedB P bs' aKey wantTag skip = findVerifiedB P bs aKey wantTag skip := by
  unfold findVerifiedB
  refine congrArg (fun p => List.find? p _) (funext fun j => decide_eq_decide.mpr ?_)
  unfold verifiesB
  by_cases hj : j = skip
  · simp [hj]
  · rw [h j hj]

theorem tryCandidate_eq_some {t : Table} {pkt : WirePacket} {i : Fin maxSessions}
    {out : List UInt8 × UInt8} (h : tryCandidate P t pkt i = some out) :
    (t i).inUse = true ∧ (t i).role = sessionRoleA ∧ accepts P t i out.1 out.2 = true := by
  unfold tryCandidate at h
  split at h
  · rename_i hmatch
    exact ⟨hmatch.1, hmatch.2.1, (Option.filter_eq_some_iff.mp h).2⟩
  · cases h

/-- The session found is a live sending session; it is pinned and its time stamp renewed. -/
theorem findASession_eq_some {t t' : Table} {pkt : WirePacket} {now : Nat} {i : Fin maxSessions}
    {payload : List UInt8} {flags : UInt8}
    (h : findASession P t pkt now = (some (i, payload, flags), t')) :
    ((t i).inUse = true ∧ (t i).role = sessionRoleA ∧ accepts P t i payload flags = true) ∧
      t' = pin (Function.update t i { t i with lastActiveMs := now }) i := by
  unfold findASession at h
  split at h
  · rename_i i' out hfirst
    cases h
    unfold firstCandidate at hfirst
    obtain ⟨k, -, hk⟩ := List.exists_of_findSome?_eq_some hfirst
    obtain ⟨out', hout, heq⟩ := Option.map_eq_some_iff.mp hk
    cases heq
    exact ⟨tryCandidate_eq_some P hout, rfl⟩
  · cases h

theorem firstCandidate_of_alone {t : Table} {pkt : WirePacket} {a : Fin maxSessions}
    {out : List UInt8 × UInt8} (ha : tryCandidate P t pkt a = some out)
    (halone : ∀ i, i ≠ a → tryCandidate P t pkt i = none) :
    firstCandidate P t pkt = some (a, out) := by
  unfold firstCandidate
  obtain ⟨before, after, hsplit⟩ := List.append_of_mem (List.mem_finRange a)
  have hfresh : a ∉ before := by
    have hnodup := List.nodup_finRange maxSessions
    rw [hsplit, List.nodup_append] at hnodup
    exact fun hmem => hnodup.2.2 a hmem a List.mem_cons_self rfl
  refine List.findSome?_eq_some_iff.mpr ⟨before, a, after, hsplit, by rw [ha]; rfl, ?_⟩
  intro i hi
  rw [halone i fun heq => hfresh (heq ▸ hi)]
  rfl

/-- The one sending session with the hint is found, if the packet opens and is accepted there. -/
theorem findASession_of_alone {t : Table} {pkt : WirePacket} {a : Fin maxSessions}
    {payload : List UInt8} {flags : UInt8} (hlive : (t a).inUse = true)
    (hrole : (t a).role = sessionRoleA)
    (hhint : (t a).sgHint = pkt.read (wirePacketSize - sgHintBytes) sgHintBytes)
    (halone : ∀ i, i ≠ a → (t i).inUse = true → (t i).role = sessionRoleA →
      (t i).sgHint ≠ (t a).sgHint)
    (hunwrap : packetSphinxUnwrap P pkt (t a).e2eKey = some (payload, flags))
    (haccepts : accepts P t a payload flags = true) (now : Nat) :
    findASession P t pkt now = (some (a, payload, flags),
      pin (Function.update t a { t a with lastActiveMs := now }) a) := by
  have ha : tryCandidate P t pkt a = some (payload, flags) := by
    unfold tryCandidate
    rw [if_pos ⟨hlive, hrole, hhint⟩, hunwrap, Option.filter_some, if_pos haccepts]
  have hothers : ∀ i, i ≠ a → tryCandidate P t pkt i = none := by
    intro i hi
    unfold tryCandidate
    rw [if_neg]
    rintro ⟨hlive', hrole', hsame⟩
    exact halone i hi hlive' hrole' (hsame.trans hhint.symm)
  unfold findASession
  rw [firstCandidate_of_alone P ha hothers]

theorem findASession_eq_none {t t' : Table} {pkt : WirePacket} {now : Nat}
    (h : findASession P t pkt now = (none, t')) : t' = t := by
  unfold findASession at h
  split at h <;> cases h
  rfl

/-- A SETUP is accepted only when its tag verifies for some receiving session. -/
theorem accepts_setup {t : Table} {i : Fin maxSessions} {payload : List UInt8} {flags : UInt8}
    (hflags : isDummy flags = false) (htype : payload.head? = some typeSetup)
    (h : accepts P t i payload flags = true) :
    (findVerifiedB P (bindings t) (t i).e2eKey (setupTag payload) i).isSome := by
  unfold accepts at h
  rw [if_neg (by simp [hflags])] at h
  cases payload with
  | nil => cases htype
  | cons first rest =>
    obtain rfl : first = typeSetup := Option.some.inj htype
    simp [packetType] at h
    exact h.2

end AnonSecNet.Gateway
