import AnonSecNet.NodePool
import AnonSecNet.Packet.ForwardRoundTrip
import AnonSecNet.Packet.Return
import Mathlib.Data.List.Pairwise
import Mathlib.Data.Rat.Floor

/-! `build_paths` of `client.c`: the nodes of both paths, the nodes the client connects to on
the way, and who is next to the client and to the gateway afterwards. -/
namespace AnonSecNet.Client
open Octets NodePool
variable (F : Doubles) (weight : Node → F.D) (guardA guardB : GuardSet)

/-- Whether a hop other than the entry of path A is in guard set A. -/
def pathUsesOtherGuardA (sp : SessionPath) : Bool :=
  guardA.1.any fun guard => [sp.midA, sp.lastA, sp.entryB, sp.midB, sp.lastB].contains guard

/-- Striping redraws a session path that uses more of guard set A, `tries` times at most. -/
def leaveGuardAFree (nLegs : Nat) : Nat → SessionPath → UInt64 → Option (SessionPath × UInt64)
  | 0, sp, rng => if 1 < nLegs ∧ pathUsesOtherGuardA guardA sp then none else some (sp, rng)
  | tries + 1, sp, rng =>
    if 1 < nLegs ∧ pathUsesOtherGuardA guardA sp then
      (buildSessionPath F weight guardA guardB rng).bind fun (sp, rng) =>
        leaveGuardAFree nLegs tries sp rng
    else some (sp, rng)

/-- The comparison of the two probes; `none` is a failed one. -/
def aSlowerOrDead : Option Nat → Option Nat → Bool
  | none, _ => true
  | some _, none => false
  | some rttA, some rttB => rttB < rttA

def swapTriples (sp : SessionPath) : SessionPath :=
  ⟨sp.entryB, sp.midB, sp.lastB, sp.entryA, sp.midA, sp.lastA⟩

/-- The hops of path A, of which a sending leg is made. -/
def legNodes (sp : SessionPath) : List Node := [sp.entryA, sp.midA, sp.lastA]

def legPorts (sp : SessionPath) : Fin nPathHops → UInt16 :=
  ![poolPort sp.entryA, poolPort sp.midA, poolPort sp.lastA]

/-- `recv_ports`: MNc, MNb, MNa. -/
def recvPorts (sp : SessionPath) : Fin nPathHops → UInt16 :=
  ![poolPort sp.lastB, poolPort sp.midB, poolPort sp.entryB]

/-- No node in use, and no guard of set A behind the entry. -/
def legIsDisjoint (used : List Node) (cand : SessionPath) : Bool :=
  (used.all fun node => !(legNodes cand).contains node) &&
    guardA.1.all fun guard => !([cand.midA, cand.lastA].contains guard)

/-- The draws for one more leg, `attempts` at most. -/
def findLeg (used : List Node) : Nat → UInt64 → Option (SessionPath × UInt64)
  | 0, _ => none
  | attempts + 1, rng =>
    (buildSessionPath F weight guardA guardB rng).bind fun (cand, rng) =>
      if legIsDisjoint guardA used cand then some (cand, rng) else findLeg used attempts rng

/-- What comes of the probes of both candidates and of the legs, of `build_send_leg` for each leg,
of the handshakes of the receiving path and of the first return header. -/
structure PathOutcomes where
  rttA : Option Nat
  rttB : Option Nat
  legRtt : Nat → Option Nat
  sendLeg : Nat → Bool
  receiving : Bool
  returnHeader : Bool

/-- The loop of `build_extra_legs` from `leg` on. -/
def buildExtraLegs (outcomes : PathOutcomes) :
    Nat → Nat → List Node → UInt64 → Option (List SessionPath)
  | 0, _, _, _ => some []
  | rest + 1, leg, used, rng =>
    (findLeg F weight guardA guardB used 500 rng).bind fun (cand, rng) =>
      if outcomes.sendLeg leg then
        (buildExtraLegs outcomes rest (leg + 1) (used ++ legNodes cand) rng).map (cand :: ·)
      else none

/-- `g_n_legs` and `g_stripe_rtt_from_env`. -/
structure StripeConfig where
  nLegs : Nat
  rttFromEnv : Bool

/-- `probe_rtt_ms` is connected when it measures something. -/
def probeContact (rtt : Option Nat) (port : UInt16) : List UInt16 :=
  if rtt.isSome then [port] else []

theorem mem_probeContact {rtt : Option Nat} {port port' : UInt16} :
    port' ∈ probeContact rtt port ↔ rtt.isSome ∧ port' = port := by
  unfold probeContact
  split
  · rename_i h
    simp [h]
  · rename_i h
    simp [h]

/-- Where `build_extra_legs` connects to: leg 0 is probed, every other leg telescoped through
its entry and then probed. -/
def extraContacts (config : StripeConfig) (outcomes : PathOutcomes) (sp : SessionPath)
    (cands : List SessionPath) : List UInt16 :=
  (if config.rttFromEnv then [] else probeContact (outcomes.legRtt 0) (legPorts sp 0)) ++
    cands.zipIdx.flatMap fun (cand, i) =>
      legPorts cand 0 ::
        if config.rttFromEnv then [] else probeContact (outcomes.legRtt (i + 1)) (legPorts cand 0)

/-- What `build_paths` leaves behind: the ports the client has connected to, the hops of the
sending legs, and the addresses of the receiving path. -/
structure BuiltPaths where
  contacts : List UInt16
  sendPath : Fin nPathHops → UInt16
  extraPaths : List (Fin nPathHops → UInt16)
  mncAddr : Addr
  returnAddrs : Fin nPathHops → Addr

def buildPaths (config : StripeConfig) (outcomes : PathOutcomes) (responsePort : UInt16)
    (rng : UInt64) : Option BuiltPaths :=
  (buildSessionPath F weight guardA guardB rng).bind fun (sp, rng) =>
    (leaveGuardAFree F weight guardA guardB config.nLegs 500 sp rng).bind fun (sp, rng) =>
      let probed := probeContact outcomes.rttA (poolPort sp.entryA) ++
        probeContact outcomes.rttB (poolPort sp.lastB)
      let sp := if aSlowerOrDead outcomes.rttA outcomes.rttB then swapTriples sp else sp
      -- both paths are telescoped through their first port
      let contacts := probed ++ [legPorts sp 0, recvPorts sp 0]
      let paths : BuiltPaths :=
        { contacts, sendPath := legPorts sp, extraPaths := [],
          mncAddr := addrPlain (recvPorts sp 0),
          returnAddrs := ![addrPlain (recvPorts sp 1), addrPlain (recvPorts sp 2),
            addrPlain responsePort] }
      if !(outcomes.sendLeg 0 && outcomes.receiving && outcomes.returnHeader) then none
      else if 1 < config.nLegs then
        let used := legNodes sp ++ [sp.entryB, sp.midB, sp.lastB]
        (buildExtraLegs F weight guardA guardB outcomes (config.nLegs - 1) 1 used rng).map
          fun cands =>
            { paths with
              contacts := contacts ++ extraContacts config outcomes sp cands
              extraPaths := cands.map legPorts }
      else some paths

/-- The client connects to it, or it delivers to the client's listener. -/
def BuiltPaths.ClientSide (paths : BuiltPaths) (node : Node) : Prop :=
  poolPort node ∈ paths.contacts ∨ addrPort (paths.returnAddrs 1) = poolPort node

/-- It is the exit of a sending leg, or the gateway sends its responses to it. -/
def BuiltPaths.GatewaySide (paths : BuiltPaths) (node : Node) : Prop :=
  (∃ ports ∈ paths.sendPath :: paths.extraPaths, ports 2 = poolPort node) ∨
    addrPort paths.mncAddr = poolPort node

/-! The legs share no node. -/

section
variable {F weight guardA guardB}

/-- The path that is kept was drawn like the first one. -/
theorem leaveGuardAFree_drawn {nLegs tries : Nat} {sp sp' : SessionPath} {rng₀ rng rng' : UInt64}
    (hsp : buildSessionPath F weight guardA guardB rng₀ = some (sp, rng))
    (h : leaveGuardAFree F weight guardA guardB nLegs tries sp rng = some (sp', rng')) :
    ∃ rng₁, buildSessionPath F weight guardA guardB rng₁ = some (sp', rng') := by
  induction tries generalizing sp rng₀ rng with
  | zero =>
    unfold leaveGuardAFree at h
    split at h
    · cases h
    · obtain ⟨rfl, rfl⟩ := Prod.mk.inj (Option.some.inj h)
      exact ⟨rng₀, hsp⟩
  | succ tries ih =>
    unfold leaveGuardAFree at h
    split at h
    · obtain ⟨⟨drawn, rng₁⟩, hdrawn, h⟩ := Option.bind_eq_some_iff.mp h
      exact ih hdrawn h
    · obtain ⟨rfl, rfl⟩ := Prod.mk.inj (Option.some.inj h)
      exact ⟨rng₀, hsp⟩

theorem legIsDisjoint_used {used : List Node} {cand : SessionPath}
    (h : legIsDisjoint guardA used cand = true) : used.Disjoint (legNodes cand) := by
  intro node hused hcand
  unfold legIsDisjoint at h
  have hfree := List.all_eq_true.mp (Bool.and_eq_true_iff.mp h).1 node hused
  simp [hcand] at hfree

theorem findLeg_drawn {used : List Node} {attempts : Nat} {rng rng' : UInt64}
    {cand : SessionPath}
    (h : findLeg F weight guardA guardB used attempts rng = some (cand, rng')) :
    (∃ rng₁, buildSessionPath F weight guardA guardB rng₁ = some (cand, rng')) ∧
      used.Disjoint (legNodes cand) := by
  induction attempts generalizing rng with
  | zero => cases h
  | succ attempts ih =>
    unfold findLeg at h
    obtain ⟨⟨drawn, rng₁⟩, hdrawn, h⟩ := Option.bind_eq_some_iff.mp h
    dsimp only at h
    split at h
    · rename_i hfree
      obtain ⟨rfl, rfl⟩ := Prod.mk.inj (Option.some.inj h)
      exact ⟨⟨rng, hdrawn⟩, legIsDisjoint_used hfree⟩
    · exact ih h

theorem legNodes_nodup {sp : SessionPath} (h : sp.Separate) :
    (legNodes sp).Nodup := by
  have hA := h.fromA
  simp only [legNodes, List.nodup_cons, List.mem_cons, not_or] at hA ⊢
  grind

/-- The extra legs share no node with each other or with `used`. -/
theorem buildExtraLegs_nodup {outcomes : PathOutcomes} {rest leg : Nat} {used : List Node}
    {rng : UInt64} {cands : List SessionPath}
    (h : buildExtraLegs F weight guardA guardB outcomes rest leg used rng = some cands) :
    used.Disjoint (cands.flatMap legNodes) ∧ (cands.flatMap legNodes).Nodup := by
  induction rest generalizing leg used rng cands with
  | zero =>
    obtain rfl := Option.some.inj h
    exact ⟨List.disjoint_nil_right used, List.nodup_nil⟩
  | succ rest ih =>
    unfold buildExtraLegs at h
    obtain ⟨⟨cand, rng₁⟩, hcand, h⟩ := Option.bind_eq_some_iff.mp h
    dsimp only at h
    split at h
    · obtain ⟨later, hlater, rfl⟩ := Option.map_eq_some_iff.mp h
      obtain ⟨⟨rng₂, hdrawn⟩, hused⟩ := findLeg_drawn hcand
      have hsep := (buildSessionPath_separate hdrawn).1
      obtain ⟨hdisj, hnodup⟩ := ih hlater
      rw [List.disjoint_append_left] at hdisj
      rw [List.flatMap_cons]
      exact ⟨List.disjoint_append_right.mpr ⟨hused, hdisj.1⟩,
        (legNodes_nodup hsep).append hnodup hdisj.2⟩
    · cases h

/-! Who is next to the client and to the gateway. -/

/-- The nodes behind `paths`: the path that was probed, the same path with its roles assigned,
and the extra legs. -/
structure Laid (outcomes : PathOutcomes) (paths : BuiltPaths) (probed sp : SessionPath)
    (cands : List SessionPath) : Prop where
  separate : probed.Separate
  assigned : sp = if aSlowerOrDead outcomes.rttA outcomes.rttB then swapTriples probed else probed
  apart : (legNodes sp ++ [sp.entryB, sp.midB, sp.lastB]).Disjoint (cands.flatMap legNodes)
  nodup : (cands.flatMap legNodes).Nodup
  contacts : ∀ port, port ∈ paths.contacts ↔
    (outcomes.rttA.isSome ∧ port = poolPort probed.entryA) ∨
      (outcomes.rttB.isSome ∧ port = poolPort probed.lastB) ∨
      port ∈ [poolPort sp.entryA, poolPort sp.lastB] ∨ ∃ cand ∈ cands, port = poolPort cand.entryA
  sendPath : paths.sendPath = legPorts sp
  extraPaths : paths.extraPaths = cands.map legPorts
  mncAddr : paths.mncAddr = addrPlain (poolPort sp.lastB)
  delivers : paths.returnAddrs 1 = addrPlain (poolPort sp.entryB)

theorem mem_extraContacts {config : StripeConfig} {outcomes : PathOutcomes} {sp : SessionPath}
    {cands : List SessionPath} {port : UInt16} (h : port ∈ extraContacts config outcomes sp cands) :
    port = poolPort sp.entryA ∨ ∃ cand ∈ cands, port = poolPort cand.entryA := by
  unfold extraContacts at h
  rcases List.mem_append.mp h with h | h
  · left
    split at h
    · cases h
    · exact (mem_probeContact.mp h).2
  · right
    obtain ⟨⟨cand, i⟩, hcand, h⟩ := List.mem_flatMap.mp h
    refine ⟨cand, List.fst_mem_of_mem_zipIdx hcand, ?_⟩
    rcases List.mem_cons.mp h with h | h
    · exact h
    · split at h
      · cases h
      · exact (mem_probeContact.mp h).2

theorem entry_mem_extraContacts (config : StripeConfig) (outcomes : PathOutcomes)
    (sp : SessionPath) {cands : List SessionPath} {cand : SessionPath} (h : cand ∈ cands) :
    poolPort cand.entryA ∈ extraContacts config outcomes sp cands := by
  obtain ⟨i, hi, rfl⟩ := List.getElem_of_mem h
  refine List.mem_append_right _ (List.mem_flatMap.mpr ⟨(cands[i], i), ?_, List.mem_cons_self⟩)
  exact List.mk_mem_zipIdx_iff_getElem?.mpr (List.getElem?_eq_getElem hi)

theorem buildPaths_laid {config : StripeConfig} {outcomes : PathOutcomes} {responsePort : UInt16}
    {rng : UInt64} {paths : BuiltPaths}
    (h : buildPaths F weight guardA guardB config outcomes responsePort rng = some paths) :
    ∃ probed sp cands, Laid outcomes paths probed sp cands := by
  unfold buildPaths at h
  obtain ⟨⟨drawn, rng₁⟩, hdrawn, h⟩ := Option.bind_eq_some_iff.mp h
  obtain ⟨⟨probed, rng₂⟩, hprobed, h⟩ := Option.bind_eq_some_iff.mp h
  obtain ⟨rng₃, hkept⟩ := leaveGuardAFree_drawn hdrawn hprobed
  have hsep := (buildSessionPath_separate hkept).1
  dsimp only at h
  split at h
  · cases h
  split at h
  · obtain ⟨cands, hcands, rfl⟩ := Option.map_eq_some_iff.mp h
    obtain ⟨hdisj, hnodup⟩ := buildExtraLegs_nodup hcands
    refine ⟨probed, _, cands, hsep, rfl, hdisj, hnodup, ?_, rfl, rfl, rfl, rfl⟩
    intro port
    constructor
    · intro hport
      simp only [List.mem_append, mem_probeContact] at hport
      obtain ((hport | hport) | hport) | hport := hport
      · exact .inl hport
      · exact .inr (.inl hport)
      · exact .inr (.inr (.inl hport))
      · obtain rfl | hport := mem_extraContacts hport
        · exact .inr (.inr (.inl List.mem_cons_self))
        · exact .inr (.inr (.inr hport))
    · intro hport
      simp only [List.mem_append, mem_probeContact]
      obtain hport | hport | hport | ⟨cand, hcand, rfl⟩ := hport
      · exact .inl (.inl (.inl hport))
      · exact .inl (.inl (.inr hport))
      · exact .inl (.inr hport)
      · exact .inr (entry_mem_extraContacts config outcomes _ hcand)
  · obtain rfl := Option.some.inj h
    refine ⟨probed, _, [], hsep, rfl, ?_, List.nodup_nil, ?_, rfl, rfl, rfl, rfl⟩
    · exact List.disjoint_nil_right _
    · intro port
      simp only [List.mem_append, mem_probeContact, List.not_mem_nil, false_and, exists_false,
        or_false, or_assoc]
      exact Iff.rfl

theorem addrPort_poolPort (m n : Node) :
    addrPort (addrPlain (poolPort m)) = poolPort n ↔ n = m := by
  unfold addrPort
  rw [read_port_addrPlain]
  exact ⟨fun h => (poolPort_injective h).symm, fun h => congrArg poolPort h.symm⟩

section
variable {outcomes : PathOutcomes} {paths : BuiltPaths} {probed sp : SessionPath}
  {cands : List SessionPath}

theorem Laid.clientSide_iff (h : Laid outcomes paths probed sp cands) (node : Node) :
    paths.ClientSide node ↔
      (outcomes.rttA.isSome ∧ node = probed.entryA) ∨
        (outcomes.rttB.isSome ∧ node = probed.lastB) ∨
        node ∈ [sp.entryA, sp.lastB, sp.entryB] ∨ ∃ cand ∈ cands, node = cand.entryA := by
  unfold BuiltPaths.ClientSide
  rw [h.contacts, h.delivers, addrPort_poolPort]
  simp only [List.mem_cons, List.not_mem_nil, or_false, poolPort_injective.eq_iff]
  grind

theorem Laid.gatewaySide_iff (h : Laid outcomes paths probed sp cands) (node : Node) :
    paths.GatewaySide node ↔
      node = sp.lastB ∨ node = sp.lastA ∨ ∃ cand ∈ cands, node = cand.lastA := by
  unfold BuiltPaths.GatewaySide
  rw [h.mncAddr, addrPort_poolPort, h.sendPath, h.extraPaths]
  have hexit : ∀ leg : SessionPath, legPorts leg 2 = poolPort node ↔ node = leg.lastA := fun leg =>
    ⟨fun h => (poolPort_injective h).symm, fun h => congrArg poolPort h.symm⟩
  simp only [List.mem_cons, List.mem_map, exists_eq_or_imp, exists_exists_and_eq_and, hexit]
  exact or_comm

theorem Laid.entry_ne_exit (h : Laid outcomes paths probed sp cands) {cand leg : SessionPath}
    (hcand : cand ∈ cands) (hleg : leg ∈ cands) : leg.lastA ≠ cand.entryA := by
  obtain ⟨hwithin, hpair⟩ := List.nodup_flatMap.mp h.nodup
  intro heq
  by_cases hsame : leg = cand
  · subst hsame
    have hnodup := hwithin leg hleg
    simp [legNodes, heq] at hnodup
  · have : Std.Symm (Function.onFun List.Disjoint legNodes) :=
      ⟨fun _ _ hdisj => List.disjoint_symm hdisj⟩
    have hdisj : List.Disjoint (legNodes leg) (legNodes cand) := hpair.forall hleg hcand hsame
    have hexit : leg.lastA ∈ legNodes leg := by simp [legNodes]
    have hentry : leg.lastA ∈ legNodes cand := by simp [legNodes, heq]
    exact hdisj hexit hentry

/-- What the client is next to on the session path is not on an extra leg. -/
theorem Laid.not_extra (h : Laid outcomes paths probed sp cands) {cand : SessionPath}
    (hcand : cand ∈ cands) {node : Node} (hnode : node ∈ legNodes cand) :
    node ∉ [probed.entryA, probed.lastB, sp.entryA, sp.lastA, sp.lastB, sp.entryB] := by
  have happart := fun hused => h.apart hused (List.mem_flatMap.mpr ⟨cand, hcand, hnode⟩)
  have hassigned := h.assigned
  intro hmem
  apply happart
  split at hassigned <;> subst hassigned <;>
    simp only [legNodes, swapTriples, List.mem_append, List.mem_cons, List.not_mem_nil,
      or_false] at hmem ⊢ <;> tauto

/-- The client has connected to the exit of the sending path exactly when it swapped the paths
after a probe of that node that measured something. -/
theorem Laid.clientSide_exit (h : Laid outcomes paths probed sp cands) :
    paths.ClientSide sp.lastA ↔
      aSlowerOrDead outcomes.rttA outcomes.rttB = true ∧ outcomes.rttB.isSome := by
  have hextra : ¬ ∃ cand ∈ cands, sp.lastA = cand.entryA := by
    rintro ⟨cand, hcand, heq⟩
    have hentry : cand.entryA ∈ legNodes cand := by simp [legNodes]
    exact h.not_extra hcand hentry (by simp [heq])
  have hassigned := h.assigned
  obtain ⟨hA, hB⟩ := h.separate
  simp only [List.nodup_cons, List.mem_cons, not_or] at hA hB
  rw [h.clientSide_iff]
  simp only [hextra, or_false]
  split at hassigned
  · rename_i hslower
    subst hassigned
    simp only [hslower, true_and, swapTriples, List.mem_cons, List.not_mem_nil, or_false, and_true]
    grind
  · rename_i hslower
    subst hassigned
    simp only [hslower, List.mem_cons, List.not_mem_nil, or_false]
    grind

end

section
variable {config : StripeConfig} {outcomes : PathOutcomes} {responsePort : UInt16} {rng : UInt64}
  {paths : BuiltPaths}
  (h : buildPaths F weight guardA guardB config outcomes responsePort rng = some paths)
include h

theorem bothSides_iff (node : Node) :
    paths.ClientSide node ∧ paths.GatewaySide node ↔
      addrPort paths.mncAddr = poolPort node ∨
        (aSlowerOrDead outcomes.rttA outcomes.rttB = true ∧ outcomes.rttB.isSome ∧
          paths.sendPath 2 = poolPort node) := by
  obtain ⟨probed, sp, cands, hlaid⟩ := buildPaths_laid h
  have hexit : paths.sendPath 2 = poolPort node ↔ node = sp.lastA := by
    rw [hlaid.sendPath]
    exact ⟨fun h => (poolPort_injective h).symm, fun h => congrArg poolPort h.symm⟩
  rw [hlaid.mncAddr, addrPort_poolPort, hexit, hlaid.gatewaySide_iff]
  constructor
  · rintro ⟨hclient, rfl | rfl | ⟨leg, hleg, rfl⟩⟩
    · exact .inl rfl
    · obtain ⟨hslower, hprobed⟩ := hlaid.clientSide_exit.mp hclient
      exact .inr ⟨hslower, hprobed, rfl⟩
    · have hlast : leg.lastA ∈ legNodes leg := by simp [legNodes]
      have hfar := hlaid.not_extra hleg hlast
      obtain ⟨-, heq⟩ | ⟨-, heq⟩ | hmem | ⟨cand, hcand, heq⟩ := (hlaid.clientSide_iff _).mp hclient
      · exact absurd (by simp [heq]) hfar
      · exact absurd (by simp [heq]) hfar
      · refine absurd ?_ hfar
        simp only [List.mem_cons] at hmem ⊢
        tauto
      · exact absurd heq (hlaid.entry_ne_exit hcand hleg)
  · rintro (rfl | ⟨hslower, hprobed, rfl⟩)
    · exact ⟨(hlaid.clientSide_iff _).mpr (.inr (.inr (.inl (by simp)))), .inl rfl⟩
    · exact ⟨hlaid.clientSide_exit.mpr ⟨hslower, hprobed⟩, .inr (.inl rfl)⟩

/-- The node next to both ends is the one the gateway sends its responses to, through which the
receiving path was telescoped. -/
theorem only_mnc_on_both_sides (node : Node)
    (hnode : aSlowerOrDead outcomes.rttA outcomes.rttB = false ∨ paths.sendPath 2 ≠ poolPort node) :
    paths.ClientSide node ∧ paths.GatewaySide node ↔ addrPort paths.mncAddr = poolPort node := by
  rw [bothSides_iff h]
  refine or_iff_left fun hexit => ?_
  obtain hkept | hother := hnode
  · exact Bool.noConfusion (hkept.symm.trans hexit.1)
  · exact hother hexit.2.2

end

end

/-! A session in which path B probes faster. -/

def sampleDoubles : Doubles where
  D := ℚ
  ofNat n := n
  add := (· + ·)
  mul := (· * ·)
  div := (· / ·)
  le a b := a ≤ b
  trunc a := a.floor.toNat

def sampleGuards (a b c : Node) : GuardSet := ⟨[a, b, c], Nat.le_refl 3⟩

def sampleGuardsA : GuardSet := sampleGuards ⟨1, by decide⟩ ⟨2, by decide⟩ ⟨3, by decide⟩

def sampleGuardsB : GuardSet := sampleGuards ⟨4, by decide⟩ ⟨5, by decide⟩ ⟨6, by decide⟩

def samplePaths : Option BuiltPaths :=
  buildPaths sampleDoubles (fun _ => (1 : ℚ)) sampleGuardsA sampleGuardsB
    ⟨1, false⟩ ⟨some 3, some 2, fun _ => none, fun _ => true, true, true⟩ 9020 7

set_option maxRecDepth 100000 in
theorem samplePaths_ports :
    samplePaths.map (fun paths => (paths.contacts, addrPort paths.mncAddr, paths.sendPath 2))
      = some ([9102, 9125, 9104, 9158], 9158, 9125) := by
  decide +kernel

/-- Node 58 is telescoped through directly, and the gateway sends its responses to it. -/
theorem relay_on_both_sides :
    ∃ paths, samplePaths = some paths ∧
      paths.ClientSide ⟨58, by decide⟩ ∧ paths.GatewaySide ⟨58, by decide⟩ := by
  obtain ⟨paths, hpaths, hports⟩ := Option.map_eq_some_iff.mp samplePaths_ports
  obtain ⟨hcontacts, hnodes⟩ := Prod.mk.inj hports
  refine ⟨paths, hpaths, .inl ?_, .inr (Prod.mk.inj hnodes).1⟩
  rw [hcontacts]
  decide

/-- The same draws with path A probing faster. -/
def keptPaths : Option BuiltPaths :=
  buildPaths sampleDoubles (fun _ => (1 : ℚ)) sampleGuardsA sampleGuardsB
    ⟨1, false⟩ ⟨some 2, some 3, fun _ => none, fun _ => true, true, true⟩ 9020 7

set_option maxRecDepth 100000 in
theorem keptPaths_built : (keptPaths.map BuiltPaths.contacts).isSome = true := by decide +kernel

/-- In the swapped session node 25 is the exit of the sending path. -/
theorem only_mnc_on_both_sides_sample :
    (∃ paths, keptPaths = some paths ∧ ∀ node,
      (paths.ClientSide node ∧ paths.GatewaySide node ↔ addrPort paths.mncAddr = poolPort node)) ∧
    ∃ paths, samplePaths = some paths ∧ ∀ node, node ≠ ⟨25, by decide⟩ →
      (paths.ClientSide node ∧ paths.GatewaySide node ↔
        addrPort paths.mncAddr = poolPort node) := by
  have hkept := keptPaths_built
  rw [Option.isSome_map] at hkept
  obtain ⟨kept, hkept⟩ := Option.isSome_iff_exists.mp hkept
  obtain ⟨paths, hpaths, hports⟩ := Option.map_eq_some_iff.mp samplePaths_ports
  have hexit : paths.sendPath 2 = 9125 := (Prod.mk.inj (Prod.mk.inj hports).2).2
  refine ⟨⟨kept, hkept, fun node => only_mnc_on_both_sides hkept node (.inl rfl)⟩,
    paths, hpaths, fun node hnode => only_mnc_on_both_sides hpaths node (.inr ?_)⟩
  rw [hexit]
  exact fun heq => hnode (poolPort_injective heq.symm)

end AnonSecNet.Client
