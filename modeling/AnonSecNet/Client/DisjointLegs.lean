import AnonSecNet.Client.Paths

/-! The nodes of all sending legs and of the receiving path. -/
namespace AnonSecNet.Client
open NodePool
variable {F : Doubles} {weight : Node → F.D} {guardA guardB : GuardSet}

/-- The ports of the sending legs and of MNc, MNb and MNa. -/
def BuiltPaths.hops (paths : BuiltPaths) : List UInt16 :=
  (paths.sendPath :: paths.extraPaths).flatMap List.ofFn ++
    [addrPort paths.mncAddr, addrPort (paths.returnAddrs 0), addrPort (paths.returnAddrs 1)]

/-- Nodes behind the hops of all legs, each used once; every extra leg enters by a guard of
set A, and no two legs by one node. -/
structure BuiltPaths.DisjointLegs (guardA : GuardSet) (nLegs : Nat) (paths : BuiltPaths)
    (nodes : List Node) : Prop where
  hops : paths.hops = nodes.map poolPort
  nodup : nodes.Nodup
  length : nodes.length = 3 * nLegs + 3
  guards : ∀ ports ∈ paths.extraPaths, ∃ guard ∈ guardA.1, ports 0 = poolPort guard
  entries : ((paths.sendPath :: paths.extraPaths).map (· 0)).Nodup

/-- The nodes of a session path. -/
def sessionNodes (sp : SessionPath) : List Node := legNodes sp ++ [sp.entryB, sp.midB, sp.lastB]

theorem sessionNodes_nodup {sp : SessionPath} (h : sp.Separate) (hentry : sp.entryA ≠ sp.entryB) :
    (sessionNodes sp).Nodup := by
  obtain ⟨hA, hB⟩ := h
  simp only [sessionNodes, legNodes, List.cons_append, List.nil_append, List.nodup_cons,
    List.mem_cons, not_or] at hA hB ⊢
  grind

theorem sessionNodes_swap (sp : SessionPath) :
    (sessionNodes (swapTriples sp)).Perm (sessionNodes sp) :=
  @List.perm_append_comm _ [sp.entryB, sp.midB, sp.lastB] (legNodes sp)

/-- A drawn path enters by a guard of either set, so by two nodes when the sets share none. -/
theorem buildSessionPath_nodup (hguards : guardA.1.Disjoint guardB.1) {rng rng' : UInt64}
    {sp : SessionPath} (h : buildSessionPath F weight guardA guardB rng = some (sp, rng')) :
    (sessionNodes sp).Nodup := by
  obtain ⟨hsep, hA, hB⟩ := buildSessionPath_separate h
  exact sessionNodes_nodup hsep fun heq => hguards hA (heq ▸ hB)

theorem buildExtraLegs_entries {outcomes : PathOutcomes} {rest leg : Nat} {used : List Node}
    {rng : UInt64} {cands : List SessionPath}
    (h : buildExtraLegs F weight guardA guardB outcomes rest leg used rng = some cands) :
    cands.length = rest ∧ ∀ cand ∈ cands, cand.entryA ∈ guardA.1 := by
  induction rest generalizing leg used rng cands with
  | zero =>
    obtain rfl := Option.some.inj h
    exact ⟨rfl, fun _ hmem => absurd hmem List.not_mem_nil⟩
  | succ rest ih =>
    unfold buildExtraLegs at h
    obtain ⟨⟨cand, rng₁⟩, hcand, h⟩ := Option.bind_eq_some_iff.mp h
    dsimp only at h
    split at h
    · obtain ⟨later, hlater, rfl⟩ := Option.map_eq_some_iff.mp h
      obtain ⟨⟨rng₂, hdrawn⟩, -⟩ := findLeg_drawn hcand
      obtain ⟨hlen, hentries⟩ := ih hlater
      refine ⟨congrArg Nat.succ hlen, fun leg hleg => ?_⟩
      obtain rfl | hleg := List.mem_cons.mp hleg
      · exact (buildSessionPath_separate hdrawn).2.1
      · exact hentries leg hleg
    · cases h

/-- The extra legs leave the session path alone and each other. -/
theorem allNodes_nodup {sp : SessionPath} {cands : List SessionPath}
    (hsp : (sessionNodes sp).Nodup)
    (happart : (sessionNodes sp).Disjoint (cands.flatMap legNodes))
    (hcands : (cands.flatMap legNodes).Nodup) :
    ((sp :: cands).flatMap legNodes ++ [sp.lastB, sp.midB, sp.entryB]).Nodup := by
  have hall : (sessionNodes sp ++ cands.flatMap legNodes).Nodup := hsp.append hcands happart
  refine (List.Perm.nodup_iff ?_).mp hall
  have hback : [sp.entryB, sp.midB, sp.lastB].Perm [sp.lastB, sp.midB, sp.entryB] :=
    (List.reverse_perm [sp.entryB, sp.midB, sp.lastB]).symm
  rw [List.flatMap_cons, sessionNodes, List.append_assoc, List.append_assoc]
  exact (List.perm_append_comm.trans (hback.append_left _)).append_left _

theorem entries_nodup {sp : SessionPath} {cands : List SessionPath} {later : List Node}
    (h : ((sp :: cands).flatMap legNodes ++ later).Nodup) :
    (((sp :: cands).map legPorts).map (· 0)).Nodup := by
  have hentries : ((sp :: cands).map SessionPath.entryA).Sublist
      ((sp :: cands).flatMap legNodes) := by
    generalize sp :: cands = legs
    induction legs with
    | nil => exact List.Sublist.refl []
    | cons leg legs ih =>
      rw [List.map_cons, List.flatMap_cons]
      exact List.Sublist.cons_cons leg.entryA (ih.trans (List.sublist_append_right _ _))
  have hports : ((sp :: cands).map legPorts).map (· 0)
      = ((sp :: cands).map SessionPath.entryA).map poolPort := by
    rw [List.map_map, List.map_map]
    rfl
  rw [hports]
  exact (hentries.nodup (h.sublist (List.sublist_append_left _ _))).map poolPort_injective

theorem disjointLegs_of {sp : SessionPath} {cands : List SessionPath} {nLegs : Nat}
    {paths : BuiltPaths} (hsp : (sessionNodes sp).Nodup)
    (happart : (sessionNodes sp).Disjoint (cands.flatMap legNodes))
    (hcands : (cands.flatMap legNodes).Nodup) (hlen : cands.length + 1 = nLegs)
    (hguards : ∀ cand ∈ cands, cand.entryA ∈ guardA.1) (hsend : paths.sendPath = legPorts sp)
    (hextra : paths.extraPaths = cands.map legPorts)
    (hmnc : paths.mncAddr = addrPlain (recvPorts sp 0))
    (hmnb : paths.returnAddrs 0 = addrPlain (recvPorts sp 1))
    (hmna : paths.returnAddrs 1 = addrPlain (recvPorts sp 2)) :
    paths.DisjointLegs guardA nLegs
      ((sp :: cands).flatMap legNodes ++ [sp.lastB, sp.midB, sp.entryB]) := by
  have hnodup := allNodes_nodup hsp happart hcands
  have hlegs : ∀ legs : List SessionPath,
      (legs.map legPorts).flatMap List.ofFn = (legs.flatMap legNodes).map poolPort := by
    intro legs
    rw [List.flatMap_map, List.map_flatMap]
    rfl
  have hport : ∀ port, addrPort (addrPlain port) = port := read_port_addrPlain
  refine ⟨?_, hnodup, ?_, ?_, ?_⟩
  · unfold BuiltPaths.hops
    rw [hsend, hextra, hmnc, hmnb, hmna, ← List.map_cons, hlegs, hport, hport, hport,
      List.map_append]
    rfl
  · have hthree : ∀ legs : List SessionPath, (legs.flatMap legNodes).length = 3 * legs.length := by
      intro legs
      induction legs with
      | nil => rfl
      | cons leg legs ih =>
        rw [List.flatMap_cons, List.length_append, ih, List.length_cons]
        simp only [legNodes, List.length_cons, List.length_nil]
        omega
    rw [List.length_append, hthree, List.length_cons, hlen]
    rfl
  · intro ports hports
    rw [hextra] at hports
    obtain ⟨cand, hcand, rfl⟩ := List.mem_map.mp hports
    exact ⟨cand.entryA, hguards cand hcand, rfl⟩
  · rw [hsend, hextra, ← List.map_cons]
    exact entries_nodup hnodup

/-- Whatever was drawn and however the probes came out, no two hops of the client's paths are
one node. -/
theorem striping_legs_disjoint (hguards : guardA.1.Disjoint guardB.1) {config : StripeConfig}
    (hlegs : 1 ≤ config.nLegs) {outcomes : PathOutcomes} {responsePort : UInt16} {rng : UInt64}
    {paths : BuiltPaths}
    (h : buildPaths F weight guardA guardB config outcomes responsePort rng = some paths) :
    ∃ nodes, paths.DisjointLegs guardA config.nLegs nodes := by
  unfold buildPaths at h
  obtain ⟨⟨drawn, rng₁⟩, hdrawn, h⟩ := Option.bind_eq_some_iff.mp h
  obtain ⟨⟨probed, rng₂⟩, hprobed, h⟩ := Option.bind_eq_some_iff.mp h
  obtain ⟨rng₃, hkept⟩ := leaveGuardAFree_drawn hdrawn hprobed
  have hsession := buildSessionPath_nodup hguards hkept
  have hassigned : (sessionNodes (if aSlowerOrDead outcomes.rttA outcomes.rttB then
      swapTriples probed else probed)).Nodup := by
    split
    · exact (sessionNodes_swap probed).nodup_iff.mpr hsession
    · exact hsession
  dsimp only at h
  split at h
  · cases h
  split at h
  · obtain ⟨cands, hcands, rfl⟩ := Option.map_eq_some_iff.mp h
    obtain ⟨happart, hnodup⟩ := buildExtraLegs_nodup hcands
    obtain ⟨hlen, hentries⟩ := buildExtraLegs_entries hcands
    exact ⟨_, disjointLegs_of hassigned happart hnodup (by omega) hentries rfl rfl rfl rfl rfl⟩
  · rename_i hsingle
    obtain rfl := Option.some.inj h
    have hnone : (([] : List SessionPath).flatMap legNodes).Nodup := List.nodup_nil
    exact ⟨_, disjointLegs_of hassigned (List.disjoint_nil_right _) hnone
      (by rw [List.length_nil]; omega) (fun _ hmem => absurd hmem List.not_mem_nil)
      rfl rfl rfl rfl rfl⟩

def threeLegs : Option BuiltPaths :=
  buildPaths sampleDoubles (fun _ => (1 : ℚ)) sampleGuardsA sampleGuardsB
    ⟨3, false⟩ ⟨some 3, some 2, fun _ => some 1, fun _ => true, true, true⟩ 9020 1

set_option maxRecDepth 100000 in
theorem threeLegs_built : (threeLegs.map BuiltPaths.contacts).isSome = true := by decide +kernel

theorem striping_legs_disjoint_three :
    ∃ paths nodes, threeLegs = some paths ∧
      paths.DisjointLegs (sampleGuards ⟨1, by decide⟩ ⟨2, by decide⟩ ⟨3, by decide⟩) 3 nodes := by
  have hbuilt := threeLegs_built
  rw [Option.isSome_map] at hbuilt
  obtain ⟨paths, hpaths⟩ := Option.isSome_iff_exists.mp hbuilt
  have hguards : (sampleGuards ⟨1, by decide⟩ ⟨2, by decide⟩ ⟨3, by decide⟩).1.Disjoint
      (sampleGuards ⟨4, by decide⟩ ⟨5, by decide⟩ ⟨6, by decide⟩).1 := by
    simp [sampleGuards, Fin.ext_iff]
  obtain ⟨nodes, hnodes⟩ := striping_legs_disjoint hguards (by decide) hpaths
  exact ⟨paths, nodes, hpaths, hnodes⟩

end AnonSecNet.Client
