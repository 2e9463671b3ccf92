import AnonSecNet.Client.Paths
import AnonSecNet.NodePool.Draws
import AnonSecNet.NodePool.GuardSets

/-! The six nodes of a session path, for every content of the guard set files that
`node_pool_init` accepts. -/
namespace AnonSecNet.Client
open NodePool
variable {F : Doubles} {weight : Node → F.D} {val : F.D → ℚ}

def pathNodes (sp : SessionPath) : List Node :=
  [sp.entryA, sp.midA, sp.lastA, sp.entryB, sp.midB, sp.lastB]

/-- Six nodes of the pool, the entries from the guard sets of their paths. -/
structure SixHops (pool : Pool) (sp : SessionPath) : Prop where
  distinct : (pathNodes sp).Nodup
  inRange : ∀ node ∈ pathNodes sp, node.val < poolSize
  fromA : sp.entryA ∈ pool.guardA.1
  fromB : sp.entryB ∈ pool.guardB.1

/-! The guard sets. -/

section
variable {files : GuardFiles} {savesA savesB : Bool} {seed : UInt64} {pool : Pool}

/-- A set B that is drawn has no id of set A; one that is read may have. -/
theorem nodePoolInit_disjoint_iff
    (h : nodePoolInit F weight files savesA savesB seed = some pool) :
    pool.guardA.1.Disjoint pool.guardB.1 ↔
      ∀ guardB, loadGuardSet files.b = some guardB → pool.guardA.1.Disjoint guardB.1 := by
  obtain ⟨a, ha, h⟩ := Option.bind_eq_some_iff.mp h
  obtain ⟨b, hb, rfl⟩ := Option.map_eq_some_iff.mp h
  rcases guardSetLoadOrCreate_cases hb with hload | ⟨hload, -, -, hapart, -⟩
  · rw [hload]
    constructor
    · rintro hdisj guardB hB
      obtain rfl := Option.some.inj hB
      exact hdisj
    · exact fun hdisj => hdisj b.guards rfl
  · rw [hload]
    refine iff_of_true ?_ fun guardB hB => by cases hB
    exact fun node hA hB => hapart node hB hA

/-! The session path. -/

theorem sixHops_of_build {rng rng' : UInt64} {sp : SessionPath}
    (hdisj : pool.guardA.1.Disjoint pool.guardB.1)
    (h : buildSessionPath F weight pool.guardA pool.guardB rng = some (sp, rng')) :
    SixHops pool sp := by
  obtain ⟨⟨hfromA, hfromB⟩, hA, hB⟩ := buildSessionPath_separate h
  have hentries : sp.entryA ≠ sp.entryB := fun heq => hdisj hA (heq ▸ hB)
  refine ⟨?_, fun node _ => node.isLt, hA, hB⟩
  unfold pathNodes
  simp only [List.nodup_cons, List.mem_cons, not_or] at hfromA hfromB ⊢
  grind

/-- With the guard sets that were read or drawn, every session path has six nodes exactly if
the set in the file of path B, should it hold one, is disjoint from set A. -/
theorem sixHops_iff (hF : F.Rounds val) (hweight : Weighted val weight)
    (hinit : nodePoolInit F weight files savesA savesB seed = some pool) :
    (∀ rng sp rng', buildSessionPath F weight pool.guardA pool.guardB rng = some (sp, rng') →
        SixHops pool sp) ↔
      ∀ guardB, loadGuardSet files.b = some guardB → pool.guardA.1.Disjoint guardB.1 := by
  rw [← nodePoolInit_disjoint_iff hinit]
  constructor
  · intro hsix node hA hB
    obtain ⟨rng, sp, rng', hbuild, hentryA, hentryB⟩ :=
      exists_buildSessionPath hF hweight hA hB
    have hdistinct := (hsix rng sp rng' hbuild).distinct
    simp [pathNodes, hentryA, hentryB] at hdistinct
  · intro hdisj rng sp rng' hbuild
    exact sixHops_of_build hdisj hbuild

end

/-! Two files from different runs. -/

theorem sampleDoubles_rounds : sampleDoubles.Rounds id where
  dyadic m k _ _ := ⟨(m : ℚ) / 2 ^ k, rfl⟩
  power k _ := ⟨(2 : ℚ) ^ k, rfl⟩
  ofNat _ _ := rfl
  add _ _ _ _ := ⟨id, id⟩
  mul _ _ _ _ := ⟨id, id⟩
  div _ _ _ _ _ := ⟨id, id⟩
  le := fun (_ _ : ℚ) => decide_eq_true_iff
  trunc _ _ _ := rfl

theorem unit_weighted : Weighted (F := sampleDoubles) id fun _ => (1 : ℚ) := by
  intro node
  exact ⟨one_pos, one_le_pow₀ (by norm_num)⟩

def guardFileA : List UInt8 := labelBytes "3\n1\n2\n3\n"
def guardFileB : List UInt8 := labelBytes "3\n1\n5\n6\n"

def samplePool : Option Pool :=
  nodePoolInit sampleDoubles (fun _ => (1 : ℚ)) ⟨some guardFileA, some guardFileB⟩ true true 100

set_option maxRecDepth 100000 in
theorem samplePool_paths :
    (samplePool.bind fun pool =>
      (buildSessionPath sampleDoubles (fun _ => (1 : ℚ)) pool.guardA pool.guardB pool.rng).map
        fun out => (pathNodes out.1).map Fin.val) = some [1, 25, 26, 1, 67, 2] := by
  decide +kernel

/-- Node 1 is in both files, and here the entry of both paths. -/
theorem shared_guard_enters_both :
    ∃ pool sp rng, samplePool = some pool ∧
      buildSessionPath sampleDoubles (fun _ => (1 : ℚ)) pool.guardA pool.guardB pool.rng
        = some (sp, rng) ∧ ¬ SixHops pool sp := by
  obtain ⟨pool, hpool, h⟩ := Option.bind_eq_some_iff.mp samplePool_paths
  obtain ⟨⟨sp, rng⟩, hbuild, hnodes⟩ := Option.map_eq_some_iff.mp h
  refine ⟨pool, sp, rng, hpool, hbuild, fun hsix => ?_⟩
  have hdistinct := (List.nodup_map_iff Fin.val_injective).mpr hsix.distinct
  rw [hnodes] at hdistinct
  exact absurd hdistinct (by decide)

theorem sixHops_iff_sample :
    ∃ pool, samplePool = some pool ∧
      ((∀ rng sp rng', buildSessionPath sampleDoubles (fun _ => (1 : ℚ)) pool.guardA pool.guardB rng
            = some (sp, rng') → SixHops pool sp) ↔
        ∀ guardB, loadGuardSet (some guardFileB) = some guardB →
          pool.guardA.1.Disjoint guardB.1) := by
  obtain ⟨pool, hpool, -⟩ := Option.bind_eq_some_iff.mp samplePool_paths
  exact ⟨pool, hpool, sixHops_iff sampleDoubles_rounds unit_weighted hpool⟩

end AnonSecNet.Client
