import AnonSecNet.Config
import Mathlib.Data.List.FinRange
import Mathlib.Data.List.Nodup

/-! `node_pool.c`: the weighted draw of a node, and the six nodes of a session. -/
namespace AnonSecNet.NodePool

def guardSetSize : Nat := 3
abbrev Node : Type := Fin poolSize

def poolPort (node : Node) : UInt16 := UInt16.ofNat (poolPortBase + node.val)

/-- The ids of a set that was loaded or drawn: at most `GUARD_SET_SIZE`, in range. -/
abbrev GuardSet : Type := { ids : List Node // ids.length ≤ guardSetSize }

/-- The operations on `double` that the draws use. `trunc` is the conversion to `int`; what
is converted is never negative. -/
structure Doubles where
  D : Type
  ofNat : Nat → D
  add : D → D → D
  mul : D → D → D
  div : D → D → D
  le : D → D → Bool
  trunc : D → Nat

variable (F : Doubles) (weight : Node → F.D)

/-- The value drawn, and the next state. -/
def splitmix64Next (state : UInt64) : UInt64 × UInt64 :=
  let state := state + 0x9E3779B97F4A7C15
  let z := (state ^^^ (state >>> 30)) * 0xBF58476D1CE4E5B9
  let z := (z ^^^ (z >>> 27)) * 0x94D049BB133111EB
  (z ^^^ (z >>> 31), state)

def rngUniform01 (rng : UInt64) : F.D × UInt64 :=
  let (z, rng) := splitmix64Next rng
  (F.mul (F.ofNat (z >>> 11).toNat) (F.div (F.ofNat 1) (F.ofNat 9007199254740992)), rng)

/-- The nodes the two loops of a draw do not skip. -/
def notExcluded (excl₁ excl₂ : List Node) : List Node :=
  (List.finRange poolSize).filter fun node => !(excl₁.contains node || excl₂.contains node)

def totalWeight (nodes : List Node) : F.D :=
  nodes.foldl (fun total node => F.add total (weight node)) (F.ofNat 0)

/-- The first node whose cumulative weight reaches `target`. -/
def firstReaching (target : F.D) : F.D → List Node → Option Node
  | _, [] => none
  | cum, node :: rest =>
    let cum := F.add cum (weight node)
    if F.le target cum then some node else firstReaching target cum rest

def drawAttempts (total : F.D) (nodes : List Node) : Nat → UInt64 → Option (Node × UInt64)
  | 0, _ => none
  | attempts + 1, rng =>
    let (u, rng) := rngUniform01 F rng
    match firstReaching F weight (F.mul u total) (F.ofNat 0) nodes with
    | some node => some (node, rng)
    | none => drawAttempts total nodes attempts rng

def weightedDrawExcluding (rng : UInt64) (excl₁ excl₂ : List Node) : Option (Node × UInt64) :=
  let nodes := notExcluded excl₁ excl₂
  let total := totalWeight F weight nodes
  if F.le total (F.ofNat 0) then none else drawAttempts F weight total nodes 10000 rng

/-- Path A is `entryA midA lastA`; path B is `lastB midB entryB` on the way to the client. -/
structure SessionPath where
  entryA : Node
  midA : Node
  lastA : Node
  entryB : Node
  midB : Node
  lastB : Node
deriving DecidableEq

/-- A uniform pick within a guard set. -/
def pickEntry (guards : GuardSet) (rng : UInt64) : Option Node × UInt64 :=
  let (u, rng) := rngUniform01 F rng
  let idx := F.trunc (F.mul u (F.ofNat guards.1.length))
  (guards.1[if guards.1.length ≤ idx then guards.1.length - 1 else idx]?, rng)

def buildSessionPath (guardA guardB : GuardSet) (rng : UInt64) : Option (SessionPath × UInt64) :=
  let (entryA, rng) := pickEntry F guardA rng
  let (entryB, rng) := pickEntry F guardB rng
  -- an empty set has no entry to pick
  entryA.bind fun entryA => entryB.bind fun entryB =>
    let used := [entryA, entryB]
    (weightedDrawExcluding F weight rng used []).bind fun (midA, rng) =>
      let used := used ++ [midA]
      (weightedDrawExcluding F weight rng used []).bind fun (lastA, rng) =>
        let used := used ++ [lastA]
        (weightedDrawExcluding F weight rng used []).bind fun (midB, rng) =>
          let used := used ++ [midB]
          (weightedDrawExcluding F weight rng used []).bind fun (lastB, rng) =>
            some (⟨entryA, midA, lastA, entryB, midB, lastB⟩, rng)

theorem poolPort_injective : Function.Injective poolPort := by
  intro m n h
  have hm := m.isLt
  have hn := n.isLt
  have hport := congrArg UInt16.toNat h
  simp [poolPort, poolPortBase, poolSize] at hport hm hn
  exact Fin.ext (by omega)

/-! What a draw can return. -/

section
variable {F weight}

theorem mem_notExcluded {excl₁ excl₂ : List Node} {node : Node} :
    node ∈ notExcluded excl₁ excl₂ ↔ node ∉ excl₁ ∧ node ∉ excl₂ := by
  simp [notExcluded]

theorem firstReaching_mem {target cum : F.D} {nodes : List Node} {node : Node}
    (h : firstReaching F weight target cum nodes = some node) : node ∈ nodes := by
  induction nodes generalizing cum with
  | nil => cases h
  | cons first rest ih =>
    unfold firstReaching at h
    dsimp only at h
    split at h
    · obtain rfl := Option.some.inj h
      exact List.mem_cons_self
    · exact List.mem_cons_of_mem first (ih h)

theorem drawAttempts_mem {total : F.D} {nodes : List Node} {attempts : Nat} {rng rng' : UInt64}
    {node : Node} (h : drawAttempts F weight total nodes attempts rng = some (node, rng')) :
    node ∈ nodes := by
  induction attempts generalizing rng with
  | zero => cases h
  | succ attempts ih =>
    unfold drawAttempts at h
    dsimp only at h
    split at h
    · rename_i first hfirst
      obtain ⟨rfl, -⟩ := Prod.mk.inj (Option.some.inj h)
      exact firstReaching_mem hfirst
    · exact ih h

theorem weightedDrawExcluding_notMem {rng rng' : UInt64} {excl₁ excl₂ : List Node} {node : Node}
    (h : weightedDrawExcluding F weight rng excl₁ excl₂ = some (node, rng')) :
    node ∉ excl₁ ∧ node ∉ excl₂ := by
  unfold weightedDrawExcluding at h
  dsimp only at h
  split at h
  · cases h
  · exact mem_notExcluded.mp (drawAttempts_mem h)

theorem pickEntry_mem {guards : GuardSet} {rng : UInt64} {node : Node}
    (h : (pickEntry F guards rng).1 = some node) : node ∈ guards.1 :=
  List.mem_of_getElem? h

/-- The middle and last nodes differ from each other and from both entries. The entries are
one node when both guard sets hold it. -/
structure SessionPath.Separate (sp : SessionPath) : Prop where
  fromA : [sp.entryA, sp.midA, sp.lastA, sp.midB, sp.lastB].Nodup
  fromB : [sp.entryB, sp.midA, sp.lastA, sp.midB, sp.lastB].Nodup

theorem buildSessionPath_separate {guardA guardB : GuardSet} {rng rng' : UInt64}
    {sp : SessionPath} (h : buildSessionPath F weight guardA guardB rng = some (sp, rng')) :
    sp.Separate ∧ sp.entryA ∈ guardA.1 ∧ sp.entryB ∈ guardB.1 := by
  unfold buildSessionPath at h
  simp only [Option.bind_eq_some_iff, Prod.exists] at h
  obtain ⟨entryA, hA, entryB, hB, midA, _, hmidA, lastA, _, hlastA, midB, _, hmidB, lastB, _,
    hlastB, h⟩ := h
  obtain ⟨rfl, -⟩ := Prod.mk.inj (Option.some.inj h)
  have hmidA := (weightedDrawExcluding_notMem hmidA).1
  have hlastA := (weightedDrawExcluding_notMem hlastA).1
  have hmidB := (weightedDrawExcluding_notMem hmidB).1
  have hlastB := (weightedDrawExcluding_notMem hlastB).1
  simp only [List.cons_append, List.nil_append, List.mem_cons, not_or] at hmidA hlastA hmidB hlastB
  refine ⟨⟨?_, ?_⟩, pickEntry_mem hA, pickEntry_mem hB⟩
  · simp only [List.nodup_cons, List.mem_cons, not_or]
    grind
  · simp only [List.nodup_cons, List.mem_cons, not_or]
    grind

end
end AnonSecNet.NodePool
