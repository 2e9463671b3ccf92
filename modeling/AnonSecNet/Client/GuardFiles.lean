import AnonSecNet.Client.Paths
import AnonSecNet.Foundation.Machine
import AnonSecNet.NodePool.GuardSets

/-! The file of a guard set from one run of the client to the next. -/
namespace AnonSecNet.Client
open NodePool

/-- A call of `guard_set_load_or_create`, by any process that opens the same path. -/
structure GuardCall (F : Doubles) where
  weight : Node → F.D
  guardSize : Nat
  exclude : List Node
  saves : Bool
  rng : UInt64

variable {F : Doubles} {weight : Node → F.D}

def GuardCall.outcome (c : GuardCall F) (file : Option (List UInt8)) : Option Guarded :=
  guardSetLoadOrCreate F c.weight file c.guardSize c.exclude c.saves c.rng

/-- A call that fails leaves the file as it was. -/
def GuardCall.after (file : Option (List UInt8)) (c : GuardCall F) : Option (List UInt8) :=
  ((c.outcome file).map Guarded.file).getD file

theorem GuardCall.outcome_of_load (c : GuardCall F) {file : Option (List UInt8)}
    {guards : GuardSet} (h : loadGuardSet file = some guards) :
    c.outcome file = some ⟨guards, file, c.rng⟩ := by
  unfold GuardCall.outcome guardSetLoadOrCreate
  rw [h]

theorem GuardCall.after_of_load (c : GuardCall F) {file : Option (List UInt8)}
    {guards : GuardSet} (h : loadGuardSet file = some guards) : c.after file = file := by
  unfold GuardCall.after
  rw [c.outcome_of_load h]
  rfl

/-- A file that holds a set is never written again. -/
theorem run_of_load {file : Option (List UInt8)} {guards : GuardSet}
    (h : loadGuardSet file = some guards) (calls : List (GuardCall F)) :
    Machine.run GuardCall.after calls file = file := by
  induction calls with
  | nil => rfl
  | cons c calls ih =>
    change Machine.run GuardCall.after calls (c.after file) = file
    rw [c.after_of_load h]
    exact ih

/-- A set that was drawn and saved is the one every later call returns, and a set is only ever
read from a file with a valid size and valid ids. -/
theorem guardSet_persists {file : Option (List UInt8)} {guardSize : Nat} {exclude : List Node}
    {saves : Bool} {rng : UInt64} {g : Guarded} (hsize : 1 ≤ guardSize ∧ guardSize ≤ guardSetSize)
    (hdraws : loadGuardSet file = none)
    (h : guardSetLoadOrCreate F weight file guardSize exclude saves rng = some g) :
    (g.guards.1.length = guardSize ∧ g.guards.1.Nodup ∧
      ∀ node ∈ g.guards.1, node.val < poolSize ∧ node ∉ exclude) ∧
    (∀ (calls : List (GuardCall F)) (c : GuardCall F),
      c.outcome (Machine.run GuardCall.after calls g.file) = some ⟨g.guards, g.file, c.rng⟩) ∧
    ∀ text guards, loadGuardSet (some text) = some guards →
      ∃ count rest ids, scanInt text = some (count, rest) ∧
        (1 ≤ count ∧ count ≤ guardSetSize) ∧ scanInts count.toNat rest = some ids ∧
        (∀ id ∈ ids, 0 ≤ id ∧ id < poolSize) ∧
        guards.1.length = count ∧ (guards.1.map fun node => (node.val : Int)) = ids := by
  cases guardSetLoadOrCreate_cases h with
  | inl hload => cases hdraws.symm.trans hload
  | inr hdrawn =>
    obtain ⟨-, hlen, hnodup, hapart, hfile⟩ := hdrawn
    rw [min_eq_left hsize.2] at hlen
    have hload : loadGuardSet g.file = some g.guards := by
      rw [hfile]
      exact loadGuardSet_guardSetText (List.ne_nil_of_length_pos (by omega))
    refine ⟨⟨hlen, hnodup, fun node hnode => ⟨node.isLt, hapart node hnode⟩⟩, ?_, ?_⟩
    · intro calls c
      rw [run_of_load hload calls]
      exact c.outcome_of_load hload
    · intro text guards htext
      exact scan_of_loadGuardSet htext

/-! A first run, with the guards of path A excluded. -/

def firstGuarded : Option Guarded :=
  guardSetLoadOrCreate sampleDoubles (fun _ => (1 : ℚ)) none 2 sampleGuardsA.1 true 100

set_option maxRecDepth 100000 in
theorem firstGuarded_isSome : firstGuarded.isSome = true := by
  decide +kernel

theorem guardSet_persists_first :
    ∃ g, firstGuarded = some g ∧ loadGuardSet none = none ∧
      (g.guards.1.length = 2 ∧ g.guards.1.Nodup ∧
        ∀ node ∈ g.guards.1, node.val < poolSize ∧ node ∉ sampleGuardsA.1) ∧
      (∀ (calls : List (GuardCall sampleDoubles)) (c : GuardCall sampleDoubles),
        c.outcome (Machine.run GuardCall.after calls g.file)
          = some ⟨g.guards, g.file, c.rng⟩) := by
  obtain ⟨g, hg⟩ := Option.isSome_iff_exists.mp firstGuarded_isSome
  have h := guardSet_persists (by decide) rfl hg
  exact ⟨g, hg, rfl, h.1, h.2.1⟩

end AnonSecNet.Client
