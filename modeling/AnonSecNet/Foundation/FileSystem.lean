import Mathlib.Data.List.Infix
import Mathlib.Logic.Function.Basic

/-! Names and the files they stand for: a name can be given to another file while the one it
stood for is still open. -/
namespace FileSystem
variable {N β : Type*}

/-- `data` also keeps what is in a file that has lost its name. No file has two names. -/
structure Disk (N β : Type*) where
  entry : N → Option Nat
  data : Nat → List β
  next : Nat
  entry_lt : ∀ name i, entry name = some i → i < next
  entry_inj : ∀ name other i, entry name = some i → entry other = some i → name = other

namespace Disk

def empty : Disk N β where
  entry _ := none
  data _ := []
  next := 0
  entry_lt _ _ h := by cases h
  entry_inj _ _ _ h := by cases h

def content (d : Disk N β) (name : N) : Option (List β) := (d.entry name).map d.data

def write (d : Disk N β) (file : Nat) (bytes : List β) : Disk N β :=
  { d with data := Function.update d.data file bytes }

/-- What is written behind the bytes already in the file. -/
def append (d : Disk N β) (file : Nat) (bytes : List β) : Disk N β :=
  d.write file (d.data file ++ bytes)

/-- A new file that has no name yet. -/
def grow (d : Disk N β) : Disk N β where
  entry := d.entry
  data := Function.update d.data d.next []
  next := d.next + 1
  entry_lt name i h := (d.entry_lt name i h).trans (Nat.lt_succ_self _)
  entry_inj := d.entry_inj

theorem content_eq {d : Disk N β} {name : N} {file : Nat} (h : d.entry name = some file) :
    d.content name = some (d.data file) := by
  unfold content
  rw [h, Option.map_some]

theorem append_data (d : Disk N β) (file : Nat) (bytes : List β) :
    (d.append file bytes).data file = d.data file ++ bytes := Function.update_self _ _ _

theorem grow_free (d : Disk N β) (name : N) : d.grow.entry name ≠ some d.next :=
  fun h => (d.entry_lt name d.next h).ne rfl

variable [DecidableEq N]

def remove (d : Disk N β) (name : N) : Disk N β where
  entry := Function.update d.entry name none
  data := d.data
  next := d.next
  entry_lt := by
    intro other i hi
    by_cases h : other = name
    · rw [h, Function.update_self] at hi
      cases hi
    · rw [Function.update_of_ne h] at hi
      exact d.entry_lt other i hi
  entry_inj := by
    intro a b i ha hb
    by_cases h : a = name
    · rw [h, Function.update_self] at ha
      cases ha
    · by_cases h' : b = name
      · rw [h', Function.update_self] at hb
        cases hb
      · rw [Function.update_of_ne h] at ha
        rw [Function.update_of_ne h'] at hb
        exact d.entry_inj a b i ha hb

/-- A name for a file that has none. -/
def link (d : Disk N β) (name : N) (file : Nat) (hlt : file < d.next)
    (hfree : ∀ other, d.entry other ≠ some file) : Disk N β where
  entry := Function.update d.entry name (some file)
  data := d.data
  next := d.next
  entry_lt := by
    intro other i hi
    by_cases h : other = name
    · rw [h, Function.update_self] at hi
      exact Option.some.inj hi ▸ hlt
    · rw [Function.update_of_ne h] at hi
      exact d.entry_lt other i hi
  entry_inj := by
    intro a b i ha hb
    by_cases h : a = name
    · by_cases h' : b = name
      · rw [h, h']
      · rw [h, Function.update_self] at ha
        rw [Function.update_of_ne h', ← ha] at hb
        exact absurd hb (hfree b)
    · rw [Function.update_of_ne h] at ha
      by_cases h' : b = name
      · rw [h', Function.update_self] at hb
        rw [← hb] at ha
        exact absurd ha (hfree a)
      · rw [Function.update_of_ne h'] at hb
        exact d.entry_inj a b i ha hb

theorem remove_free {d : Disk N β} {name : N} {file : Nat} (h : d.entry name = some file)
    (other : N) : (d.remove name).entry other ≠ some file := by
  change Function.update d.entry name none other ≠ _
  by_cases hn : other = name
  · rw [hn, Function.update_self]
    exact nofun
  · rw [Function.update_of_ne hn]
    exact fun hother => hn (d.entry_inj other name file hother h)

def create (d : Disk N β) (name : N) : Disk N β :=
  d.grow.link name d.next (Nat.lt_succ_self _) d.grow_free

/-- `fopen` with `"w"`: a file that is there is emptied. -/
def openWrite (d : Disk N β) (name : N) : Disk N β × Nat :=
  match d.entry name with
  | some file => (d.write file [], file)
  | none => (d.create name, d.next)

/-- `open` with `O_CREAT | O_EXCL`. -/
def openExclusive (d : Disk N β) (name : N) : Option (Disk N β × Nat) :=
  match d.entry name with
  | some _ => none
  | none => some (d.create name, d.next)

/-- The file of `name` gets the name `target`, and the file that had it loses it. -/
def rename (d : Disk N β) (name target : N) : Disk N β :=
  match h : d.entry name with
  | none => d
  | some file => (d.remove name).link target file (d.entry_lt name file h) (remove_free h)

/-- Nothing has been done but to the file of `name`, or to the name itself. -/
structure Confined (name : N) (d d' : Disk N β) : Prop where
  entry : ∀ other, other ≠ name → d'.entry other = d.entry other
  data : ∀ i, i < d.next → d.entry name ≠ some i → d'.data i = d.data i ∧ d'.entry name ≠ some i
  next : d.next ≤ d'.next

omit [DecidableEq N] in
theorem Confined.content {name other : N} {d d' : Disk N β} (h : Confined name d d')
    (hne : other ≠ name) : d'.content other = d.content other := by
  unfold Disk.content
  rw [h.entry other hne]
  cases hfile : d.entry other with
  | none => rfl
  | some i =>
    have hother : d.entry name ≠ some i := fun hi => hne (d.entry_inj other name i hfile hi)
    rw [Option.map_some, Option.map_some, (h.data i (d.entry_lt other i hfile) hother).1]

omit [DecidableEq N] in
theorem Confined.refl (name : N) (d : Disk N β) : Confined name d d where
  entry _ _ := rfl
  data _ _ hi := ⟨rfl, hi⟩
  next := Nat.le_refl _

omit [DecidableEq N] in
theorem append_confined {d : Disk N β} {name : N} {file : Nat} (h : d.entry name = some file)
    (bytes : List β) : Confined name d (d.append file bytes) where
  entry _ _ := rfl
  data i _ hi := by
    have hne : i ≠ file := fun heq => hi (heq ▸ h)
    exact ⟨Function.update_of_ne hne _ _, hi⟩
  next := Nat.le_refl _

theorem remove_confined (d : Disk N β) (name : N) : Confined name d (d.remove name) where
  entry _ hne := Function.update_of_ne hne _ _
  data i _ _ := by
    refine ⟨rfl, ?_⟩
    change Function.update d.entry name none name ≠ _
    rw [Function.update_self]
    exact nofun
  next := Nat.le_refl _

theorem create_confined (d : Disk N β) (name : N) : Confined name d (d.create name) where
  entry _ hne := Function.update_of_ne hne _ _
  data i hi _ := by
    refine ⟨Function.update_of_ne hi.ne _ _, ?_⟩
    change Function.update d.entry name (some d.next) name ≠ _
    rw [Function.update_self]
    intro heq
    exact hi.ne (Option.some.inj heq).symm
  next := Nat.le_succ _

theorem create_entry (d : Disk N β) (name : N) : (d.create name).entry name = some d.next :=
  Function.update_self _ _ _

theorem create_data (d : Disk N β) (name : N) : (d.create name).data d.next = [] :=
  Function.update_self _ _ _

theorem openWrite_confined (d : Disk N β) (name : N) : Confined name d (d.openWrite name).1 := by
  unfold openWrite
  split
  · rename_i file h
    exact
      { entry := fun _ _ => rfl
        data := by
          intro i _ hi
          have hne : i ≠ file := fun heq => hi (heq ▸ h)
          exact ⟨Function.update_of_ne hne _ _, hi⟩
        next := Nat.le_refl _ }
  · exact create_confined d name

theorem openWrite_entry (d : Disk N β) (name : N) :
    (d.openWrite name).1.entry name = some (d.openWrite name).2 := by
  unfold openWrite
  split
  · assumption
  · exact create_entry d name

theorem openWrite_data (d : Disk N β) (name : N) :
    (d.openWrite name).1.data (d.openWrite name).2 = [] := by
  unfold openWrite
  split
  · exact Function.update_self _ _ _
  · exact create_data d name

theorem rename_data (d : Disk N β) (name target : N) : (d.rename name target).data = d.data := by
  unfold rename
  split <;> rfl

theorem rename_next (d : Disk N β) (name target : N) : (d.rename name target).next = d.next := by
  unfold rename
  split <;> rfl

omit [DecidableEq N] in
theorem entry_of_content {d : Disk N β} {name : N} {bytes : List β}
    (h : d.content name = some bytes) : ∃ file, d.entry name = some file ∧ d.data file = bytes :=
  Option.map_eq_some_iff.mp h

theorem rename_entry {d : Disk N β} {name : N} {file : Nat} (h : d.entry name = some file)
    (target : N) : (d.rename name target).entry =
      Function.update (Function.update d.entry name none) target (some file) := by
  unfold rename
  split
  · rename_i hnone
    rw [h] at hnone
    cases hnone
  · rename_i other hother
    rw [h] at hother
    rw [Option.some.inj hother]
    rfl

end Disk

end FileSystem
