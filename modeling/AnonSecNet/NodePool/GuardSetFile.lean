import AnonSecNet.Foundation.FileSystem
import AnonSecNet.Foundation.Machine
import AnonSecNet.NodePool.GuardSets

/-! A guard set file that several processes save and load at once, in steps of the file system:
`save_guard_set` and `load_guard_set` of `node_pool.c`. -/
namespace AnonSecNet.NodePool
open FileSystem Machine

abbrev FilePath : Type := List UInt8

/-- `"%s.tmp.%d"` with the process's own id. -/
def tmpPath (path : FilePath) (pid : Nat) : FilePath :=
  path ++ (labelBytes ".tmp." ++ digitBytes pid)

/-- A process within `save_guard_set`: what of the text is still in the buffer of `fp`, or what
comes next once `fclose` has returned. -/
inductive Saver where
  | idle
  | writing (guards : GuardSet) (file : Nat) (buffered : List UInt8)
  | closed (guards : GuardSet)
  | failing

/-- A process within `load_guard_set`, with what it has read so far. `since` counts the saves that
were in place when it opened the file. -/
inductive Loader where
  | idle
  | reading (file : Nat) (got : List UInt8) (since : Nat)

structure Load where
  since : Nat
  result : Option GuardSet

/-- `saves` are the sets of the calls that returned 0, in the order of their `rename`. -/
structure GuardFile where
  disk : Disk FilePath UInt8
  saver : Nat → Saver
  loader : Nat → Loader
  saves : List GuardSet
  loads : List Load

def GuardFile.initial (disk : Disk FilePath UInt8) : GuardFile :=
  ⟨disk, fun _ => .idle, fun _ => .idle, [], []⟩

inductive GuardFileAct where
  | save (pid : Nat) (guards : GuardSet)
  | flush (pid n : Nat)
  /-- `fclose` can fail, and does while there is something in the buffer. -/
  | close (pid : Nat) (fails : Bool)
  | rename (pid : Nat) (fails : Bool)
  | remove (pid : Nat)
  | kill (pid : Nat)
  | load (reader : Nat)
  | read (reader n : Nat)
  | finish (reader : Nat)

section
variable (path : FilePath)

namespace GuardFile

def setSaver (s : GuardFile) (pid : Nat) (disk : Disk FilePath UInt8) (saver : Saver) : GuardFile :=
  { s with disk, saver := Function.update s.saver pid saver }

def setLoader (s : GuardFile) (reader : Nat) (loader : Loader) : GuardFile :=
  { s with loader := Function.update s.loader reader loader }

def save (s : GuardFile) (pid : Nat) (guards : GuardSet) : GuardFile :=
  if (tmpPath path pid).length < 512 then
    let (disk, file) := s.disk.openWrite (tmpPath path pid)
    s.setSaver pid disk (.writing guards file (guardSetText guards))
  else s

/-- The file gets its name: the save is in place. -/
def rename (s : GuardFile) (pid : Nat) (guards : GuardSet) : GuardFile :=
  { s.setSaver pid (s.disk.rename (tmpPath path pid) path) .idle with
    saves := s.saves ++ [guards] }

def load (s : GuardFile) (reader : Nat) : GuardFile :=
  match s.disk.entry path with
  | some file => s.setLoader reader (.reading file [] s.saves.length)
  | none => { s with loads := s.loads ++ [⟨s.saves.length, none⟩] }

def finish (s : GuardFile) (reader : Nat) (got : List UInt8) (since : Nat) : GuardFile :=
  { s.setLoader reader .idle with loads := s.loads ++ [⟨since, loadGuardSet (some got)⟩] }

end GuardFile

/-- A step of one process. -/
def guardFileStep (s : GuardFile) : GuardFileAct → GuardFile
  | .save pid guards =>
    match s.saver pid with
    | .idle => s.save path pid guards
    | _ => s
  | .flush pid n =>
    match s.saver pid with
    | .writing guards file buffered =>
      s.setSaver pid (s.disk.append file (buffered.take n)) (.writing guards file (buffered.drop n))
    | _ => s
  | .close pid fails =>
    match s.saver pid with
    | .writing guards _ buffered =>
      s.setSaver pid s.disk (if fails ∨ buffered ≠ [] then .failing else .closed guards)
    | _ => s
  | .rename pid fails =>
    match s.saver pid with
    | .closed guards => if fails then s.setSaver pid s.disk .failing else s.rename path pid guards
    | _ => s
  | .remove pid =>
    match s.saver pid with
    | .failing => s.setSaver pid (s.disk.remove (tmpPath path pid)) .idle
    | _ => s
  | .kill pid => s.setSaver pid s.disk .idle
  | .load reader =>
    match s.loader reader with
    | .idle => s.load path reader
    | _ => s
  | .read reader n =>
    match s.loader reader with
    | .reading file got since =>
      s.setLoader reader
        (.reading file (got ++ ((s.disk.data file).drop got.length).take n) since)
    | _ => s
  | .finish reader =>
    match s.loader reader with
    | .reading file got since =>
      if (s.disk.data file).length ≤ got.length then s.finish reader got since else s
    | _ => s

end

/-! Temporary names. -/

theorem tmpPath_ne (path : FilePath) (pid : Nat) : tmpPath path pid ≠ path := by
  intro h
  have hlen := congrArg List.length h
  unfold tmpPath labelBytes at hlen
  simp only [List.length_append, List.length_map] at hlen
  have hpos : 0 < ".tmp.".toList.length := by decide
  omega

theorem tmpPath_injective (path : FilePath) : Function.Injective (tmpPath path) := by
  intro p q h
  have hdigits := List.append_cancel_left (List.append_cancel_left h)
  rw [← digitsValue_digitBytes p, hdigits, digitsValue_digitBytes]

/-! What the file holds. -/

/-- The file's content as the saves so far have left it. -/
def placed (init : Option (List UInt8)) (saves : List GuardSet) : Option (List UInt8) :=
  match saves.getLast? with
  | none => init
  | some guards => some (guardSetText guards)

theorem placed_concat (init : Option (List UInt8)) (saves : List GuardSet) (guards : GuardSet) :
    placed init (saves ++ [guards]) = some (guardSetText guards) := by
  unfold placed
  rw [List.getLast?_concat]

section
variable {path : FilePath} {init : Option (List UInt8)}

/-- The temporary file and the buffer make up the text. -/
def SaverHolds (path : FilePath) (d : Disk FilePath UInt8) (pid : Nat) : Saver → Prop
  | .idle => True
  | .writing guards file buffered =>
    d.entry (tmpPath path pid) = some file ∧ d.data file ++ buffered = guardSetText guards
  | .closed guards => d.content (tmpPath path pid) = some (guardSetText guards)
  | .failing => True

/-- The open file is not a temporary one, so that nobody writes to it, and it is the one that was
in place. -/
def LoaderHolds (path : FilePath) (init : Option (List UInt8)) (d : Disk FilePath UInt8)
    (saves : List GuardSet) : Loader → Prop
  | .idle => True
  | .reading file got since =>
    file < d.next ∧ (∀ pid, d.entry (tmpPath path pid) ≠ some file) ∧ got <+: d.data file ∧
      since ≤ saves.length ∧ some (d.data file) = placed init (saves.take since)

def Load.Sound (init : Option (List UInt8)) (saves : List GuardSet) (load : Load) : Prop :=
  load.since ≤ saves.length ∧ load.result = loadGuardSet (placed init (saves.take load.since))

structure GuardFile.Sound (path : FilePath) (init : Option (List UInt8)) (s : GuardFile) :
    Prop where
  savers : ∀ pid, SaverHolds path s.disk pid (s.saver pid)
  loaders : ∀ reader, LoaderHolds path init s.disk s.saves (s.loader reader)
  content : s.disk.content path = placed init s.saves
  loads : ∀ load ∈ s.loads, load.Sound init s.saves

theorem SaverHolds.confined {d d' : Disk FilePath UInt8} {pid other : Nat} {saver : Saver}
    (h : SaverHolds path d other saver) (hd : d.Confined (tmpPath path pid) d')
    (hne : other ≠ pid) : SaverHolds path d' other saver := by
  have hname : tmpPath path other ≠ tmpPath path pid := fun heq => hne (tmpPath_injective path heq)
  cases saver with
  | idle => trivial
  | writing guards file buffered =>
    obtain ⟨hentry, hdata⟩ := h
    have hfile : d.entry (tmpPath path pid) ≠ some file :=
      fun hpid => hname (d.entry_inj _ _ file hentry hpid)
    refine ⟨(hd.entry _ hname).trans hentry, ?_⟩
    rw [(hd.data file (d.entry_lt _ file hentry) hfile).1]
    exact hdata
  | closed guards => exact (hd.content hname).trans h
  | failing => trivial

theorem LoaderHolds.confined {d d' : Disk FilePath UInt8} {saves : List GuardSet} {pid : Nat}
    {loader : Loader} (h : LoaderHolds path init d saves loader)
    (hd : d.Confined (tmpPath path pid) d') : LoaderHolds path init d' saves loader := by
  cases loader with
  | idle => trivial
  | reading file got since =>
    obtain ⟨hlt, hfree, hgot, hsince, hplaced⟩ := h
    obtain ⟨hdata, hname⟩ := hd.data file hlt (hfree pid)
    refine ⟨hlt.trans_le hd.next, ?_, hdata ▸ hgot, hsince, hdata ▸ hplaced⟩
    intro other
    by_cases heq : other = pid
    · rw [heq]
      exact hname
    · rw [hd.entry _ fun h => heq (tmpPath_injective path h)]
      exact hfree other

namespace GuardFile

/-- A process that keeps to its own temporary file. -/
theorem Sound.setSaver {s : GuardFile} (h : s.Sound path init) {pid : Nat}
    {disk : Disk FilePath UInt8} {saver : Saver}
    (hd : s.disk.Confined (tmpPath path pid) disk) (hsaver : SaverHolds path disk pid saver) :
    (s.setSaver pid disk saver).Sound path init where
  savers other := by
    change SaverHolds path disk other (Function.update s.saver pid saver other)
    by_cases hne : other = pid
    · rw [hne, Function.update_self]
      exact hsaver
    · rw [Function.update_of_ne hne]
      exact (h.savers other).confined hd hne
  loaders reader := (h.loaders reader).confined hd
  content := (hd.content (tmpPath_ne path pid).symm).trans h.content
  loads := h.loads

theorem Sound.setLoader {s : GuardFile} (h : s.Sound path init) {reader : Nat} {loader : Loader}
    (hloader : LoaderHolds path init s.disk s.saves loader) :
    (s.setLoader reader loader).Sound path init where
  savers := h.savers
  loaders other := by
    change LoaderHolds path init s.disk s.saves (Function.update s.loader reader loader other)
    by_cases hne : other = reader
    · rw [hne, Function.update_self]
      exact hloader
    · rw [Function.update_of_ne hne]
      exact h.loaders other
  content := h.content
  loads := h.loads

theorem Sound.addLoad {s : GuardFile} (h : s.Sound path init) {load : Load}
    (hload : load.Sound init s.saves) :
    ({ s with loads := s.loads ++ [load] } : GuardFile).Sound path init where
  savers := h.savers
  loaders := h.loaders
  content := h.content
  loads other hother := by
    cases List.mem_append.mp hother with
    | inl hold => exact h.loads other hold
    | inr hnew => exact List.mem_singleton.mp hnew ▸ hload

theorem Sound.save {s : GuardFile} (h : s.Sound path init) (pid : Nat) (guards : GuardSet) :
    (s.save path pid guards).Sound path init := by
  unfold GuardFile.save
  split
  · have hsaver : SaverHolds path (s.disk.openWrite (tmpPath path pid)).1 pid
        (.writing guards (s.disk.openWrite (tmpPath path pid)).2 (guardSetText guards)) := by
      refine ⟨Disk.openWrite_entry _ _, ?_⟩
      rw [Disk.openWrite_data, List.nil_append]
    exact h.setSaver (Disk.openWrite_confined _ _) hsaver
  · exact h

theorem placed_take (init : Option (List UInt8)) {saves : List GuardSet} {since : Nat}
    (h : since ≤ saves.length) (guards : GuardSet) :
    placed init ((saves ++ [guards]).take since) = placed init (saves.take since) := by
  rw [List.take_append_of_le_length h]

/-- A `rename` leaves the files that are open for reading alone: only their name is gone. -/
theorem Sound.rename {s : GuardFile} (h : s.Sound path init) {pid : Nat} {guards : GuardSet}
    (hclosed : s.saver pid = .closed guards) : (s.rename path pid guards).Sound path init := by
  have htmp : s.disk.content (tmpPath path pid) = some (guardSetText guards) := by
    have hpid := h.savers pid
    rw [hclosed] at hpid
    exact hpid
  obtain ⟨file, hfile, htext⟩ := Disk.entry_of_content htmp
  have hentry := Disk.rename_entry hfile path
  have hothers : ∀ other, other ≠ pid →
      (s.disk.rename (tmpPath path pid) path).entry (tmpPath path other) =
        s.disk.entry (tmpPath path other) := by
    intro other hne
    rw [hentry, Function.update_of_ne (tmpPath_ne path other),
      Function.update_of_ne fun heq => hne (tmpPath_injective path heq)]
  constructor
  · intro other
    change SaverHolds path (s.disk.rename (tmpPath path pid) path) other
      (Function.update s.saver pid .idle other)
    by_cases hne : other = pid
    · rw [hne, Function.update_self]
      trivial
    · rw [Function.update_of_ne hne]
      have hother := h.savers other
      cases hs : s.saver other with
      | idle => trivial
      | writing guards' file' buffered =>
        rw [hs] at hother
        refine ⟨(hothers other hne).trans hother.1, ?_⟩
        rw [Disk.rename_data]
        exact hother.2
      | closed guards' =>
        rw [hs] at hother
        change Option.map _ _ = _
        rw [hothers other hne, Disk.rename_data]
        exact hother
      | failing => trivial
  · intro reader
    change LoaderHolds path init (s.disk.rename (tmpPath path pid) path) (s.saves ++ [guards])
      (s.loader reader)
    have hreader := h.loaders reader
    cases hl : s.loader reader with
    | idle => trivial
    | reading file' got since =>
      rw [hl] at hreader
      obtain ⟨hlt, hfree, hgot, hsince, hplaced⟩ := hreader
      refine ⟨?_, ?_, ?_, ?_, ?_⟩
      · rw [Disk.rename_next]
        exact hlt
      · intro other
        by_cases hne : other = pid
        · rw [hentry, hne, Function.update_of_ne (tmpPath_ne path pid), Function.update_self]
          exact nofun
        · rw [hothers other hne]
          exact hfree other
      · rw [Disk.rename_data]
        exact hgot
      · rw [List.length_append]
        exact hsince.trans (Nat.le_add_right _ _)
      · rw [Disk.rename_data, placed_take init hsince]
        exact hplaced
  · change Option.map (s.disk.rename _ path).data ((s.disk.rename _ path).entry path) =
      placed init (s.saves ++ [guards])
    rw [hentry, Function.update_self, Disk.rename_data, placed_concat, Option.map_some, htext]
  · intro load hload
    obtain ⟨hsince, hresult⟩ := h.loads load hload
    refine ⟨?_, hresult.trans (congrArg _ (placed_take init hsince guards).symm)⟩
    change load.since ≤ (s.saves ++ [guards]).length
    rw [List.length_append]
    exact hsince.trans (Nat.le_add_right _ _)

theorem Sound.load {s : GuardFile} (h : s.Sound path init) (reader : Nat) :
    (s.load path reader).Sound path init := by
  have htake : placed init (s.saves.take s.saves.length) = s.disk.content path := by
    rw [List.take_length, h.content]
  unfold GuardFile.load
  cases hfile : s.disk.entry path with
  | none =>
    refine h.addLoad ⟨Nat.le_refl _, ?_⟩
    dsimp only
    rw [htake, Disk.content, hfile]
    rfl
  | some file =>
    refine h.setLoader ⟨s.disk.entry_lt path file hfile, ?_, List.nil_prefix, Nat.le_refl _, ?_⟩
    · intro pid hpid
      exact tmpPath_ne path pid (s.disk.entry_inj _ _ file hpid hfile)
    · rw [htake, Disk.content_eq hfile]

end GuardFile

theorem guardFileStep_sound {s : GuardFile} (h : s.Sound path init) (a : GuardFileAct) :
    (guardFileStep path s a).Sound path init := by
  cases a with
  | save pid guards =>
    dsimp only [guardFileStep]
    split
    · exact h.save pid guards
    · exact h
  | flush pid n =>
    dsimp only [guardFileStep]
    split
    · rename_i guards file buffered hsaver
      have hpid := h.savers pid
      rw [hsaver] at hpid
      refine h.setSaver (Disk.append_confined hpid.1 _) ⟨hpid.1, ?_⟩
      rw [Disk.append_data, List.append_assoc, List.take_append_drop]
      exact hpid.2
    · exact h
  | close pid fails =>
    dsimp only [guardFileStep]
    split
    · rename_i guards file buffered hsaver
      have hpid := h.savers pid
      rw [hsaver] at hpid
      refine h.setSaver (Disk.Confined.refl _ _) ?_
      split
      · trivial
      · rename_i hok
        have hempty : buffered = [] := by
          by_contra hne
          exact hok (.inr hne)
        change s.disk.content _ = _
        rw [Disk.content_eq hpid.1, ← hpid.2, hempty, List.append_nil]
    · exact h
  | rename pid fails =>
    dsimp only [guardFileStep]
    split
    · rename_i guards hsaver
      split
      · exact h.setSaver (Disk.Confined.refl _ _) trivial
      · exact h.rename hsaver
    · exact h
  | remove pid =>
    dsimp only [guardFileStep]
    split
    · exact h.setSaver (Disk.remove_confined _ _) trivial
    · exact h
  | kill pid => exact h.setSaver (Disk.Confined.refl _ _) trivial
  | load reader =>
    dsimp only [guardFileStep]
    split
    · exact h.load reader
    · exact h
  | read reader n =>
    dsimp only [guardFileStep]
    split
    · rename_i file got since hloader
      have hreader := h.loaders reader
      rw [hloader] at hreader
      obtain ⟨hlt, hfree, hgot, hsince, hplaced⟩ := hreader
      refine h.setLoader ⟨hlt, hfree, ?_, hsince, hplaced⟩
      obtain ⟨rest, hrest⟩ := hgot
      rw [← hrest, List.drop_left]
      exact List.prefix_append_right_inj got |>.mpr (List.take_prefix n rest)
    · exact h
  | finish reader =>
    dsimp only [guardFileStep]
    split
    · rename_i file got since hloader
      have hreader := h.loaders reader
      rw [hloader] at hreader
      obtain ⟨-, -, hgot, hsince, hplaced⟩ := hreader
      split
      · rename_i hend
        have hwhole : got = s.disk.data file := hgot.eq_of_length_le hend
        have hidle : (s.setLoader reader .idle).Sound path init := h.setLoader trivial
        refine hidle.addLoad ⟨hsince, ?_⟩
        dsimp only
        rw [hwhole]
        exact congrArg _ hplaced
      · exact h
    · exact h

theorem initial_sound (path : FilePath) (disk : Disk FilePath UInt8) :
    (GuardFile.initial disk).Sound path (disk.content path) where
  savers _ := trivial
  loaders _ := trivial
  content := rfl
  loads _ hload := absurd hload List.not_mem_nil

/-- However the processes' steps are mixed and wherever one is killed, the file is at any time what
it was at first or the whole text of the last save, and a load returns the set that was in place
when it opened the file. -/
theorem guard_file_atomic (path : FilePath) (disk : Disk FilePath UInt8) (as : List GuardFileAct) :
    let s := run (guardFileStep path) as (GuardFile.initial disk)
    s.disk.content path = placed (disk.content path) s.saves ∧
      ∀ load ∈ s.loads, load.since ≤ s.saves.length ∧
        load.result = loadGuardSet (placed (disk.content path) (s.saves.take load.since)) ∧
        ∀ guards, (s.saves.take load.since).getLast? = some guards → guards.1 ≠ [] →
          load.result = some guards := by
  intro s
  have h : s.Sound path (disk.content path) := run_keeps (guardFileStep path)
    (GuardFile.Sound path (disk.content path)) (fun _ a hs => guardFileStep_sound hs a) as
    (initial_sound path disk)
  refine ⟨h.content, ?_⟩
  intro load hload
  obtain ⟨hsince, hresult⟩ := h.loads load hload
  refine ⟨hsince, hresult, ?_⟩
  intro guards hlast hne
  rw [hresult, placed, hlast]
  exact loadGuardSet_guardSetText hne

end

end AnonSecNet.NodePool
