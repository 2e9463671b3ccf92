import AnonSecNet.Foundation.FileSystem
import AnonSecNet.Identity.PinFiles

/-! The file of an identity key, which a process loads or creates when it starts:
`crypto_identity_load_or_create` of `crypto.c` in steps of the file system, in any number of
processes that may start at once or one after another. -/
namespace AnonSecNet.Identity
open FileSystem Machine

/-- `PEM_write_PrivateKey` and `PEM_read_PrivateKey`. -/
structure Pem (Key : Type*) where
  write : Key → List UInt8
  read : List UInt8 → Option Key

/-- Where a call is: it reads the file, or has found none, or has a new key, or writes that key;
`returned none` is -1, and also a process that is gone. -/
inductive Caller (Key : Type*) where
  | start
  | reading (file : Nat) (got : List UInt8)
  | absent
  | keyed (key : Key)
  | writing (key : Key) (file : Nat) (buffered : List UInt8)
  | returned (result : Option Key)
deriving DecidableEq

inductive IdentityAct (Key : Type*) where
  /-- It can also fail when the file is there. -/
  | fopen (call : Nat) (fails : Bool)
  | read (call n : Nat)
  /-- At the end of the file; `exports` is `EVP_PKEY_get_octet_string_param`. -/
  | load (call : Nat) (exports : Bool)
  | keygen (call : Nat) (key : Option Key)
  | create (call : Nat) (opens fdopens : Bool)
  | flush (call n : Nat)
  /-- What `PEM_write_PrivateKey` has returned. `fclose` may have lost the rest of the text. -/
  | close (call : Nat) (ok : Bool)
  | kill (call : Nat)

structure IdentityFile (Key : Type*) where
  disk : Disk FilePath UInt8
  caller : Nat → Caller Key

variable {Key : Type*}

def IdentityFile.initial (disk : Disk FilePath UInt8) : IdentityFile Key := ⟨disk, fun _ => .start⟩

def IdentityFile.set (s : IdentityFile Key) (call : Nat) (disk : Disk FilePath UInt8)
    (caller : Caller Key) : IdentityFile Key :=
  ⟨disk, Function.update s.caller call caller⟩

section
variable (pem : Pem Key) (path : FilePath)

/-- A step of one call of `crypto_identity_load_or_create`. -/
def identityStep (s : IdentityFile Key) : IdentityAct Key → IdentityFile Key
  | .fopen call fails =>
    match s.caller call, s.disk.entry path with
    | .start, some file =>
      s.set call s.disk (if fails then .absent else .reading file [])
    | .start, none => s.set call s.disk .absent
    | _, _ => s
  | .read call n =>
    match s.caller call with
    | .reading file got =>
      s.set call s.disk (.reading file (got ++ ((s.disk.data file).drop got.length).take n))
    | _ => s
  | .load call exports =>
    match s.caller call with
    | .reading file got =>
      if (s.disk.data file).length ≤ got.length then
        s.set call s.disk (.returned (if exports then pem.read got else none))
      else s
    | _ => s
  | .keygen call key =>
    match s.caller call, key with
    | .absent, some key => s.set call s.disk (.keyed key)
    | .absent, none => s.set call s.disk (.returned none)
    | _, _ => s
  | .create call opens fdopens =>
    match s.caller call with
    | .keyed key =>
      match s.disk.openExclusive path, opens with
      | some (disk, file), true =>
        s.set call disk (if fdopens then .writing key file (pem.write key) else .returned none)
      | _, _ => s.set call s.disk (.returned none)
    | _ => s
  | .flush call n =>
    match s.caller call with
    | .writing key file buffered =>
      s.set call (s.disk.append file (buffered.take n)) (.writing key file (buffered.drop n))
    | _ => s
  | .close call ok =>
    match s.caller call with
    | .writing key _ _ => s.set call s.disk (.returned (if ok then some key else none))
    | _ => s
  | .kill call => s.set call s.disk (.returned none)

end

/-! One file, and at most one call that writes it. -/

def Caller.Writing : Caller Key → Prop
  | .writing _ _ _ => True
  | _ => False

/-- A call that has nothing of the file and no result. -/
def Caller.Fresh : Caller Key → Prop
  | .start => True
  | .absent => True
  | .keyed _ => True
  | .returned none => True
  | _ => False

/-- `file` is to hold `text`, and `chosen` is the only key that can come of it. -/
def Caller.Holds (d : Disk FilePath UInt8) (file : Nat) (text : List UInt8) (chosen : Option Key) :
    Caller Key → Prop
  | .reading f got => f = file ∧ got <+: d.data file
  | .writing key f buffered => f = file ∧ chosen = some key ∧ d.data file ++ buffered = text
  | .returned (some key) => chosen = some key
  | _ => True

/-- From `base` on, a file on its way to `text` is read as `chosen` or not at all. -/
def Reads (pem : Pem Key) (base text : List UInt8) (chosen : Option Key) : Prop :=
  ∀ bytes key, base <+: bytes → bytes <+: text → pem.read bytes = some key → chosen = some key

structure Chosen (pem : Pem Key) (path : FilePath) (s : IdentityFile Key) (file : Nat)
    (base text : List UInt8) (chosen : Option Key) : Prop where
  entry : s.disk.entry path = some file
  kept : base <+: s.disk.data file
  held : s.disk.data file <+: text
  reads : Reads pem base text chosen
  callers : ∀ call, (s.caller call).Holds s.disk file text chosen
  alone : ∀ a b, (s.caller a).Writing → (s.caller b).Writing → a = b

theorem Caller.Fresh.holds {c : Caller Key} (h : c.Fresh) (d : Disk FilePath UInt8) (file : Nat)
    (text : List UInt8) (chosen : Option Key) : c.Holds d file text chosen := by
  cases c with
  | start => trivial
  | reading file got => cases h
  | absent => trivial
  | keyed key => trivial
  | writing key file buffered => cases h
  | returned result =>
    cases result with
    | none => trivial
    | some key => cases h

theorem Caller.Fresh.not_writing {c : Caller Key} (h : c.Fresh) : ¬ c.Writing := by
  cases c with
  | writing key file buffered => cases h
  | start => exact id
  | reading file got => exact id
  | absent => exact id
  | keyed key => exact id
  | returned result => exact id

section
variable {pem : Pem Key} {path : FilePath} {s : IdentityFile Key} {file : Nat}
  {base text : List UInt8} {chosen : Option Key}

/-- A call that does not write goes on, and the file stays as it is. -/
theorem Chosen.set (h : Chosen pem path s file base text chosen) {call : Nat} {c : Caller Key}
    (hc : c.Holds s.disk file text chosen) (hwrites : c.Writing → (s.caller call).Writing) :
    Chosen pem path (s.set call s.disk c) file base text chosen where
  entry := h.entry
  kept := h.kept
  held := h.held
  reads := h.reads
  callers other := by
    change (Function.update s.caller call c other).Holds s.disk file text chosen
    by_cases hne : other = call
    · rw [hne, Function.update_self]
      exact hc
    · rw [Function.update_of_ne hne]
      exact h.callers other
  alone := by
    have hback : ∀ a, (Function.update s.caller call c a).Writing → (s.caller a).Writing := by
      intro a ha
      by_cases hne : a = call
      · rw [hne] at ha ⊢
        rw [Function.update_self] at ha
        exact hwrites ha
      · rw [Function.update_of_ne hne] at ha
        exact ha
    intro a b ha hb
    exact h.alone a b (hback a ha) (hback b hb)

theorem Chosen.flush (h : Chosen pem path s file base text chosen) {call f : Nat} {key : Key}
    {buffered : List UInt8} (hcall : s.caller call = .writing key f buffered) (n : Nat) :
    Chosen pem path (s.set call (s.disk.append f (buffered.take n))
      (.writing key f (buffered.drop n))) file base text chosen := by
  have hholds := h.callers call
  rw [hcall] at hholds
  obtain ⟨rfl, hkey, htext⟩ := hholds
  have hdata := Disk.append_data s.disk f (buffered.take n)
  have hgrown : s.disk.data f <+: (s.disk.append f (buffered.take n)).data f := by
    rw [hdata]
    exact List.prefix_append _ _
  have hwhole : (s.disk.append f (buffered.take n)).data f ++ buffered.drop n = text := by
    rw [hdata, List.append_assoc, List.take_append_drop]
    exact htext
  have hwriting : (s.caller call).Writing := by
    rw [hcall]
    trivial
  constructor
  · exact h.entry
  · exact h.kept.trans hgrown
  · exact ⟨_, hwhole⟩
  · exact h.reads
  · intro other
    change (Function.update s.caller call _ other).Holds (s.disk.append f _) f text chosen
    by_cases hne : other = call
    · rw [hne, Function.update_self]
      exact ⟨rfl, hkey, hwhole⟩
    · rw [Function.update_of_ne hne]
      have hother := h.callers other
      cases hc : s.caller other with
      | reading f' got =>
        rw [hc] at hother
        exact ⟨hother.1, hother.2.trans hgrown⟩
      | writing key' f' buffered' =>
        have hother : (s.caller other).Writing := by
          rw [hc]
          trivial
        exact absurd (h.alone other call hother hwriting) hne
      | returned result =>
        rw [hc] at hother
        cases result with
        | none => trivial
        | some key' => exact hother
      | start => trivial
      | absent => trivial
      | keyed key' => trivial
  · have hback : ∀ a, (Function.update s.caller call (.writing key f (buffered.drop n)) a).Writing →
        (s.caller a).Writing := by
      intro a ha
      by_cases hne : a = call
      · rw [hne]
        exact hwriting
      · rw [Function.update_of_ne hne] at ha
        exact ha
    intro a b ha hb
    exact h.alone a b (hback a ha) (hback b hb)

theorem identityStep_chosen (h : Chosen pem path s file base text chosen) (a : IdentityAct Key) :
    Chosen pem path (identityStep pem path s a) file base text chosen := by
  cases a with
  | fopen call fails =>
    dsimp only [identityStep]
    split
    · rename_i f hcall hentry
      obtain rfl := Option.some.inj (hentry.symm.trans h.entry)
      split
      · exact h.set trivial nofun
      · exact h.set ⟨rfl, List.nil_prefix⟩ nofun
    · exact h.set trivial nofun
    · exact h
  | read call n =>
    dsimp only [identityStep]
    split
    · rename_i f got hcall
      have hholds := h.callers call
      rw [hcall] at hholds
      obtain ⟨rfl, rest, hrest⟩ := hholds
      refine h.set ⟨rfl, ?_⟩ nofun
      rw [← hrest, List.drop_left]
      exact (List.prefix_append_right_inj got).mpr (List.take_prefix n rest)
    · exact h
  | load call exports =>
    dsimp only [identityStep]
    split
    · rename_i f got hcall
      have hholds := h.callers call
      rw [hcall] at hholds
      obtain ⟨rfl, hgot⟩ := hholds
      split
      · rename_i hend
        have hwhole : got = s.disk.data f := hgot.eq_of_length_le hend
        cases exports with
        | false => exact h.set trivial nofun
        | true =>
          cases hread : pem.read got with
          | none => exact h.set trivial nofun
          | some key =>
            refine h.set (h.reads got key ?_ ?_ hread) nofun
            · rw [hwhole]
              exact h.kept
            · rw [hwhole]
              exact h.held
      · exact h
    · exact h
  | keygen call key =>
    dsimp only [identityStep]
    split
    · exact h.set trivial nofun
    · exact h.set trivial nofun
    · exact h
  | create call opens fdopens =>
    have hexists : s.disk.openExclusive path = none := by
      unfold Disk.openExclusive
      rw [h.entry]
    dsimp only [identityStep]
    rw [hexists]
    split
    · exact h.set trivial nofun
    · exact h
  | flush call n =>
    dsimp only [identityStep]
    split
    · rename_i key f buffered hcall
      exact h.flush hcall n
    · exact h
  | close call ok =>
    dsimp only [identityStep]
    split
    · rename_i key f buffered hcall
      have hholds := h.callers call
      rw [hcall] at hholds
      cases ok with
      | false => exact h.set trivial nofun
      | true => exact h.set hholds.2.1 nofun
    · exact h
  | kill call => exact h.set trivial nofun

/-! Before there is a file. -/

structure Unborn (path : FilePath) (s : IdentityFile Key) : Prop where
  entry : s.disk.entry path = none
  fresh : ∀ call, (s.caller call).Fresh

theorem Unborn.set (h : Unborn path s) {call : Nat} {c : Caller Key} (hc : c.Fresh) :
    Unborn path (s.set call s.disk c) where
  entry := h.entry
  fresh other := by
    change (Function.update s.caller call c other).Fresh
    by_cases hne : other = call
    · rw [hne, Function.update_self]
      exact hc
    · rw [Function.update_of_ne hne]
      exact h.fresh other

theorem Unborn.not_reading (h : Unborn path s) (call : Nat) {f : Nat} {got : List UInt8} :
    s.caller call ≠ .reading f got := by
  intro hcall
  have hfresh := h.fresh call
  rw [hcall] at hfresh
  cases hfresh

theorem Unborn.not_writing (h : Unborn path s) (call : Nat) {key : Key} {f : Nat}
    {buffered : List UInt8} : s.caller call ≠ .writing key f buffered := by
  intro hcall
  have hfresh := h.fresh call
  rw [hcall] at hfresh
  cases hfresh

/-- What a key leaves in a file, when the write is cut off anywhere, is read as that key or not at
all. -/
def Pem.Cuts (pem : Pem Key) : Prop :=
  ∀ key bytes other, bytes <+: pem.write key → pem.read bytes = some other → other = key

/-- A new file belongs to the call that has made it. -/
theorem Unborn.create (hpem : pem.Cuts) (h : Unborn path s) (call : Nat) (key : Key)
    (fdopens : Bool) :
    ∃ text, Chosen pem path (s.set call (s.disk.create path)
      (if fdopens then .writing key s.disk.next (pem.write key) else .returned none))
      s.disk.next [] text (some key) := by
  have hdata := Disk.create_data s.disk path
  refine ⟨if fdopens then pem.write key else [], Disk.create_entry s.disk path, List.nil_prefix,
    ?_, ?_, ?_, ?_⟩
  · change (s.disk.create path).data s.disk.next <+: _
    rw [hdata]
    exact List.nil_prefix
  · intro bytes other _ hbytes hread
    refine congrArg some (hpem key bytes other ?_ hread).symm
    refine hbytes.trans ?_
    split
    · exact List.prefix_refl _
    · exact List.nil_prefix
  · intro other
    change (Function.update s.caller call _ other).Holds (s.disk.create path) _ _ _
    by_cases hne : other = call
    · rw [hne, Function.update_self]
      cases fdopens with
      | false => trivial
      | true =>
        refine ⟨rfl, rfl, ?_⟩
        rw [hdata]
        rfl
    · rw [Function.update_of_ne hne]
      exact (h.fresh other).holds _ _ _ _
  · have honly : ∀ a, (Function.update s.caller call
        (if fdopens then .writing key s.disk.next (pem.write key) else .returned none) a).Writing →
        a = call := by
      intro a ha
      by_contra hne
      rw [Function.update_of_ne hne] at ha
      exact (h.fresh a).not_writing ha
    intro a b ha hb
    rw [honly a ha, honly b hb]

theorem identityStep_unborn (hpem : pem.Cuts) (h : Unborn path s) (a : IdentityAct Key) :
    Unborn path (identityStep pem path s a) ∨
      ∃ file text key, Chosen pem path (identityStep pem path s a) file [] text (some key) := by
  cases a with
  | fopen call fails =>
    dsimp only [identityStep]
    rw [h.entry]
    left
    split
    · rename_i hentry
      cases hentry
    · exact h.set trivial
    · exact h
  | read call n =>
    left
    dsimp only [identityStep]
    split
    · rename_i hcall
      exact absurd hcall (h.not_reading call)
    · exact h
  | load call exports =>
    left
    dsimp only [identityStep]
    split
    · rename_i hcall
      exact absurd hcall (h.not_reading call)
    · exact h
  | keygen call key =>
    left
    dsimp only [identityStep]
    split
    · exact h.set trivial
    · exact h.set trivial
    · exact h
  | create call opens fdopens =>
    have hnew : s.disk.openExclusive path = some (s.disk.create path, s.disk.next) := by
      unfold Disk.openExclusive
      rw [h.entry]
    dsimp only [identityStep]
    rw [hnew]
    split
    · rename_i key hcall
      cases opens with
      | false => exact .inl (h.set trivial)
      | true =>
        obtain ⟨text, hchosen⟩ := h.create hpem call key fdopens
        exact .inr ⟨_, text, key, hchosen⟩
    · exact .inl h
  | flush call n =>
    left
    dsimp only [identityStep]
    split
    · rename_i hcall
      exact absurd hcall (h.not_writing call)
    · exact h
  | close call ok =>
    left
    dsimp only [identityStep]
    split
    · rename_i hcall
      exact absurd hcall (h.not_writing call)
    · exact h
  | kill call => exact .inl (h.set trivial)

theorem Unborn.returned (h : Unborn path s) (call : Nat) (key : Key) :
    s.caller call ≠ .returned (some key) := by
  intro hcall
  have hfresh := h.fresh call
  rw [hcall] at hfresh
  cases hfresh

theorem Chosen.returned (h : Chosen pem path s file base text chosen) {call : Nat} {key : Key}
    (hcall : s.caller call = .returned (some key)) : chosen = some key := by
  have hholds := h.callers call
  rw [hcall] at hholds
  exact hholds

variable (pem) in
/-- A file that is there when the calls start is never written to. -/
theorem identity_existing {disk : Disk FilePath UInt8} {bytes : List UInt8}
    (h : disk.content path = some bytes) (as : List (IdentityAct Key)) :
    ∃ file, Chosen pem path (run (identityStep pem path) as (IdentityFile.initial disk)) file
      bytes bytes (pem.read bytes) := by
  obtain ⟨file, hfile, rfl⟩ := Disk.entry_of_content h
  refine ⟨file, run_keeps (identityStep pem path) (fun s => Chosen pem path s file _ _ _)
    (fun _ a hs => identityStep_chosen hs a) as ?_⟩
  constructor
  · exact hfile
  · exact List.prefix_refl _
  · exact List.prefix_refl _
  · intro bytes key hbase hbytes hread
    rw [hbase.eq_of_length_le hbytes.length_le]
    exact hread
  · exact fun _ => trivial
  · exact fun _ _ ha => absurd ha id

theorem identity_missing (hpem : pem.Cuts) {disk : Disk FilePath UInt8}
    (h : disk.content path = none) (as : List (IdentityAct Key)) :
    Unborn path (run (identityStep pem path) as (IdentityFile.initial disk)) ∨
      ∃ file text key, Chosen pem path
        (run (identityStep pem path) as (IdentityFile.initial disk)) file [] text (some key) := by
  refine run_keeps (identityStep pem path) (fun s => Unborn path s ∨
    ∃ file text key, Chosen pem path s file [] text (some key)) ?_ as ?_
  · intro s a hs
    cases hs with
    | inl hunborn => exact identityStep_unborn hpem hunborn a
    | inr hchosen =>
      obtain ⟨file, text, key, hchosen⟩ := hchosen
      exact .inr ⟨file, text, key, identityStep_chosen hchosen a⟩
  · exact .inl ⟨Option.map_eq_none_iff.mp h, fun _ => trivial⟩

/-- However many processes load or create the key, at once or one after another, with crashes and
lost writes, those that come up have the same one; and a file that is there is never replaced, even
if no key can be read from it. -/
theorem identity_calls_agree (hpem : pem.Cuts) (disk : Disk FilePath UInt8)
    (as : List (IdentityAct Key)) :
    let s := run (identityStep pem path) as (IdentityFile.initial disk)
    (∀ a b ka kb, s.caller a = .returned (some ka) → s.caller b = .returned (some kb) → ka = kb) ∧
      ∀ bytes, disk.content path = some bytes → s.disk.content path = some bytes ∧
        ∀ call key, s.caller call = .returned (some key) → pem.read bytes = some key := by
  intro s
  constructor
  · intro a b ka kb ha hb
    have hsame : ∀ {file base text} {chosen : Option Key},
        Chosen pem path s file base text chosen → ka = kb := fun h =>
      Option.some.inj ((h.returned ha).symm.trans (h.returned hb))
    cases hinit : disk.content path with
    | some bytes =>
      obtain ⟨file, hchosen⟩ := identity_existing pem hinit as
      exact hsame hchosen
    | none =>
      cases identity_missing hpem hinit as with
      | inl hunborn => exact absurd ha (hunborn.returned a ka)
      | inr hchosen =>
        obtain ⟨file, text, key, hchosen⟩ := hchosen
        exact hsame hchosen
  · intro bytes hinit
    obtain ⟨file, hchosen⟩ := identity_existing pem hinit as
    have hdata : s.disk.data file = bytes :=
      (hchosen.kept.eq_of_length_le hchosen.held.length_le).symm
    constructor
    · rw [Disk.content_eq hchosen.entry, hdata]
    · exact fun call key hcall => hchosen.returned hcall

/-- A key of one byte between two lines. -/
def Pem.sample : Pem UInt8 where
  write key := labelBytes "BEGIN" ++ [10, key, 10] ++ labelBytes "END"
  read bytes := (bytes[6]?).filter fun key =>
    decide (bytes = labelBytes "BEGIN" ++ [10, key, 10] ++ labelBytes "END")

theorem Pem.sample_cuts : Pem.sample.Cuts := by
  intro key bytes other hbytes hread
  obtain ⟨-, hwhole⟩ := Option.filter_eq_some_iff.mp hread
  have hwhole : bytes = Pem.sample.write other := of_decide_eq_true hwhole
  rw [hwhole] at hbytes
  have hsame : Pem.sample.write other = Pem.sample.write key :=
    hbytes.eq_of_length_le (by simp [Pem.sample])
  have hkeys := List.append_cancel_left (List.append_cancel_right hsame)
  exact (List.cons.inj (List.cons.inj hkeys).2).1

/-- One call finds the file while the key is being written, another one after a restart. -/
def sampleStarts : List (IdentityAct UInt8) :=
  [.fopen 0 false, .keygen 0 (some 7), .create 0 true true, .flush 0 6, .fopen 1 false, .read 1 512,
    .load 1 true, .flush 0 6, .close 0 true, .fopen 2 false, .read 2 512, .load 2 true]

theorem identity_calls_agree_restart :
    let s := run (identityStep Pem.sample []) sampleStarts (IdentityFile.initial Disk.empty)
    (s.caller 0 = .returned (some 7) ∧ s.caller 1 = .returned none ∧
      s.caller 2 = .returned (some 7)) ∧
    ∀ a b ka kb, s.caller a = .returned (some ka) → s.caller b = .returned (some kb) → ka = kb := by
  constructor
  · decide
  · exact (@identity_calls_agree _ Pem.sample [] Pem.sample_cuts Disk.empty sampleStarts).1

end

end AnonSecNet.Identity
