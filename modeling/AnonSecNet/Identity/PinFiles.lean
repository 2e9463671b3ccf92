import AnonSecNet.Foundation.Machine
import AnonSecNet.Retrieval.Handshake

/-! The pin files of `crypto_pubkey_pin_check` in `crypto.c` and `pin_sender_key` in
`client.c`: the file of each pin, and what becomes of it over any sequence of calls. -/
namespace AnonSecNet.Identity
open Octets Machine
open Retrieval (safeChar senderPinPath)
open Sender (CString maxSendKeyLen)

/-! Paths. -/

abbrev FilePath : Type := List UInt8

def snprintf (size : Nat) (s : List UInt8) : List UInt8 := s.take (size - 1)

/-- `%u`. -/
def decimal (n : Nat) : List UInt8 := (Nat.toDigits 10 n).map fun c => UInt8.ofNat c.toNat

/-- `PIN_DIR` of `client.c`. -/
def clientPinDir : FilePath := labelBytes "client_pins"

/-- `SENDER_PIN_DIR` of `client.c`, and `PIN_DIR` of `sender.c`. -/
def senderPinDir : FilePath := labelBytes "sender_pins"

def pinFileName (name : List UInt8) : FilePath :=
  labelBytes "/pinned_" ++ name ++ labelBytes ".pub"

/-- The path of `crypto_pubkey_pin_check`. -/
def nodePinFile (pinDir : FilePath) (port : UInt16) : FilePath :=
  snprintf 512 (pinDir ++ pinFileName (decimal port.toNat))

/-- The path of `sender_pin_path`. -/
def senderPinFile (key : CString) : FilePath :=
  snprintf 512 (senderPinDir ++ pinFileName (senderPinPath key))

/-! Files. -/

abbrev Files : Type := FilePath → Option (List UInt8)

/-- What the system makes of the file operations of one call: whether the file can be opened and
read, whether it can be opened for writing, how many bytes of the key reach it before `fclose` or
a crash, and whether `fwrite` has taken the whole key. -/
structure FileIo where
  readable : Bool
  writable : Bool
  stored : Nat
  reported : Bool

/-- Nothing fails but, without `saves`, the opening for writing. -/
def FileIo.ofSaves (saves : Bool) : FileIo := ⟨true, saves, ecPubkeyLen, true⟩

abbrev FileIo.working : FileIo := .ofSaves true

def cryptoPubkeyLoad (io : FileIo) (file : Option (List UInt8)) : Option PubKey :=
  file.bind fun bytes =>
    if io.readable ∧ ecPubkeyLen ≤ bytes.length then some (Bytes.fit ecPubkeyLen bytes) else none

/-- `fopen` has emptied the file, and the result of `fclose` is not looked at. -/
def cryptoPubkeySave (io : FileIo) (pub : PubKey) (file : Option (List UInt8)) :
    Bool × Option (List UInt8) :=
  if io.writable then (io.reported, some (pub.toList.take io.stored)) else (false, file)

/-- Both pin functions on the file of the pin. -/
def pinFile (io : FileIo) (pub : PubKey) (file : Option (List UInt8)) :
    Bool × Option (List UInt8) :=
  match cryptoPubkeyLoad io file with
  | some existing => (decide (existing = pub), file)
  | none => cryptoPubkeySave io pub file

def pinAt (io : FileIo) (files : Files) (path : FilePath) (pub : PubKey) : Bool × Files :=
  let (ok, file) := pinFile io pub (files path)
  (ok, Function.update files path file)

def cryptoPubkeyPinCheck (io : FileIo) (files : Files) (port : UInt16) (pub : PubKey)
    (pinDir : FilePath) : Bool × Files :=
  pinAt io files (nodePinFile pinDir port) pub

def pinSenderKey (io : FileIo) (files : Files) (key : CString) (pub : PubKey) : Bool × Files :=
  pinAt io files (senderPinFile key) pub

inductive PinCall where
  | node (port : UInt16) (pub : PubKey) (pinDir : FilePath) (io : FileIo)
  | sender (key : CString) (pub : PubKey) (io : FileIo)

namespace PinCall

def path : PinCall → FilePath
  | node port _ pinDir _ => nodePinFile pinDir port
  | sender key _ _ => senderPinFile key

def pub : PinCall → PubKey
  | node _ pub _ _ => pub
  | sender _ pub _ => pub

def io : PinCall → FileIo
  | node _ _ _ io => io
  | sender _ _ io => io

/-- Whether the key is accepted, and the files after the call. -/
def run (files : Files) : PinCall → Bool × Files
  | node port pub pinDir io => cryptoPubkeyPinCheck io files port pub pinDir
  | sender key pub io => pinSenderKey io files key pub

end PinCall

def pinStep (files : Files) (call : PinCall) : Files := (call.run files).2

theorem PinCall.run_eq (files : Files) (call : PinCall) :
    call.run files = pinAt call.io files call.path call.pub := by
  cases call <;> rfl

theorem pinAt_fst (io : FileIo) (files : Files) (path : FilePath) (pub : PubKey) :
    (pinAt io files path pub).1 = (pinFile io pub (files path)).1 := rfl

theorem pinAt_snd (io : FileIo) (files : Files) (path : FilePath) (pub : PubKey) :
    (pinAt io files path pub).2 = Function.update files path (pinFile io pub (files path)).2 := rfl

theorem pinAt_self (io : FileIo) (files : Files) (path : FilePath) (pub : PubKey) :
    (pinAt io files path pub).2 path = (pinFile io pub (files path)).2 := Function.update_self _ _ _

theorem pinAt_other {path other : FilePath} (h : other ≠ path) (io : FileIo) (files : Files)
    (pub : PubKey) : (pinAt io files path pub).2 other = files other :=
  Function.update_of_ne h _ _

/-! A pin that is there. -/

/-- A call that finds a file accepts no key but the one in it, and leaves it as it is. -/
def PinKept (files : Files) (call : PinCall) : Prop :=
  ∀ bytes, files call.path = some bytes →
    (call.run files).2 call.path = some bytes ∧
      ((call.run files).1 = true → bytes.take ecPubkeyLen = call.pub.toList)

/-- The file can be loaded, or not overwritten; or it holds just what the call writes. -/
def LeftAlone (files : Files) (call : PinCall) : Prop :=
  ∀ bytes, files call.path = some bytes →
    (call.io.readable = true ∧ ecPubkeyLen ≤ bytes.length) ∨ call.io.writable = false ∨
      (call.pub.toList.take call.io.stored = bytes ∧
        (call.io.reported = true → bytes = call.pub.toList))

theorem pinFile_loaded {io : FileIo} {bytes : List UInt8}
    (h : io.readable = true ∧ ecPubkeyLen ≤ bytes.length) (pub : PubKey) :
    pinFile io pub (some bytes) = (decide (Bytes.fit ecPubkeyLen bytes = pub), some bytes) := by
  simp only [pinFile, cryptoPubkeyLoad, Option.bind_some, if_pos h]

theorem pinFile_unloaded {io : FileIo} {bytes : List UInt8}
    (h : ¬ (io.readable = true ∧ ecPubkeyLen ≤ bytes.length)) (pub : PubKey) :
    pinFile io pub (some bytes) = cryptoPubkeySave io pub (some bytes) := by
  simp only [pinFile, cryptoPubkeyLoad, Option.bind_some, if_neg h]

theorem pinFile_kept_iff (io : FileIo) (pub : PubKey) (bytes : List UInt8) :
    ((pinFile io pub (some bytes)).2 = some bytes ∧
        ((pinFile io pub (some bytes)).1 = true → bytes.take ecPubkeyLen = pub.toList)) ↔
      (io.readable = true ∧ ecPubkeyLen ≤ bytes.length) ∨ io.writable = false ∨
        (pub.toList.take io.stored = bytes ∧ (io.reported = true → bytes = pub.toList)) := by
  by_cases hload : io.readable = true ∧ ecPubkeyLen ≤ bytes.length
  · rw [pinFile_loaded hload]
    refine ⟨fun _ => Or.inl hload, fun _ => ⟨rfl, fun hok => ?_⟩⟩
    rw [← of_decide_eq_true hok]
    exact (Bytes.toList_fit_of_le hload.2).symm
  · rw [pinFile_unloaded hload, cryptoPubkeySave]
    simp only [hload, false_or]
    cases io.writable with
    | false => simp
    | true =>
      simp only [if_true, Option.some.injEq, Bool.true_eq_false, false_or, and_congr_right_iff]
      rintro rfl
      rw [List.take_of_length_le (by simp)]

theorem pinKept_iff (files : Files) (call : PinCall) :
    PinKept files call ↔ LeftAlone files call := by
  unfold PinKept LeftAlone
  refine forall_congr' fun bytes => forall_congr' fun hfile => ?_
  rw [PinCall.run_eq, pinAt_self, pinAt_fst, hfile]
  exact pinFile_kept_iff call.io call.pub bytes

/-- Over a run in which every call keeps its pin, a file that is there once stays. -/
theorem pins_stay {path : FilePath} {bytes : List UInt8} (calls : List PinCall) {files : Files}
    (hkept : StepsMeet pinStep PinKept calls files) (hfile : files path = some bytes) :
    Along pinStep (fun files => files path = some bytes) calls files := by
  refine along_of_stepsMeet pinStep _ (fun files call hfile hkept => ?_) hfile hkept
  unfold pinStep
  by_cases hpath : path = call.path
  · subst hpath
    exact (hkept bytes hfile).1
  · rw [PinCall.run_eq, pinAt_other hpath]
    exact hfile

/-- Pins are never replaced exactly when every call that finds a file leaves it alone. -/
theorem pin_never_replaced_iff (calls : List PinCall) (files : Files) :
    (StepsMeet pinStep PinKept calls files ∧
        ∀ path bytes, files path = some bytes →
          Along pinStep (fun files => files path = some bytes) calls files) ↔
      StepsMeet pinStep LeftAlone calls files := by
  have hsame : PinKept = LeftAlone := by
    funext files call
    exact propext (pinKept_iff files call)
  rw [← hsame]
  exact ⟨fun h => h.1, fun h => ⟨h, fun path bytes hfile => pins_stay calls h hfile⟩⟩

def sampleIdentity (i : UInt8) : PubKey := Bytes.fit ecPubkeyLen [4, i]

/-- The first save is cut off by one byte; then somebody else presents a key. -/
def tornSave (call : PubKey → FileIo → PinCall) : List PinCall :=
  [call (sampleIdentity 1) { FileIo.working with stored := 64 },
    call (sampleIdentity 2) .working]

/-- The second key is accepted and overwrites what was left of the first one. -/
theorem torn_pin_replaced :
    ¬ StepsMeet pinStep PinKept (tornSave fun pub => .node 9001 pub clientPinDir)
        (fun _ => none) ∧
      ¬ StepsMeet pinStep PinKept (tornSave (.sender ⟨labelBytes "doc", by decide⟩))
        (fun _ => none) := by
  constructor
  · rintro ⟨-, hkept, -⟩
    have hfile := (hkept ((sampleIdentity 1).toList.take 64) (by decide +kernel)).1
    revert hfile
    decide +kernel
  · rintro ⟨-, hkept, -⟩
    have hfile := (hkept ((sampleIdentity 1).toList.take 64) (by decide +kernel)).1
    revert hfile
    decide +kernel

end AnonSecNet.Identity
