import AnonSecNet.KeyExchange
import AnonSecNet.Sender.Upload

/-! The wire key of a handshake: `client.c` appends a separator and a nonce suffix to the
content key, `sender.c` cuts them off again. -/
namespace AnonSecNet.Retrieval
open Octets
open Sender hiding step

/-- `#`, between content key and suffix. -/
def nonceSep : UInt8 := 35

def hexDigit (d : Nat) : UInt8 := UInt8.ofNat (if d < 10 then 48 + d else 87 + d)

/-- The two characters of `%02x`. -/
def hexByte (b : UInt8) : List UInt8 := [hexDigit (b.toNat / 16), hexDigit (b.toNat % 16)]

def wireKeySize : Nat := 64 + 6

theorem zero_notMem_hexByte (b : UInt8) : 0 ∉ hexByte b := by
  have hdigit : ∀ d < 16, (0 : UInt8) ≠ hexDigit d := by decide
  have hlt := b.toNat_lt
  simp only [hexByte, List.mem_cons, List.not_mem_nil, or_false, not_or]
  exact ⟨hdigit _ (by omega), hdigit _ (by omega)⟩

/-- `snprintf` of `perform_content_handshake`, into a buffer of `wireKeySize` bytes. -/
def wireKey (key : CString) (ephPub : PubKey) : Option CString :=
  let chars := key.1 ++ nonceSep :: (hexByte (ephPub.byte 1 one_lt_ecPubkeyLen) ++ hexByte (ephPub.byte 2))
  if wireKeySize ≤ chars.length then none
  else
    some ⟨chars, by
      simp only [chars, List.mem_append, List.mem_cons, not_or]
      exact ⟨key.2, by decide, zero_notMem_hexByte _, zero_notMem_hexByte _⟩⟩

@[simp] abbrev respondKeySize : Nat := 65

/-- The content key `respond_worker` looks up: `strncpy` into a buffer of `respondKeySize`
bytes, cut at the first separator. -/
def contentKeyOf (wire : CString) : CString :=
  ⟨(wire.1.take (respondKeySize - 1)).takeWhile (· ≠ nonceSep), fun h =>
    wire.2 (List.mem_of_mem_take (List.takeWhile_subset _ h))⟩

/-- A wire key of the content `mykey`. -/
def mykeyWire : Gateway.RawKey := ⟨labelBytes "mykey#0000", by decide⟩

/-- What `respond_worker` has for the wire key. -/
def respondLookup (s : SenderState) (wire : CString) : Option AesKey :=
  lookupOwnedKey s (contentKeyOf wire)

/-! The way there and back. -/

theorem wireKey_eq_some {key w : CString} {ephPub : PubKey} (h : wireKey key ephPub = some w) :
    w.1.length = key.1.length + 5 ∧ ∃ suffix, w.1 = key.1 ++ nonceSep :: suffix := by
  unfold wireKey at h
  dsimp only at h
  split at h
  · cases h
  · cases h
    exact ⟨by simp [hexByte], _, rfl⟩

theorem wireKey_of_accepted {key : CString} (hkey : key.1.length ≤ maxSendKeyLen)
    (ephPub : PubKey) : (wireKey key ephPub).isSome := by
  have hfits : ¬ wireKeySize ≤ (key.1 ++ nonceSep ::
      (hexByte (ephPub.byte 1) ++ hexByte (ephPub.byte 2))).length := by
    simp [wireKeySize, hexByte] at hkey ⊢
    omega
  unfold wireKey
  dsimp only
  rw [if_neg hfits]
  rfl

theorem contentKeyOf_plain {key w : CString} (hkey : key.1.length ≤ maxSendKeyLen)
    {suffix : List UInt8} (hw : w.1 = key.1 ++ nonceSep :: suffix) :
    contentKeyOf w = key ↔ nonceSep ∉ key.1 := by
  -- the separator is within the 64 bytes that are copied
  have htake : w.1.take (respondKeySize - 1)
      = key.1 ++ nonceSep :: suffix.take (respondKeySize - 1 - key.1.length - 1) := by
    obtain ⟨k, hk⟩ : ∃ k, respondKeySize - 1 - key.1.length = k + 1 :=
      ⟨respondKeySize - 1 - key.1.length - 1, by simp only [maxSendKeyLen] at hkey; simp; omega⟩
    rw [hw, List.take_append, List.take_of_length_le (by simp at hkey ⊢; omega), hk,
      List.take_succ_cons, Nat.add_sub_cancel]
  constructor
  · intro h hmem
    rw [← h] at hmem
    simpa using List.mem_takeWhile_imp hmem
  · intro hplain
    apply Subtype.ext
    exact (congrArg (List.takeWhile (· ≠ nonceSep)) htake).trans (takeWhile_append_sep hplain _)

/-- The wire key of an accepted content key leads back to it exactly if there is no separator
in it, and then to the entry of the registry that the upload made. -/
theorem wire_key_round_trip_iff (key : CString) (hkey : key.1.length ≤ maxSendKeyLen)
    (ephPub : PubKey) :
    (∃ w, wireKey key ephPub = some w ∧ contentKeyOf w = key ∧
      ∀ s, respondLookup s w = lookupOwnedKey s key) ↔ nonceSep ∉ key.1 := by
  obtain ⟨w, hwire⟩ := Option.isSome_iff_exists.mp (wireKey_of_accepted hkey ephPub)
  obtain ⟨-, suffix, hw⟩ := wireKey_eq_some hwire
  have hiff := contentKeyOf_plain hkey hw
  constructor
  · rintro ⟨w', hwire', hcut, -⟩
    obtain rfl := Option.some.inj (hwire.symm.trans hwire')
    exact hiff.mp hcut
  · intro hplain
    have hcut := hiff.mpr hplain
    exact ⟨w, hwire, hcut, fun s => by rw [respondLookup, hcut]⟩

/-- `C#notes`, an accepted key. -/
def sharpKey : CString := ⟨labelBytes "C#notes", by decide⟩

theorem wire_key_round_trip_iff_mykey :
    ∃ w, wireKey sampleKey (Bytes.zero _) = some w ∧ contentKeyOf w = sampleKey ∧
      ∀ s, respondLookup s w = lookupOwnedKey s sampleKey :=
  (wire_key_round_trip_iff sampleKey (by decide) (Bytes.zero _)).mpr (by decide)

/-- The upload succeeds and its content key is in the registry, but not for the handshake. -/
theorem separator_in_key_hides_content :
    let s := (uploadContent .sample .sample sharpKey [7] (.sample (sampleMaster 0) true)).2
    (uploadContent .sample .sample sharpKey [7] (.sample (sampleMaster 0) true)).1.isSent = true ∧
      lookupOwnedKey s sharpKey = some (sampleMaster 0) ∧
      ∃ w, wireKey sharpKey (Bytes.zero _) = some w ∧ contentKeyOf w ≠ sharpKey ∧
        respondLookup s w = none := by
  obtain ⟨w, hw⟩ := Option.isSome_iff_exists.mp (wireKey_of_accepted
    (show sharpKey.1.length ≤ maxSendKeyLen by decide) (Bytes.zero _))
  have hcut : (wireKey sharpKey (Bytes.zero _)).map contentKeyOf
      = some ⟨labelBytes "C", by decide⟩ := by
    decide +kernel
  rw [hw] at hcut
  refine ⟨by decide +kernel, by decide +kernel, w, hw, ?_, ?_⟩
  · rw [Option.some.inj hcut]
    decide
  · rw [respondLookup, Option.some.inj hcut]
    decide +kernel

end AnonSecNet.Retrieval
