import AnonSecNet.Cache.Heartbeat
import AnonSecNet.Retrieval.WireKey

/-! What `heartbeat_thread` of `sender.c` takes from a HEARTBEAT reply: one wire key and one
public key for each worker it starts. -/
namespace AnonSecNet.Retrieval
open Octets Cache
open Sender (CString)

/-- The string in a buffer that was zeroed before. -/
def stringOf (raw : List UInt8) : CString :=
  ⟨cstr raw, zero_notMem_cstr raw⟩

/-- The loop over the entries; the first that is too long for its buffers ends it. -/
def parseEntries : Nat → List UInt8 → List (CString × PubKey)
  | 0, _ => []
  | _ + 1, [] => []
  | n + 1, klen :: rest =>
    if respondKeySize - 1 < klen.toNat ∨ rest.length < klen.toNat + ecPubkeyLen then []
    else
      (stringOf (rest.take klen.toNat), Bytes.fit ecPubkeyLen (rest.drop klen.toNat)) ::
        parseEntries n (rest.drop (klen.toNat + ecPubkeyLen))

def dispatched : List UInt8 → List (CString × PubKey)
  | [] => []
  | count :: rest => parseEntries count.toNat rest

theorem parseEntries_entries (ps : List PendingHandshake) :
    parseEntries ps.length (ps.flatMap heartbeatEntry)
      = ps.map fun p => (stringOf p.key.1, p.rEphemeralPub) := by
  induction ps with
  | nil => rfl
  | cons p ps ih =>
    have hkey := p.key.2
    have hklen : (UInt8.ofNat p.key.1.length).toNat = p.key.1.length := by
      simp at hkey ⊢
      omega
    have hentry : (p :: ps).flatMap heartbeatEntry = UInt8.ofNat p.key.1.length ::
        (p.key.1 ++ (p.rEphemeralPub.toList ++ ps.flatMap heartbeatEntry)) := by
      simp [heartbeatEntry]
    have hroom : ¬ (respondKeySize - 1 < p.key.1.length ∨
        (p.key.1 ++ (p.rEphemeralPub.toList ++ ps.flatMap heartbeatEntry)).length
          < p.key.1.length + ecPubkeyLen) := by
      simp at hkey ⊢
      omega
    rw [hentry, List.length_cons, List.map_cons]
    unfold parseEntries
    rw [hklen, if_neg hroom, List.take_left' rfl, List.drop_left' rfl, Bytes.fit_append,
      ← List.drop_drop, List.drop_left' rfl, List.drop_left' p.rEphemeralPub.length_eq, ih]

/-- The workers get what the cache server has listed. -/
theorem dispatched_heartbeat (s : CacheState) :
    dispatched (handleHeartbeat s)
      = s.listed.map fun p => (stringOf p.key.1, p.rEphemeralPub) := by
  have hcount : (UInt8.ofNat s.listed.length).toNat = s.listed.length := by
    have hle := length_listed_le s
    simp at hle ⊢
    omega
  rw [handleHeartbeat_listed]
  unfold dispatched
  dsimp only
  rw [hcount, parseEntries_entries]

end AnonSecNet.Retrieval
