import AnonSecNet.Gateway.Relay

/-! What the answer to a PUT promises: the gateway, the store of the cache server and every
GET that comes later. -/
namespace AnonSecNet.Gateway
open Octets Cache

def putRequest (reqNonce : Bytes slotNonceBytes) (key : RawKey) (data : Content) : AppRequest :=
  ⟨.put, reqNonce, key, data⟩

def getRequest (key : RawKey) : AppRequest := ⟨.get, Bytes.zero _, key, noData⟩

/-- After a PUT that is answered with success, and until the next PUT to its key, every GET of
the key returns its content; a PUT that the cache server refuses is not answered so. -/
structure PutTruthful (s : CacheState) (reqNonce : Bytes slotNonceBytes) (key : RawKey)
    (data : Content) (now : Nat) : Prop where
  stored : (relay s (putRequest reqNonce key data) now []).1 = some contentStored →
    ∀ (later between : List Connection) (name : RawKey) (now' : Nat),
      (∀ c ∈ later ++ between, ¬ c.PutsTo (cacheKey key)) → cacheKey name = cacheKey key →
        (relay (Machine.run serve later (relay s (putRequest reqNonce key data) now []).2)
          (getRequest name) now' between).1 = some data.1
  refused : (handleConnection s (frame .put key data) now).1 = ackReply false →
    (relay s (putRequest reqNonce key data) now []).1 ≠ some contentStored

/-- What the cache server does with a PUT of the gateway. -/
theorem handleConnection_put (s : CacheState) (key : RawKey) (data : Content) (now : Nat) :
    handleConnection s (frame .put key data) now = handlePut s (cacheKey key) data :=
  handleConnection_frame s .put key data now

theorem relay_put (s : CacheState) (reqNonce : Bytes slotNonceBytes) (key : RawKey)
    (data : Content) (now : Nat) :
    relay s (putRequest reqNonce key data) now []
      = (some contentStored, (storePut s (cacheKey key) data).2) := by
  unfold relay putRequest relayPut
  dsimp only
  rw [handleConnection_put]
  rfl

/-- A content that found room is what GET returns until the next PUT to the key. -/
theorem get_after_put {s : CacheState} {key : RawKey} (data : Content)
    (hfits : s.store.Fits (cacheKey key)) {later between : List Connection}
    (hquiet : ∀ c ∈ later ++ between, ¬ c.PutsTo (cacheKey key)) {name : RawKey}
    (hname : cacheKey name = cacheKey key) (now : Nat) :
    (relay (Machine.run serve later (storePut s (cacheKey key) data).2) (getRequest name) now
      between).1 = some (if data = noData then keyNotFound else data.1) := by
  have hput : (storePut s (cacheKey key) data).2.store.get (cacheKey name) = some data := by
    rw [hname]
    exact Keyed.Store.get_put_self hfits
  rw [← hname] at hquiet
  have hlater := (run_get (fun c hc => hquiet c (List.mem_append_left _ hc))
    (storePut s (cacheKey key) data).2).trans hput
  have hbetween := (run_get (fun c hc => hquiet c (List.mem_append_right _ hc))
    (Machine.run serve later (storePut s (cacheKey key) data).2)).trans hlater
  exact relayGet_stored hlater hbetween

/-- The answer is truthful exactly for a content that is not empty and finds room. -/
theorem put_truthful_iff (s : CacheState) (reqNonce : Bytes slotNonceBytes) (key : RawKey)
    (data : Content) (now : Nat) :
    PutTruthful s reqNonce key data now ↔ data ≠ noData ∧ s.store.Fits (cacheKey key) := by
  have hrelay := relay_put s reqNonce key data now
  have hack : (handleConnection s (frame .put key data) now).1 = ackReply false ↔
      ¬ s.store.Fits (cacheKey key) := by
    rw [handleConnection_put, ← Keyed.Store.put_eq_true_iff (v := data)]
    unfold handlePut storePut ackReply
    cases (s.store.put (cacheKey key) data).1 <;> simp
  constructor
  · intro h
    have hfits : s.store.Fits (cacheKey key) := by
      by_contra hfull
      exact h.refused (hack.mpr hfull) (congrArg Prod.fst hrelay)
    refine ⟨fun hempty => ?_, hfits⟩
    have hget := h.stored (congrArg Prod.fst hrelay) [] [] key now (by simp) rfl
    rw [hrelay, get_after_put data hfits (by simp) rfl, if_pos hempty, hempty] at hget
    revert hget
    decide
  · rintro ⟨hdata, hfits⟩
    refine ⟨fun _ later between name now' hquiet hname => ?_, fun hrefused =>
      absurd hfits (hack.mp hrefused)⟩
    rw [hrelay, get_after_put data hfits hquiet hname, if_neg hdata]

/-- A cache server with `MAX_ENTRIES` keys of two letters. -/
def fullCache : CacheState where
  store :=
    ⟨(List.range maxEntries).map fun i =>
      (⟨[UInt8.ofNat (97 + i / 16), UInt8.ofNat (97 + i % 16)], by simp⟩,
        ⟨[UInt8.ofNat i], by simp⟩), by simp⟩
  pending _ := zeroPending

def newKey : RawKey := ⟨labelBytes "mykey", by decide⟩

def newData : Content := ⟨[1, 2, 3], by decide⟩

/-- The store is full, the PUT is answered with success, and the next GET finds nothing. -/
theorem full_store_put_is_acknowledged :
    (relay fullCache (putRequest (Bytes.zero _) newKey newData) 0 []).1 = some contentStored ∧
      (relay (relay fullCache (putRequest (Bytes.zero _) newKey newData) 0 []).2
        (getRequest newKey) 0 []).1 = some keyNotFound ∧
      ¬ PutTruthful fullCache (Bytes.zero _) newKey newData 0 := by
  have hanswer : (relay fullCache (putRequest (Bytes.zero _) newKey newData) 0 []).1
      = some contentStored := by decide +kernel
  have hget : (relay (relay fullCache (putRequest (Bytes.zero _) newKey newData) 0 []).2
      (getRequest newKey) 0 []).1 = some keyNotFound := by decide +kernel
  refine ⟨hanswer, hget, fun h => ?_⟩
  have hsame := h.stored hanswer [] [] newKey 0 (by simp) rfl
  rw [Machine.run, hget] at hsame
  revert hsame
  decide

end AnonSecNet.Gateway
