import AnonSecNet.Cache.Store
import AnonSecNet.Foundation.BoundedMap
import AnonSecNet.Gateway.Relay

/-! The content store as a partial map of at most `MAX_ENTRIES` keys: what it answers to a PUT
or a GET after any number of them. -/
namespace AnonSecNet.Cache
open Octets Gateway

/-- A key without NUL, and a content that is not empty. -/
abbrev StoreKey : Type := { k : RawKey // 0 ∉ k.1 }
abbrev StoreContent : Type := { d : Content // 0 < d.1.length }

inductive StoreRequest where
  | put (key : StoreKey) (data : StoreContent)
  | get (key : StoreKey)

def StoreRequest.bytes : StoreRequest → List UInt8
  | .put key data => frame .put key.1 data.1
  | .get key => frame .get key.1 noData

abbrev ContentMap : Type := BoundedMap CacheKey Content maxEntries

/-- `[0][0]` stands for a key that is not stored. -/
def contentReply (content : Option Content) : List UInt8 :=
  content.elim [0, 0] fun content => framed content.1

/-- The reply that a map gives, and the map after it. -/
def mapServe (m : ContentMap) : StoreRequest → List UInt8 × ContentMap
  | .put key data =>
    (ackReply (m.put (cacheKey key.1) data.1).1, (m.put (cacheKey key.1) data.1).2)
  | .get key => (contentReply (m.get (cacheKey key.1)), m)

/-- A request and the time it is served. -/
structure TimedRequest where
  request : StoreRequest
  now : Nat

def arrayStep (s : ArrayState) (r : TimedRequest) : ArrayState :=
  (handleArray s r.request.bytes r.now).2

def mapStep (m : ContentMap) (r : TimedRequest) : ContentMap := (mapServe m r.request).2

/-- The requests served from `s` on, with their replies. -/
def served (s : ArrayState) : List TimedRequest → List (StoreRequest × List UInt8)
  | [] => []
  | r :: rs => (r.request, (handleArray s r.request.bytes r.now).1) :: served (arrayStep s r) rs

/-- What is stored under `key` behind a request: its content if it is an acknowledged PUT to the
key, and otherwise what was there. -/
def storedBy (key : CacheKey) (before : Option Content) :
    StoreRequest × List UInt8 → Option Content
  | (.get _, _) => before
  | (.put key' data, reply) =>
    if cacheKey key'.1 = key ∧ reply = ackReply true then some data.1 else before

/-- The content of the last acknowledged PUT to `key`. -/
def lastPut (key : CacheKey) (log : List (StoreRequest × List UInt8)) : Option Content :=
  log.foldl (storedBy key) none

/-! One request. -/

theorem ackReply_inj {b b' : Bool} : ackReply b = ackReply b' ↔ b = b' := by
  cases b <;> cases b' <;> decide

/-- The array stands for the map. -/
def Stores (s : ArrayState) (m : ContentMap) : Prop := s.store.table.Implements m

theorem stores_initial : Stores .initial .empty := by
  have hempty : StoreArray.initial.table = (Keyed.Store.empty : Keyed.Store CacheKey Content _) :=
    Keyed.Store.ext rfl
  change StoreArray.initial.table.Implements _
  rw [hempty]
  exact Keyed.Store.Implements.empty

theorem handleGet_eq (s : CacheState) (key : CacheKey) :
    handleGet s key = contentReply (s.store.get key) := by
  unfold handleGet contentReply
  cases s.store.get key <;> rfl

/-- The server gives the reply of the map and goes on to stand for the next one. -/
theorem Stores.serve {s : ArrayState} {m : ContentMap} (h : Stores s m) (r : StoreRequest)
    (now : Nat) :
    (handleArray s r.bytes now).1 = (mapServe m r).1 ∧
      Stores (handleArray s r.bytes now).2 (mapServe m r).2 := by
  obtain ⟨hreply, hview⟩ := handleArray_view s r.bytes now
  have htable : (handleArray s r.bytes now).2.store.table
      = (handleConnection s.view r.bytes now).2.store := congrArg CacheState.store hview
  unfold Stores
  rw [hreply, htable]
  cases r with
  | put key data =>
    obtain ⟨hdone, hnext⟩ := Keyed.Store.Implements.put h (cacheKey key.1) data.1
    have hserve : handleConnection s.view (StoreRequest.put key data).bytes now
        = handlePut s.view (cacheKey key.1) data.1 :=
      handleConnection_frame s.view .put key.1 data.1 now
    rw [hserve]
    exact ⟨congrArg ackReply hdone, hnext⟩
  | get key =>
    have hserve : handleConnection s.view (StoreRequest.get key).bytes now
        = (handleGet s.view (cacheKey key.1), s.view) :=
      handleConnection_frame s.view .get key.1 noData now
    rw [hserve]
    refine ⟨?_, h⟩
    have hget : s.view.store.get (cacheKey key.1) = m.get (cacheKey key.1) := h.get _
    exact (handleGet_eq s.view (cacheKey key.1)).trans (congrArg contentReply hget)

theorem Stores.run {s : ArrayState} {m : ContentMap} (h : Stores s m) (rs : List TimedRequest) :
    Stores (Machine.run arrayStep rs s) (Machine.run mapStep rs m) := by
  induction rs generalizing s m with
  | nil => exact h
  | cons r rs ih => exact ih (h.serve r.request r.now).2

/-! A run of requests. -/

theorem get_mapServe (m : ContentMap) (r : StoreRequest) (key : CacheKey) :
    (mapServe m r).2.get key = storedBy key (m.get key) (r, (mapServe m r).1) := by
  cases r with
  | get key' => rfl
  | put key' data =>
    have hdone : ackReply (m.put (cacheKey key'.1) data.1).1 = ackReply true ↔
        (m.put (cacheKey key'.1) data.1).1 = true := ackReply_inj
    refine (BoundedMap.get_put m (cacheKey key'.1) data.1 key).trans ?_
    unfold storedBy
    exact if_congr (by rw [and_comm, eq_comm (a := key)]; exact and_congr_right' hdone.symm) rfl rfl

theorem run_lastPut {s : ArrayState} {m : ContentMap} (h : Stores s m) (rs : List TimedRequest)
    (key : CacheKey) :
    (Machine.run mapStep rs m).get key = (served s rs).foldl (storedBy key) (m.get key) := by
  induction rs generalizing s m with
  | nil => rfl
  | cons r rs ih =>
    obtain ⟨hreply, hnext⟩ := h.serve r.request r.now
    refine (ih hnext).trans ?_
    change _ = List.foldl _ _ ((r.request, (handleArray s r.request.bytes r.now).1) ::
      served (arrayStep s r) rs)
    rw [List.foldl_cons, hreply, ← get_mapServe]
    rfl

/-- After any sequence of requests the server answers the next one as a map of at most
`MAX_ENTRIES` keys does, in which every key has what the last successful PUT to it stored: a GET
gets that, and a PUT succeeds if its key is stored or another key fits. -/
theorem store_refines_map (rs : List TimedRequest) :
    (∀ r now, (handleArray (Machine.run arrayStep rs .initial) r.bytes now).1
        = (mapServe (Machine.run mapStep rs .empty) r).1) ∧
      ∀ key, (Machine.run mapStep rs .empty).get key = lastPut key (served .initial rs) := by
  refine ⟨fun r now => ?_, fun key => run_lastPut stores_initial rs key⟩
  exact ((stores_initial.run rs).serve r now).1

end AnonSecNet.Cache
