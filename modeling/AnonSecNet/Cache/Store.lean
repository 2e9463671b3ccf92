import AnonSecNet.Cache.Server

/-! `g_store` of `cache_server.c` as it lies in memory: a counted array of entries, each with
a key buffer, a content buffer and the length of the content. -/
namespace AnonSecNet.Cache
open Octets

/-- `cache_entry_t`: the key is terminated within its buffer, the length is within the other. -/
structure CacheEntry where
  key : Bytes (maxKeyLen + 1)
  content : Bytes maxContentLen
  contentLen : Nat
  terminated : key.byte maxKeyLen = 0
  contentLen_le : contentLen ≤ maxContentLen

/-- `g_store` and `g_count`. -/
structure StoreArray where
  entries : Fin maxEntries → CacheEntry
  count : Nat
  count_le : count ≤ maxEntries

def CacheEntry.zero : CacheEntry := ⟨Bytes.zero _, Bytes.zero _, 0, by decide, Nat.zero_le _⟩

def StoreArray.initial : StoreArray := ⟨fun _ => .zero, 0, Nat.zero_le _⟩

/-- What `strcmp` compares. -/
def CacheEntry.name (e : CacheEntry) : List UInt8 := cstr e.key.toList

/-- The bytes that count. -/
def CacheEntry.data (e : CacheEntry) : List UInt8 := e.content.toList.take e.contentLen

def StoreArray.used (s : StoreArray) : List (Fin maxEntries) :=
  (List.finRange maxEntries).take s.count

/-- `store_find`. -/
def storeFind (s : StoreArray) (key : CacheKey) : Option (Fin maxEntries) :=
  s.used.find? fun i => (s.entries i).name = key.1

/-- `strncpy` of a key, and the terminator behind it. -/
def keyBuffer (key : CacheKey) : Bytes (maxKeyLen + 1) := Bytes.fit (maxKeyLen + 1) key.1

theorem terminated_keyBuffer (key : CacheKey) : (keyBuffer key).byte maxKeyLen = 0 := by
  unfold keyBuffer Bytes.fit Bytes.byte
  rw [List.get_eq_getElem, List.getElem_take, List.getElem_append_right key.2,
    List.getElem_replicate]

/-- `memcpy` to the front of the content buffer, and the new length. -/
def CacheEntry.setContent (e : CacheEntry) (data : Content) : CacheEntry :=
  { e with
    content := e.content.write 0 (Bytes.ofList data.1) (by have := data.2; omega)
    contentLen := data.1.length
    contentLen_le := data.2 }

def CacheEntry.setKey (e : CacheEntry) (key : CacheKey) : CacheEntry :=
  { e with key := keyBuffer key, terminated := terminated_keyBuffer key }

/-- `store_put`. -/
def storePutArray (s : StoreArray) (key : CacheKey) (data : Content) : Bool × StoreArray :=
  match storeFind s key with
  | some i =>
    (true, { s with entries := Function.update s.entries i ((s.entries i).setContent data) })
  | none =>
    if h : s.count < maxEntries then
      let i : Fin maxEntries := ⟨s.count, h⟩
      (true,
        { entries := Function.update s.entries i (((s.entries i).setKey key).setContent data)
          count := s.count + 1
          count_le := h })
    else (false, s)

/-- The reply to a GET: `rlen` is a `uint16_t`. -/
def storeGetArray (s : StoreArray) (key : CacheKey) : List UInt8 :=
  match storeFind s key with
  | none => [0, 0]
  | some i =>
    framed ((s.entries i).content.toList.take ((s.entries i).contentLen % 2 ^ 16))

/-- The server with its store in memory. -/
structure ArrayState where
  store : StoreArray
  pending : Fin maxPending → PendingHandshake

def ArrayState.initial : ArrayState := ⟨.initial, fun _ => zeroPending⟩

/-! The table it stands for. -/

theorem length_name_le (e : CacheEntry) : e.name.length ≤ maxKeyLen := by
  have hzero : e.key.toList.get
      ⟨maxKeyLen, by rw [e.key.length_eq]; exact Nat.lt_succ_self _⟩ = 0 := e.terminated
  have hsplit : e.key.toList.take maxKeyLen ++ [0] = e.key.toList := by
    have hlen := e.key.length_eq
    rw [← hzero, List.get_eq_getElem, List.take_append_getElem]
    exact List.take_of_length_le (by omega)
  unfold CacheEntry.name cstr
  rw [← hsplit, List.takeWhile_append]
  split
  · simp
  · exact (length_cstr_le _).trans (List.length_take_le _ _)

def CacheEntry.entry (e : CacheEntry) : CacheKey × Content :=
  (⟨e.name, length_name_le e⟩, ⟨e.data, (List.length_take_le _ _).trans e.contentLen_le⟩)

def StoreArray.table (s : StoreArray) : Keyed.Store CacheKey Content maxEntries where
  entries := s.used.map fun i => (s.entries i).entry
  le_cap := by
    rw [List.length_map]
    exact (List.length_take_le _ _).trans s.count_le

def ArrayState.view (s : ArrayState) : CacheState := ⟨s.store.table, s.pending⟩

/-! One connection. -/

/-- The requests for pending handshakes do not touch the store. -/
def serveArray (s : ArrayState) (f : Frame) (now : Nat) : List UInt8 × ArrayState :=
  match RequestType.ofCode f.type with
  | some .put =>
    (ackReply (storePutArray s.store f.key f.data).1,
      { s with store := (storePutArray s.store f.key f.data).2 })
  | some .get => (storeGetArray s.store f.key, s)
  | _ => ((serveFrame s.view f now).1, { s with pending := (serveFrame s.view f now).2.pending })

def handleArray (s : ArrayState) (inp : List UInt8) (now : Nat) : List UInt8 × ArrayState :=
  match parseFrame inp with
  | some f => serveArray s f now
  | none => ([], s)

/-! What the entries hold after a write. -/

theorem name_setKey (e : CacheEntry) {key : CacheKey} (hkey : 0 ∉ key.1) :
    (e.setKey key).name = key.1 := by
  have hlen := key.2
  have hbuffer : (keyBuffer key).toList
      = key.1 ++ 0 :: List.replicate (maxKeyLen - key.1.length) 0 := by
    have htake : (List.replicate (maxKeyLen + 1) (0 : UInt8)).take
        (maxKeyLen + 1 - key.1.length) = 0 :: List.replicate (maxKeyLen - key.1.length) 0 := by
      rw [List.take_replicate, ← List.replicate_succ]
      congr 1
      omega
    change (key.1 ++ List.replicate (maxKeyLen + 1) 0).take (maxKeyLen + 1) = _
    rw [List.take_append, htake, List.take_of_length_le (by omega)]
  have hplain : ∀ c ∈ key.1, decide (c ≠ 0) = true := fun c hc =>
    decide_eq_true fun hzero => hkey (hzero ▸ hc)
  unfold CacheEntry.name CacheEntry.setKey cstr
  dsimp only
  rw [hbuffer, List.takeWhile_append_of_pos hplain, List.takeWhile_cons_of_neg (by simp),
    List.append_nil]

@[simp] theorem name_setContent (e : CacheEntry) (data : Content) :
    (e.setContent data).name = e.name := rfl

/-- What was behind a shorter content does not count. -/
@[simp] theorem data_setContent (e : CacheEntry) (data : Content) :
    (e.setContent data).data = data.1 := by
  unfold CacheEntry.data CacheEntry.setContent
  simp

theorem entry_setContent (e : CacheEntry) (data : Content) :
    (e.setContent data).entry = (e.entry.1, data) :=
  Prod.ext (Subtype.ext rfl) (Subtype.ext (data_setContent e data))

theorem entry_setKey {key : CacheKey} (hkey : 0 ∉ key.1) (e : CacheEntry) (data : Content) :
    ((e.setKey key).setContent data).entry = (key, data) :=
  Prod.ext (Subtype.ext (name_setKey e hkey)) (Subtype.ext (data_setContent _ data))

/-! The operations on the array are those on the table. -/

section
variable {s : StoreArray} {key : CacheKey}

theorem storeFind_eq (s : StoreArray) (key : CacheKey) :
    storeFind s key = s.used.find? fun i => (s.entries i).entry.1 = key := by
  unfold storeFind
  refine congrArg (fun p => s.used.find? p) (funext fun i => decide_eq_decide.mpr ?_)
  exact ⟨fun h => Subtype.ext h, congrArg Subtype.val⟩

theorem table_get (s : StoreArray) (key : CacheKey) :
    s.table.get key = (storeFind s key).map fun i => (s.entries i).entry.2 := by
  rw [storeFind_eq]
  exact Keyed.lookup_map _ _ _

theorem used_nodup (s : StoreArray) : s.used.Nodup :=
  (List.nodup_finRange _).sublist (List.take_sublist _ _)

theorem length_used (s : StoreArray) : s.used.length = s.count := by
  unfold StoreArray.used
  rw [List.length_take, List.length_finRange, min_eq_left s.count_le]

/-- One entry written, the table is read off with that entry changed. -/
theorem entry_update (s : StoreArray) (i : Fin maxEntries) (e : CacheEntry) :
    (fun j => (Function.update s.entries i e j).entry)
      = Function.update (fun j => (s.entries j).entry) i e.entry :=
  Function.comp_update CacheEntry.entry s.entries i e

theorem storePutArray_table (s : StoreArray) (hkey : 0 ∉ key.1) (data : Content) :
    (storePutArray s key data).1 = (s.table.put key data).1 ∧
      (storePutArray s key data).2.table = (s.table.put key data).2 := by
  have hget := table_get s key
  unfold storePutArray Keyed.Store.put
  split
  · rename_i i hfind
    rw [hfind] at hget
    rw [if_pos (by rw [hget]; rfl)]
    rw [storeFind_eq] at hfind
    have hname : (s.entries i).entry.1 = key := by simpa using List.find?_some hfind
    refine ⟨rfl, Keyed.Store.ext ?_⟩
    change s.used.map _ = Keyed.replace key data (s.used.map _)
    rw [entry_update, entry_setContent, hname]
    exact Keyed.replace_map (fun j => (s.entries j).entry) (used_nodup s) hfind data
  · rename_i hfind
    rw [hfind] at hget
    rw [if_neg (by rw [hget]; simp)]
    have hlength : s.table.entries.length = s.count :=
      (List.length_map _).trans (length_used s)
    by_cases hroom : s.count < maxEntries
    · rw [dif_pos hroom, dif_pos (hlength ▸ hroom)]
      refine ⟨rfl, Keyed.Store.ext ?_⟩
      have hsplit : (List.finRange maxEntries).take (s.count + 1)
          = s.used ++ [⟨s.count, hroom⟩] := by
        rw [List.take_succ_eq_append_getElem (by simpa using hroom), List.getElem_finRange]
        rfl
      have hfresh : (⟨s.count, hroom⟩ : Fin maxEntries) ∉ s.used := by
        have hnodup : ((List.finRange maxEntries).take (s.count + 1)).Nodup :=
          (List.nodup_finRange _).sublist (List.take_sublist _ _)
        rw [hsplit, List.nodup_append] at hnodup
        exact fun hmem => hnodup.2.2 _ hmem _ List.mem_cons_self rfl
      change ((List.finRange maxEntries).take (s.count + 1)).map (fun j =>
          (Function.update s.entries ⟨s.count, hroom⟩
            (((s.entries ⟨s.count, hroom⟩).setKey key).setContent data) j).entry)
        = s.used.map (fun j => (s.entries j).entry) ++ [(key, data)]
      rw [hsplit, entry_update, entry_setKey hkey, List.map_append, List.map_singleton,
        Function.update_self]
      refine congrArg (· ++ _) (List.map_congr_left fun j hj => Function.update_of_ne ?_ _ _)
      exact fun heq => hfresh (heq ▸ hj)
    · rw [dif_neg hroom, dif_neg (hlength ▸ hroom)]
      exact ⟨rfl, rfl⟩

theorem storeGetArray_eq (s : ArrayState) (key : CacheKey) :
    storeGetArray s.store key = handleGet s.view key := by
  have hget : s.view.store.get key
      = (storeFind s.store key).map fun i => (s.store.entries i).entry.2 := table_get s.store key
  unfold storeGetArray handleGet
  rw [hget]
  split
  · rename_i hfind
    rw [hfind]
    rfl
  · rename_i i hfind
    have hlen := (s.store.entries i).contentLen_le
    rw [hfind, Nat.mod_eq_of_lt (by simp at hlen; omega)]
    rfl

end

theorem serveFrame_store {s : CacheState} {f : Frame} {now : Nat}
    (h : RequestType.ofCode f.type ≠ some .put) : (serveFrame s f now).2.store = s.store := by
  unfold serveFrame
  split
  · rename_i hput
    exact absurd hput h
  · rfl
  · unfold handleHandshakeInit
    split
    · split <;> rfl
    · rfl
  · unfold handleHandshakePoll
    split
    · split <;> rfl
    · rfl
  · rfl
  · unfold handleHandshakeRespond
    split
    · split <;> rfl
    · rfl
  · rfl

/-- The server with its store in memory does what the server with the table does. -/
theorem serveArray_view (s : ArrayState) {f : Frame} (hkey : 0 ∉ f.key.1) (now : Nat) :
    (serveArray s f now).1 = (serveFrame s.view f now).1 ∧
      (serveArray s f now).2.view = (serveFrame s.view f now).2 := by
  unfold serveArray
  split
  · rename_i hput
    obtain ⟨hdone, htable⟩ := storePutArray_table s.store hkey f.data
    unfold serveFrame
    rw [hput]
    refine ⟨congrArg ackReply hdone, ?_⟩
    exact congrArg (fun store => (⟨store, s.pending⟩ : CacheState)) htable
  · rename_i hget
    unfold serveFrame
    rw [hget]
    exact ⟨storeGetArray_eq s f.key, rfl⟩
  · rename_i hput _
    refine ⟨rfl, ?_⟩
    have hstore : (serveFrame s.view f now).2.store = s.view.store := serveFrame_store hput
    exact congrArg (fun store => (⟨store, (serveFrame s.view f now).2.pending⟩ : CacheState))
      hstore.symm

theorem handleArray_view (s : ArrayState) (inp : List UInt8) (now : Nat) :
    (handleArray s inp now).1 = (handleConnection s.view inp now).1 ∧
      (handleArray s inp now).2.view = (handleConnection s.view inp now).2 := by
  unfold handleArray handleConnection
  cases hparse : parseFrame inp with
  | none => exact ⟨rfl, rfl⟩
  | some f => exact serveArray_view s (parseFrame_key hparse) now

end AnonSecNet.Cache
