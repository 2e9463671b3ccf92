import AnonSecNet.Cache.History

/-! The table of pending handshakes in every state the cache server can reach. -/
namespace AnonSecNet.Cache
open Octets

/-- The response was posted for the key, and the entry of the key not written since. -/
def Posted (events : List Served) (key : CacheKey) (resp : List UInt8) : Prop :=
  ∃ (r : Nat) (e : Served), events[r]? = some e ∧ e.Posts key resp ∧
    ∀ (n : Nat) (e' : Served), r < n → events[n]? = some e' → ¬ e'.Writes key

/-- `pub` is the public key of the last INIT that was accepted for the key. -/
def Announced (events : List Served) (key : CacheKey) (pub : List UInt8) : Prop :=
  ∃ (r : Nat) (e : Served), events[r]? = some e ∧ e.Inits key pub ∧
    ∀ (n : Nat) (e' : Served), r < n → events[n]? = some e' → ∀ pub', ¬ e'.Inits key pub'

/-- The POLL at `p` returns the response that was posted at `r` for the same key. -/
def Answers (events : List Served) (key : CacheKey) (resp : List UInt8) (r p : Nat) : Prop :=
  r < p ∧ (∃ e : Served, events[r]? = some e ∧ e.Posts key resp) ∧
    (∃ e : Served, events[p]? = some e ∧ e.Returns key resp) ∧
    ∀ (n : Nat) (e : Served), r < n → n < p → events[n]? = some e → ¬ e.Writes key

structure Log.Sound (l : Log) : Prop where
  distinct : ∀ i j, (l.state.pending i).inUse = true → (l.state.pending j).inUse = true →
    (l.state.pending i).key = (l.state.pending j).key → i = j
  bounded : ∀ i, (l.state.pending i).ready = true →
    ecPubkeyLen + 2 ≤ (l.state.pending i).respData.1.length
  announced : ∀ i, (l.state.pending i).inUse = true →
    Announced l.events (l.state.pending i).key (l.state.pending i).rEphemeralPub.toList
  posted : ∀ i, (l.state.pending i).inUse = true → (l.state.pending i).ready = true →
    Posted l.events (l.state.pending i).key (l.state.pending i).respData.1
  answered : ∀ p e key resp, l.events[p]? = some e → e.Returns key resp →
    ∃ r, Answers l.events key resp r p

/-! The history grows. -/

section
variable {events : List Served} {e : Served} {key : CacheKey}

theorem getElem?_snoc {n : Nat} {e' : Served} (h : (events ++ [e])[n]? = some e') :
    events[n]? = some e' ∨ (n = events.length ∧ e' = e) := by
  by_cases hn : n < events.length
  · rw [List.getElem?_append_left hn] at h
    exact .inl h
  · have hlt := (List.getElem?_eq_some_iff.mp h).1
    rw [List.length_append, List.length_singleton] at hlt
    obtain rfl : n = events.length := by omega
    rw [List.getElem?_concat_length] at h
    exact .inr ⟨rfl, (Option.some.inj h).symm⟩

theorem getElem?_keeps {n : Nat} {e' : Served} (h : events[n]? = some e') :
    (events ++ [e])[n]? = some e' := by
  rw [List.getElem?_append_left (List.getElem?_eq_some_iff.mp h).1]
  exact h

theorem Posted.snoc {resp : List UInt8} (h : Posted events key resp) (he : ¬ e.Writes key) :
    Posted (events ++ [e]) key resp := by
  obtain ⟨r, e₀, hr, hposts, hsince⟩ := h
  refine ⟨r, e₀, getElem?_keeps hr, hposts, fun n e' hn h' => ?_⟩
  rcases getElem?_snoc h' with h' | ⟨-, rfl⟩
  · exact hsince n e' hn h'
  · exact he

theorem Posted.last {resp : List UInt8} (he : e.Posts key resp) :
    Posted (events ++ [e]) key resp := by
  refine ⟨events.length, e, List.getElem?_concat_length, he, fun n e' hn h' => ?_⟩
  have hlt := (List.getElem?_eq_some_iff.mp h').1
  rw [List.length_append, List.length_singleton] at hlt
  omega

theorem Announced.snoc {pub : List UInt8} (h : Announced events key pub)
    (he : ∀ pub', ¬ e.Inits key pub') : Announced (events ++ [e]) key pub := by
  obtain ⟨r, e₀, hr, hinits, hsince⟩ := h
  refine ⟨r, e₀, getElem?_keeps hr, hinits, fun n e' hn h' => ?_⟩
  rcases getElem?_snoc h' with h' | ⟨-, rfl⟩
  · exact hsince n e' hn h'
  · exact he

theorem Announced.last {pub : List UInt8} (he : e.Inits key pub) :
    Announced (events ++ [e]) key pub := by
  refine ⟨events.length, e, List.getElem?_concat_length, he, fun n e' hn h' => ?_⟩
  have hlt := (List.getElem?_eq_some_iff.mp h').1
  rw [List.length_append, List.length_singleton] at hlt
  omega

theorem Answers.snoc {resp : List UInt8} {r p : Nat} (h : Answers events key resp r p) :
    Answers (events ++ [e]) key resp r p := by
  obtain ⟨hlt, ⟨e₁, hr, hposts⟩, ⟨e₂, hp, hreturns⟩, hbetween⟩ := h
  refine ⟨hlt, ⟨e₁, getElem?_keeps hr, hposts⟩, ⟨e₂, getElem?_keeps hp, hreturns⟩, ?_⟩
  intro n e' hn hnp h'
  have hshort := (List.getElem?_eq_some_iff.mp hp).1
  rw [List.getElem?_append_left (by omega)] at h'
  exact hbetween n e' hn hnp h'

/-- A POLL that returns what was posted. -/
theorem Posted.answers {resp : List UInt8} (h : Posted events key resp)
    (he : e.Returns key resp) : ∃ r, Answers (events ++ [e]) key resp r events.length := by
  obtain ⟨r, e₀, hr, hposts, hsince⟩ := h
  have hlt := (List.getElem?_eq_some_iff.mp hr).1
  refine ⟨r, hlt, ⟨e₀, getElem?_keeps hr, hposts⟩, ⟨e, List.getElem?_concat_length, he⟩, ?_⟩
  intro n e' hn hnp h'
  rw [List.getElem?_append_left hnp] at h'
  exact hsince n e' hn h'

theorem Served.Writes.key_eq (h : e.Writes key) : e.frame.key = key := by
  rcases h with ⟨_, h⟩ | ⟨_, h⟩ | ⟨_, h⟩ <;> exact h.1.2

theorem Served.Inits.not_posts {pub resp : List UInt8} {key' : CacheKey} (h : e.Inits key pub) :
    ¬ e.Posts key' resp := fun h' => by
  have htype := h.1.1.symm.trans h'.1.1
  cases htype

theorem Served.Inits.not_returns {pub resp : List UInt8} {key' : CacheKey} (h : e.Inits key pub) :
    ¬ e.Returns key' resp := fun h' => by
  have htype := h.1.1.symm.trans h'.1.1
  cases htype

theorem Served.Posts.not_returns {resp resp' : List UInt8} {key' : CacheKey}
    (h : e.Posts key resp) : ¬ e.Returns key' resp' := fun h' => by
  have htype := h.1.1.symm.trans h'.1.1
  cases htype

end

/-! One request. -/

section
variable {l : Log}

/-- No other entry has the key of the slot that is written for it. -/
theorem Log.Sound.others (h : l.Sound) {key : CacheKey} {now : Nat} {i : Fin maxPending}
    (hslot : (pendingFind l.state key).or (pendingFree l.state now) = some i) (j : Fin maxPending)
    (hj : j ≠ i) (huse : (l.state.pending j).inUse = true) : (l.state.pending j).key ≠ key := by
  cases hfind : pendingFind l.state key with
  | none => exact pendingFind_eq_none.mp hfind j huse
  | some i' =>
    rw [hfind, Option.some_or] at hslot
    obtain rfl := Option.some.inj hslot
    obtain ⟨hi, hkey⟩ := pendingFind_eq_some hfind
    exact fun heq => hj (h.distinct j i' huse hi (heq.trans hkey.symm))

/-- One slot is written for `e.frame.key`; what the others hold stays announced and posted. -/
theorem Log.Sound.write (h : l.Sound) {e : Served} {s' : CacheState} {i : Fin maxPending}
    {q : PendingHandshake} (hs' : s'.pending = Function.update l.state.pending i q)
    (hothers : ∀ j, j ≠ i → (l.state.pending j).inUse = true →
      (l.state.pending j).key ≠ e.frame.key)
    (hkey : q.inUse = true → q.key = e.frame.key)
    (hbounded : q.ready = true → ecPubkeyLen + 2 ≤ q.respData.1.length)
    (hannounced : q.inUse = true →
      Announced (l.events ++ [e]) q.key q.rEphemeralPub.toList)
    (hposted : q.inUse = true → q.ready = true → Posted (l.events ++ [e]) q.key q.respData.1)
    (hanswered : ∀ key resp, e.Returns key resp →
      ∃ r, Answers (l.events ++ [e]) key resp r l.events.length) :
    (⟨s', l.events ++ [e]⟩ : Log).Sound := by
  have hself : s'.pending i = q := by rw [hs', Function.update_self]
  have hother : ∀ j, j ≠ i → s'.pending j = l.state.pending j := fun j hj => by
    rw [hs', Function.update_of_ne hj]
  have hkeep : ∀ j, j ≠ i → (l.state.pending j).inUse = true →
      ¬ e.Writes (l.state.pending j).key :=
    fun j hj huse hwrites => hothers j hj huse hwrites.key_eq.symm
  constructor
  · intro j k hj hk heq
    dsimp only at hj hk heq
    by_cases hji : j = i
    · by_cases hki : k = i
      · exact hji.trans hki.symm
      · rw [hji, hself, hother k hki] at heq
        rw [hji, hself] at hj
        rw [hother k hki] at hk
        exact absurd (heq.symm.trans (hkey hj)) (hothers k hki hk)
    · by_cases hki : k = i
      · rw [hki, hself, hother j hji] at heq
        rw [hki, hself] at hk
        rw [hother j hji] at hj
        exact absurd (heq.trans (hkey hk)) (hothers j hji hj)
      · rw [hother j hji] at hj heq
        rw [hother k hki] at hk heq
        exact h.distinct j k hj hk heq
  · intro j hready
    dsimp only at hready ⊢
    by_cases hji : j = i
    · rw [hji, hself] at hready ⊢
      exact hbounded hready
    · rw [hother j hji] at hready ⊢
      exact h.bounded j hready
  · intro j hj
    dsimp only at hj ⊢
    by_cases hji : j = i
    · rw [hji, hself] at hj ⊢
      exact hannounced hj
    · rw [hother j hji] at hj ⊢
      exact (h.announced j hj).snoc fun pub' hinit => hkeep j hji hj (.inl ⟨pub', hinit⟩)
  · intro j hj hready
    dsimp only at hj hready ⊢
    by_cases hji : j = i
    · rw [hji, hself] at hj hready ⊢
      exact hposted hj hready
    · rw [hother j hji] at hj hready ⊢
      exact (h.posted j hj hready).snoc (hkeep j hji hj)
  · intro p e' key resp hp hreturns
    rcases getElem?_snoc hp with hp | ⟨rfl, rfl⟩
    · obtain ⟨r, hr⟩ := h.answered p e' key resp hp hreturns
      exact ⟨r, hr.snoc⟩
    · exact hanswered key resp hreturns

/-- A request that writes no entry. -/
theorem Log.Sound.quiet (h : l.Sound) {e : Served} {s' : CacheState}
    (hs' : s'.pending = l.state.pending) (he : ∀ key, ¬ e.Writes key) :
    (⟨s', l.events ++ [e]⟩ : Log).Sound := by
  constructor
  · dsimp only
    rw [hs']
    exact h.distinct
  · dsimp only
    rw [hs']
    exact h.bounded
  · intro i huse
    dsimp only at huse ⊢
    rw [hs'] at huse ⊢
    exact (h.announced i huse).snoc fun pub hinit => he _ (.inl ⟨pub, hinit⟩)
  · intro i huse hready
    dsimp only at huse hready ⊢
    rw [hs'] at huse hready ⊢
    exact (h.posted i huse hready).snoc (he _)
  · intro p e' key resp hp hreturns
    rcases getElem?_snoc hp with hp | ⟨rfl, rfl⟩
    · obtain ⟨r, hr⟩ := h.answered p e' key resp hp hreturns
      exact ⟨r, hr.snoc⟩
    · exact absurd (.inr (.inr ⟨resp, hreturns⟩)) (he key)

theorem Log.Sound.effect (h : l.Sound) {f : Frame} {now : Nat} {reply : List UInt8}
    {s' : CacheState} (heff : PendingEffect l.state f now reply s'.pending) :
    (⟨s', l.events ++ [⟨f, reply⟩]⟩ : Log).Sound := by
  generalize hs' : s'.pending = table at heff
  cases heff with
  | quiet hquiet => exact h.quiet hs' hquiet
  | init i hdata hinit hslot =>
    refine h.write hs' (h.others hslot) (fun _ => rfl) (fun hready => Bool.noConfusion hready)
      (fun _ => Announced.last hinit) (fun _ hready => Bool.noConfusion hready) ?_
    intro key resp hreturns
    exact absurd hreturns hinit.not_returns
  | respond i hdata hposts hfind =>
    obtain ⟨huse, hkey⟩ := pendingFind_eq_some hfind
    have hslot : (pendingFind l.state f.key).or (pendingFree l.state now) = some i := by
      rw [hfind, Option.some_or]
    refine h.write hs' (h.others hslot) (fun _ => hkey) (fun _ => hdata.1) ?_ ?_ ?_
    · intro _
      exact (h.announced i huse).snoc fun pub hinit => hinit.not_posts hposts
    · intro _ _
      dsimp only
      rw [hkey]
      exact Posted.last hposts
    · intro key resp hreturns
      exact absurd hreturns hposts.not_returns
  | poll i hready hreturns hfind =>
    obtain ⟨huse, hkey⟩ := pendingFind_eq_some hfind
    have hslot : (pendingFind l.state f.key).or (pendingFree l.state now) = some i := by
      rw [hfind, Option.some_or]
    refine h.write hs' (h.others hslot) (fun hfreed => Bool.noConfusion hfreed)
      (fun _ => h.bounded i hready) (fun hfreed => Bool.noConfusion hfreed)
      (fun hfreed => Bool.noConfusion hfreed) ?_
    intro key resp hreturns'
    obtain rfl : f.key = key := hreturns'.1.2
    have hbody := framed_inj (hreturns.2.symm.trans hreturns'.2)
    obtain rfl := (List.cons.inj hbody).2
    have hposted := h.posted i huse hready
    rw [hkey] at hposted
    exact hposted.answers hreturns

theorem Log.Sound.step (h : l.Sound) (c : Connection) : (l.step c).Sound := by
  unfold Log.step
  split
  · exact h.effect (serveFrame_effect ..)
  · exact h

theorem initial_sound : Log.initial.Sound := by
  constructor
  · intro i j huse
    exact Bool.noConfusion huse
  · intro i hready
    exact Bool.noConfusion hready
  · intro i huse
    exact Bool.noConfusion huse
  · intro i huse
    exact Bool.noConfusion huse
  · intro p e key resp hp
    simp [Log.initial] at hp

/-! Every run. -/

theorem run_sound (cs : List Connection) (h : l.Sound) : (Machine.run Log.step cs l).Sound := by
  induction cs generalizing l with
  | nil => exact h
  | cons c cs ih => exact ih (h.step c)

/-- The log of a server that has served the connections. -/
def logOf (cs : List Connection) : Log := Machine.run Log.step cs .initial

theorem logOf_state (cs : List Connection) :
    (logOf cs).state = Machine.run serve cs .initial := by
  have hstep : ∀ (l : Log) (c : Connection), (l.step c).state = serve l.state c := by
    intro l c
    unfold Log.step serve handleConnection
    cases parseFrame c.inp <;> rfl
  have hrun : ∀ (cs : List Connection) (l : Log),
      (Machine.run Log.step cs l).state = Machine.run serve cs l.state := by
    intro cs
    induction cs with
    | nil => exact fun _ => rfl
    | cons c cs ih =>
      intro l
      exact (ih (l.step c)).trans (congrArg (Machine.run serve cs) (hstep l c))
  exact hrun cs .initial

theorem logOf_sound (cs : List Connection) : (logOf cs).Sound := run_sound cs initial_sound

/-- A response is handed out once. -/
theorem Answers.unique {events : List Served} {key key' : CacheKey} {resp resp' : List UInt8}
    {r p p' : Nat} (h : Answers events key resp r p) (h' : Answers events key' resp' r p') :
    p = p' := by
  have hnot : ∀ {key key' resp resp' p p'}, Answers events key resp r p →
      Answers events key' resp' r p' → ¬ p < p' := by
    rintro key key' resp resp' p p' ⟨hrp, ⟨e, hr, hposts⟩, ⟨e₂, hp, hreturns⟩, -⟩
      ⟨-, ⟨e', hr', hposts'⟩, -, hbetween⟩ hlt
    obtain rfl := Option.some.inj (hr.symm.trans hr')
    obtain rfl : key = key' := hposts.1.2.symm.trans hposts'.1.2
    exact hbetween p e₂ hrp hlt hp (.inr (.inr ⟨resp, hreturns⟩))
  have h₁ := hnot h h'
  have h₂ := hnot h' h
  omega

/-- The table in every state a run reaches, and the requests of the run. -/
theorem pending_table (cs : List Connection) :
    (∀ i j, ((logOf cs).state.pending i).inUse = true → ((logOf cs).state.pending j).inUse = true →
      ((logOf cs).state.pending i).key = ((logOf cs).state.pending j).key → i = j) ∧
    (∀ i, ((logOf cs).state.pending i).ready = true →
      ecPubkeyLen + 2 ≤ ((logOf cs).state.pending i).respData.1.length ∧
        ((logOf cs).state.pending i).respData.1.length ≤ maxRespData) ∧
    (∀ p e key resp, (logOf cs).events[p]? = some e → e.Returns key resp →
      ∃ r, Answers (logOf cs).events key resp r p) ∧
    (∀ r p p' key key' resp resp', Answers (logOf cs).events key resp r p →
      Answers (logOf cs).events key' resp' r p' → p = p') ∧
    ∀ f now, RequestType.ofCode f.type = some .heartbeat →
      ∃ listed : List PendingHandshake,
        (serveFrame (logOf cs).state f now).1
            = framed (UInt8.ofNat listed.length :: listed.flatMap heartbeatEntry) ∧
          ∀ q ∈ listed, (∃ i, (logOf cs).state.pending i = q) ∧ q.inUse = true ∧
            q.ready = false := by
  have h := logOf_sound cs
  refine ⟨h.distinct, fun i hready => ⟨h.bounded i hready, ?_⟩, h.answered, ?_, ?_⟩
  · exact ((logOf cs).state.pending i).respData.2
  · intro r p p' key key' resp resp' hp hp'
    exact hp.unique hp'
  · intro f now htype
    refine ⟨(logOf cs).state.listed, ?_, fun q => mem_listed⟩
    unfold serveFrame
    rw [htype, ← handleHeartbeat_listed]

/-! The states a server can be in. -/

def Reachable (s : CacheState) : Prop := ∃ cs, Machine.run serve cs .initial = s

theorem Reachable.serve {s : CacheState} (h : Reachable s) (c : Connection) :
    Reachable (Cache.serve s c) := by
  obtain ⟨cs, rfl⟩ := h
  exact ⟨cs ++ [c], Machine.run_append Cache.serve cs [c] .initial⟩

theorem Reachable.distinct {s : CacheState} (h : Reachable s) {i j : Fin maxPending}
    (hi : (s.pending i).inUse = true) (hj : (s.pending j).inUse = true)
    (hkey : (s.pending i).key = (s.pending j).key) : i = j := by
  obtain ⟨cs, rfl⟩ := h
  rw [← logOf_state] at hi hj hkey
  exact (logOf_sound cs).distinct i j hi hj hkey

end

/-! A handshake among the requests of others. -/

/-- No handshake of the key has its response. -/
def Idle (table : Fin maxPending → PendingHandshake) (key : CacheKey) : Prop :=
  ∀ i, (table i).inUse = true → (table i).key = key → (table i).ready = false

/-- The request takes the entry of the key: it is an INIT that is given the slot, or a POLL that is
handed the response. -/
def Connection.Takes (c : Connection) (s : CacheState) (key : CacheKey) : Prop :=
  ∃ f i, parseFrame c.inp = some f ∧ pendingFind s key = some i ∧
    (RequestType.ofCode f.type = some .handshakeInit ∧ f.data.1.length = ecPubkeyLen ∧
        (pendingFind s f.key).or (pendingFree s c.now) = some i ∨
      RequestType.ofCode f.type = some .handshakePoll ∧ f.key = key ∧ (s.pending i).ready = true)

/-- The request is a RESPOND for the key that is accepted. -/
def Connection.Posts (c : Connection) (s : CacheState) (key : CacheKey) (resp : List UInt8) :
    Prop :=
  ∃ f, parseFrame c.inp = some f ∧ (⟨f, (serveFrame s f c.now).1⟩ : Served).Posts key resp

/-- What was posted last for the key, behind a request that may have posted something. -/
def Connection.LastPost (c : Connection) (s : CacheState) (key : CacheKey) (said said' : List UInt8) :
    Prop :=
  c.Posts s key said' ∨ (∀ resp, ¬ c.Posts s key resp) ∧ said' = said

section
variable {s : CacheState} {key : CacheKey}

theorem Idle.update {table : Fin maxPending → PendingHandshake} {i : Fin maxPending}
    {q : PendingHandshake} (h : ∀ j, j ≠ i → (table j).inUse = true → (table j).key = key →
      (table j).ready = false)
    (hq : q.inUse = true → q.key = key → q.ready = false) :
    Idle (Function.update table i q) key := by
  intro j
  by_cases hj : j = i
  · rw [hj, Function.update_self]
    exact hq
  · rw [Function.update_of_ne hj]
    exact h j hj

/-- No other slot has the key. -/
theorem Reachable.idle_update (h : Reachable s) {i : Fin maxPending} {q : PendingHandshake}
    (hfind : pendingFind s key = some i) (hq : q.inUse = true → q.ready = false) :
    Idle (Function.update s.pending i q) key := by
  obtain ⟨huse, hkey⟩ := pendingFind_eq_some hfind
  refine .update (fun j hj hjuse hjkey => ?_) fun hin _ => hq hin
  exact absurd (h.distinct hjuse huse (hjkey.trans hkey.symm)) hj

theorem pendingFind_idle (h : Idle s.pending key) {i : Fin maxPending}
    (hfind : pendingFind s key = some i) : (s.pending i).ready = false :=
  h i (pendingFind_eq_some hfind).1 (pendingFind_eq_some hfind).2

theorem handleHandshakePoll_waits (h : Idle s.pending key) :
    handleHandshakePoll s key = ([0x00], s) := by
  unfold handleHandshakePoll
  split
  · rename_i i hfind
    exact if_neg fun hready => Bool.noConfusion ((pendingFind_idle h hfind).symm.trans hready)
  · rfl

/-- Only a RESPOND for the key makes a handshake of it ready. -/
theorem Idle.serve (h : Idle s.pending key) {c : Connection}
    (hc : ∀ resp, ¬ c.Posts s key resp) : Idle (Cache.serve s c).pending key := by
  unfold Cache.serve handleConnection
  split
  · rename_i f hf
    have heff := serveFrame_effect s f c.now
    have hposts : ∀ resp, ¬ (⟨f, (serveFrame s f c.now).1⟩ : Served).Posts key resp :=
      fun resp hresp => hc resp ⟨f, hf, hresp⟩
    generalize (serveFrame s f c.now).1 = reply at heff hposts
    generalize (serveFrame s f c.now).2.pending = table at heff ⊢
    cases heff with
    | quiet hquiet => exact h
    | init i hdata hinit hslot => exact .update (fun j _ => h j) fun _ _ => rfl
    | respond i hdata hresp hfind =>
      refine .update (fun j _ => h j) fun _ hkey => ?_
      have hslot := (pendingFind_eq_some hfind).2
      exact absurd (hslot.symm.trans hkey ▸ hresp) (hposts _)
    | poll i hready hreturns hfind => exact .update (fun j _ => h j) fun huse => nomatch huse
  · exact h

/-- The slot of a response that was handed out is free, and no other has its key. -/
theorem handleHandshakePoll_idle (hreach : Reachable s) {i : Fin maxPending}
    (hfind : pendingFind s key = some i) (hready : (s.pending i).ready = true) :
    Idle (handleHandshakePoll s key).2.pending key := by
  unfold handleHandshakePoll
  rw [hfind]
  dsimp only
  rw [if_pos hready]
  exact hreach.idle_update hfind fun hfreed => nomatch hfreed

/-- An entry that is taken leaves no handshake of its key that has a response. -/
theorem Connection.Takes.idle {c : Connection} (h : c.Takes s key) (hreach : Reachable s) :
    Idle (Cache.serve s c).pending key := by
  obtain ⟨f, i, hf, hfind, htakes⟩ := h
  unfold Cache.serve handleConnection
  rw [hf]
  dsimp only
  unfold serveFrame
  cases htakes with
  | inl hinit =>
    obtain ⟨htype, hdata, hslot⟩ := hinit
    rw [htype]
    dsimp only
    unfold handleHandshakeInit
    rw [dif_pos hdata, hslot]
    exact hreach.idle_update hfind fun _ => rfl
  | inr hpoll =>
    obtain ⟨htype, rfl, hready⟩ := hpoll
    rw [htype]
    exact handleHandshakePoll_idle hreach hfind hready

theorem HoldsPending.of_pending {s' : CacheState} {p : PendingHandshake} (h : HoldsPending s p)
    (hs' : s'.pending = s.pending) : HoldsPending s' p := by
  obtain ⟨i, hfind, hp⟩ := h
  refine ⟨i, ?_, (congrFun hs' i).trans hp⟩
  unfold pendingFind at hfind ⊢
  rw [hs']
  exact hfind

theorem Connection.Posts.unique {c : Connection} {resp resp' : List UInt8}
    (h : c.Posts s key resp) (h' : c.Posts s key resp') : resp = resp' := by
  obtain ⟨f, hf, hposts⟩ := h
  obtain ⟨f', hf', hposts'⟩ := h'
  obtain rfl := Option.some.inj (hf.symm.trans hf')
  exact hposts.2.1.symm.trans hposts'.2.1

theorem Connection.LastPost.unique {c : Connection} {said resp resp' : List UInt8}
    (h : c.LastPost s key said resp) (h' : c.LastPost s key said resp') : resp = resp' := by
  obtain h | ⟨hnone, rfl⟩ := h
  · obtain h' | ⟨hnone', -⟩ := h'
    · exact h.unique h'
    · exact absurd h (hnone' resp)
  · obtain h' | ⟨-, rfl⟩ := h'
    · exact absurd h' (hnone resp')
    · rfl

/-- The requests of others leave the entry with the response that was posted last, if none takes
it. -/
theorem HoldsPending.undisturbed {p : PendingHandshake} {c : Connection} (h : HoldsPending s p)
    (hready : p.ready = true) (htakes : ¬ c.Takes s p.key) :
    ∃ q, HoldsPending (Cache.serve s c) q ∧ q.key = p.key ∧ q.ready = true ∧
      c.LastPost s p.key p.respData.1 q.respData.1 := by
  have hholds := h
  obtain ⟨i, hfind, hp⟩ := hholds
  have hother : ∀ {j q}, j ≠ i → q.key ≠ p.key → HoldsPending (s.setPending j q) p := fun hj hq =>
    ⟨i, pendingFind_setPending_of_ne hfind hj fun heq => absurd heq hq,
      (pending_setPending_of_ne hj.symm _).trans hp⟩
  have hstays : (∀ resp, ¬ c.Posts s p.key resp) → HoldsPending (Cache.serve s c) p →
      ∃ q, HoldsPending (Cache.serve s c) q ∧ q.key = p.key ∧ q.ready = true ∧
        c.LastPost s p.key p.respData.1 q.respData.1 := fun hnone hsame =>
    ⟨p, hsame, rfl, hready, .inr ⟨hnone, rfl⟩⟩
  cases hf : parseFrame c.inp with
  | none =>
    refine hstays (fun resp ⟨f, hf', _⟩ => nomatch hf.symm.trans hf') ?_
    unfold Cache.serve handleConnection
    rw [hf]
    exact h
  | some f =>
    have hslots : ∀ {j}, pendingFind s f.key = some j → f.key ≠ p.key →
        j ≠ i ∧ (s.pending j).key ≠ p.key := fun hfind' hkey =>
      ⟨fun heq => hkey ((pendingFind_eq_some hfind').2.symm.trans
        (heq ▸ (pendingFind_eq_some hfind).2)), (pendingFind_eq_some hfind').2 ▸ hkey⟩
    have hposts : ∀ resp, c.Posts s p.key resp ↔
        (⟨f, (Cache.serveFrame s f c.now).1⟩ : Served).Posts p.key resp := fun resp =>
      ⟨fun ⟨f', hf', h'⟩ => Option.some.inj (hf'.symm.trans hf) ▸ h', fun h' => ⟨f, hf, h'⟩⟩
    have hserve : Cache.serve s c = (Cache.serveFrame s f c.now).2 := by
      unfold Cache.serve handleConnection
      rw [hf]
    have heff := Cache.serveFrame_effect s f c.now
    unfold Connection.LastPost at hstays ⊢
    simp only [hposts, hserve] at hstays ⊢
    generalize (Cache.serveFrame s f c.now).1 = reply at heff hstays ⊢
    generalize (Cache.serveFrame s f c.now).2 = s' at heff hstays ⊢
    generalize htable : s'.pending = table at heff
    cases heff with
    | quiet hquiet =>
      exact hstays (fun resp hresp => hquiet p.key (.inr (.inl ⟨resp, hresp⟩)))
        (h.of_pending htable)
    | init j hdata hinit hslot =>
      have hj : j ≠ i := by
        rintro rfl
        exact htakes ⟨f, j, hf, hfind, .inl ⟨hinit.1.1, hdata, hslot⟩⟩
      have hkey : f.key ≠ p.key := by
        intro heq
        rw [heq, hfind, Option.some_or] at hslot
        exact hj (Option.some.inj hslot).symm
      exact hstays (fun _ => hinit.not_posts) ((hother hj hkey).of_pending htable)
    | respond j hdata hresp hfind' =>
      by_cases hkey : f.key = p.key
      · rw [hkey, hfind] at hfind'
        obtain rfl := Option.some.inj hfind'
        have hwritten : HoldsPending (s.setPending i
            { s.pending i with respData := ⟨f.data.1, hdata.2⟩, ready := true })
            { s.pending i with respData := ⟨f.data.1, hdata.2⟩, ready := true } := by
          refine ⟨i, pendingFind_setPending_self (fun j hj => ?_) ?_, pending_setPending_self ..⟩
          · exact Option.some.inj (hj.symm.trans ((pendingFind_eq_some hfind).2 ▸ hfind))
          · exact ⟨(pendingFind_eq_some hfind).1, rfl⟩
        exact ⟨_, hwritten.of_pending htable, (pendingFind_eq_some hfind).2, rfl,
          .inl (hkey ▸ hresp)⟩
      · obtain ⟨hj, hslot⟩ := hslots hfind' hkey
        refine hstays (fun resp hresp' => hkey hresp'.1.2) ?_
        refine HoldsPending.of_pending (hother hj ?_) htable
        exact hslot
    | poll j hpoll hreturns hfind' =>
      have hkey : f.key ≠ p.key := by
        intro heq
        rw [heq, hfind] at hfind'
        obtain rfl := Option.some.inj hfind'
        exact htakes ⟨f, i, hf, hfind, .inr ⟨hreturns.1.1, heq, hpoll⟩⟩
      obtain ⟨hj, hslot⟩ := hslots hfind' hkey
      refine hstays (fun resp hresp => hresp.not_returns hreturns) ?_
      refine HoldsPending.of_pending (hother hj ?_) htable
      exact hslot

end
end AnonSecNet.Cache
