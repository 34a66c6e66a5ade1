import ChronoShift.Net.RelayNetwork
import ChronoShift.Net.RelayRate
import ChronoShift.ToMathlib.Records

/-!
# Requests of one originator

`send_relay` numbers the requests of a node with one counter for all of its targets. The counter is
not saved: after a restart it starts at zero again, while the nodes that have admitted requests keep
the highest number they have seen (`app.rs`, `net/relay.rs`).

* `RelayVerifier.admitted_eq_records`: of the messages of one key, those are admitted that have a
  higher number than all before them, in whatever order the messages come;
* `RelayVerifier.admitted_restarts`: after a restart the requests are refused until they have caught
  up with the numbers of all process runs before.
-/

namespace ChronoShift

open ToMathlib

namespace RelayVerifier

variable {v : RelayVerifier} {keyHex : String} {c : RelayCheck} {seen calls : List RelayCheck}

/-! ## What a verifier knows of a key -/

/-- A window is a new one, or the one in the table, which has not run out. -/
theorem window_cases (v : RelayVerifier) (keyHex : String) (now : ℕ) :
    v.window keyHex now = (now, 0) ∨ v.rate.lookup keyHex = some (v.window keyHex now) ∧
      absDiff now (v.window keyHex now).1 < relayRateWindowSecs := by
  rw [window]
  cases hentry : v.trimmedRate.lookup keyHex with
  | none =>
    rw [Option.getD_none, ite_self]
    exact .inl rfl
  | some entry =>
    have hrate : v.rate.lookup keyHex = some entry := by
      rw [trimmedRate] at hentry
      split at hentry
      · cases hentry
      · exact hentry
    rw [Option.getD_some]
    split
    next => exact .inl rfl
    next hin => exact .inr ⟨hrate, not_le.mp hin⟩

/-- What the tables hold of a key, when the calls for it so far are `seen`: one of the nonces, which
is not below any of them, and a window whose messages are among them. -/
structure Tracks (v : RelayVerifier) (keyHex : String) (seen : List RelayCheck) : Prop where
  last : ∀ last, v.lastNonce.lookup keyHex = some last → ∃ b ∈ seen, b.nonce = last
  remembers : ∀ b ∈ seen, v.Remembers keyHex b.nonce
  counted : ∀ start count, v.rate.lookup keyHex = some (start, count) →
    ∃ cur : List ℕ, cur.Sublist (seen.map RelayCheck.now) ∧ cur.length = count ∧ 0 < count ∧
      ∀ t ∈ cur, start ≤ t

theorem tracks_new : new.Tracks keyHex [] where
  last _ h := by cases h
  remembers _ h := absurd h List.not_mem_nil
  counted _ _ h := by cases h

/-- No more messages come in one window than are admitted: any 61 of them, in order, span at least
60 seconds. -/
def Unhurried (times : List ℕ) : Prop :=
  ∀ burst : List ℕ, burst.Sublist times → burst.length = relayMaxPerWindow + 1 →
    ∀ first last, burst.head? = some first → burst.getLast? = some last →
      first + relayRateWindowSecs ≤ last

/-- The tables know the highest nonce of the key. -/
theorem Tracks.forall_last_lt_iff (h : v.Tracks keyHex seen) (nonce : ℕ) :
    (∀ last, v.lastNonce.lookup keyHex = some last → last < nonce) ↔
      ∀ b ∈ seen, b.nonce < nonce := by
  constructor
  · intro hlast b hb
    obtain ⟨last, hlookup, hle⟩ := h.remembers b hb
    exact hle.trans_lt (hlast last hlookup)
  · intro hseen last hlookup
    obtain ⟨b, hb, rfl⟩ := h.last last hlookup
    exact hseen b hb

/-- The rate of unhurried messages is never exceeded. -/
theorem Tracks.window_lt (h : v.Tracks keyHex seen) {now : ℕ}
    (hbefore : ∀ b ∈ seen, b.now ≤ now)
    (hrate : Unhurried (seen.map RelayCheck.now ++ [now])) :
    (v.window keyHex now).2 < relayMaxPerWindow := by
  by_contra hfull
  rcases v.window_cases keyHex now with hnew | ⟨hlookup, hin⟩
  · rw [hnew] at hfull
    exact hfull (Nat.zero_lt_succ 59)
  obtain ⟨cur, hcur, hlen, -, hstart⟩ := h.counted _ _ hlookup
  have htake : (cur.take relayMaxPerWindow).length = relayMaxPerWindow := by
    rw [List.length_take, hlen]
    exact min_eq_left (not_lt.mp hfull)
  -- the messages of the window, with the one that comes now, are too many
  obtain ⟨first, hfirst⟩ : ∃ first, (cur.take relayMaxPerWindow).head? = some first := by
    rw [← Option.isSome_iff_exists, List.isSome_head?, ← List.length_pos_iff, htake]
    decide
  have hmem : first ∈ cur := List.mem_of_mem_take (List.mem_of_head? hfirst)
  have hspan := hrate (cur.take relayMaxPerWindow ++ [now])
    (((List.take_sublist _ _).trans hcur).append_right [now])
    (by rw [List.length_append, htake]; rfl) first now
    (by rw [List.head?_append, hfirst]; rfl) (List.getLast?_concat ..)
  obtain ⟨b, hb, hbnow⟩ := List.mem_map.mp (hcur.subset hmem)
  have hle : (v.window keyHex now).1 ≤ first := hstart first hmem
  have hnow : first ≤ now := hbnow ▸ hbefore b hb
  rw [absDiff] at hin
  split at hin <;> omega

/-! ## One call -/

/-- A call for another key changes nothing of this one, unless it clears the windows. -/
theorem Tracks.check_other (h : v.Tracks keyHex seen) (hkey : c.keyHex ≠ keyHex)
    (hroom : (v.checkCall c).1 = .ok () → v.lastNonce.entries.length < maxRelayTracked) :
    (v.checkCall c).2.Tracks keyHex seen := by
  have hnonce : (v.checkCall c).2.lastNonce.lookup keyHex = v.lastNonce.lookup keyHex := by
    by_cases hok : (v.checkCall c).1 = .ok ()
    · have htrim : v.trimmedNonce = v.lastNonce := if_neg (not_le.mpr (hroom hok))
      rw [checkCall, lastNonce_check_of_ok hok, htrim, AList.lookup_insert_ne (Ne.symm hkey)]
    · rw [checkCall, lastNonce_check_of_ne_ok hok]
  -- the windows may be cleared, which only lets more in
  have htrimmed : ∀ entry, v.trimmedRate.lookup keyHex = some entry →
      v.rate.lookup keyHex = some entry := by
    intro entry hentry
    rw [trimmedRate] at hentry
    split at hentry
    · cases hentry
    · exact hentry
  refine ⟨fun last hlast => h.last last (hnonce ▸ hlast),
    fun b hb => (h.remembers b hb).check hroom,
    fun start count hcount => h.counted start count ?_⟩
  obtain ⟨e, heq⟩ | ⟨e, -, heq⟩ | ⟨-, -, -, heq⟩ :=
    v.check_cases c.keyHex c.nonce c.timestamp c.now
  · rwa [checkCall, heq] at hcount
  · rw [checkCall, heq] at hcount
    exact htrimmed _ ((AList.lookup_insert_ne (Ne.symm hkey)).symm.trans hcount)
  · rw [checkCall, heq] at hcount
    exact htrimmed _ ((AList.lookup_insert_ne (Ne.symm hkey)).symm.trans hcount)

/-- A message of the key that is in time and within its rate is admitted if its nonce is higher than
all before. -/
theorem Tracks.check_ok_iff (h : v.Tracks c.keyHex seen) (hbefore : ∀ b ∈ seen, b.now ≤ c.now)
    (hrate : Unhurried (seen.map RelayCheck.now ++ [c.now]))
    (htime : absDiff c.now c.timestamp ≤ relayMaxAgeSecs) :
    (v.checkCall c).1 = .ok () ↔ ∀ b ∈ seen, b.nonce < c.nonce := by
  rw [checkCall, RelayVerifier.check_ok_iff, h.forall_last_lt_iff]
  exact and_iff_left ⟨htime, h.window_lt hbefore hrate⟩

/-- The window after an admitted call counts its message. -/
theorem Tracks.counted_of_ok (h : v.Tracks c.keyHex seen) (hbefore : ∀ b ∈ seen, b.now ≤ c.now)
    (hok : (v.checkCall c).1 = .ok ()) {start count : ℕ}
    (hlookup : (v.checkCall c).2.rate.lookup c.keyHex = some (start, count)) :
    ∃ cur : List ℕ, cur.Sublist ((seen ++ [c]).map RelayCheck.now) ∧ cur.length = count ∧
      0 < count ∧ ∀ t ∈ cur, start ≤ t := by
  rw [List.map_append]
  obtain ⟨e, heq⟩ | ⟨e, -, heq⟩ | ⟨-, -, -, heq⟩ :=
    v.check_cases c.keyHex c.nonce c.timestamp c.now
  · rw [checkCall, heq] at hok
    cases hok
  · rw [checkCall, heq] at hok
    cases hok
  rw [checkCall, heq] at hlookup
  cases (AList.lookup_insert _).symm.trans hlookup
  rcases v.window_cases c.keyHex c.now with hnew | ⟨hold, -⟩
  · rw [hnew]
    refine ⟨[c.now], List.sublist_append_right _ _, rfl, Nat.one_pos, ?_⟩
    exact List.forall_mem_singleton.mpr le_rfl
  · obtain ⟨cur, hcur, hlen, hpos, hstart⟩ := h.counted _ _ hold
    refine ⟨cur ++ [c.now], hcur.append_right _, ?_, Nat.succ_pos _, fun t ht => ?_⟩
    · rw [List.length_append, hlen]
      rfl
    · rcases List.mem_append.mp ht with ht | ht
      · exact hstart t ht
      -- the window has started with a message
      · obtain ⟨first, hfirst⟩ := List.exists_mem_of_length_pos (hlen ▸ hpos)
        obtain ⟨b, hb, rfl⟩ := List.mem_map.mp (hcur.subset hfirst)
        rw [List.mem_singleton.mp ht]
        exact (hstart _ hfirst).trans (hbefore b hb)

theorem Tracks.check (h : v.Tracks c.keyHex seen) (hbefore : ∀ b ∈ seen, b.now ≤ c.now)
    (hrate : Unhurried (seen.map RelayCheck.now ++ [c.now]))
    (htime : absDiff c.now c.timestamp ≤ relayMaxAgeSecs)
    (hroom : (v.checkCall c).1 = .ok () → v.lastNonce.entries.length < maxRelayTracked) :
    (v.checkCall c).2.Tracks c.keyHex (seen ++ [c]) := by
  by_cases hok : (v.checkCall c).1 = .ok ()
  · refine ⟨fun last hlast => ?_, fun b hb => ?_, fun _ _ => h.counted_of_ok hbefore hok⟩
    · rw [checkCall, lastNonce_check_of_ok hok, AList.lookup_insert] at hlast
      exact ⟨c, List.mem_append_right _ (List.mem_singleton_self c), Option.some.inj hlast⟩
    · rcases List.mem_append.mp hb with hb | hb
      · exact (h.remembers b hb).check hroom
      · rw [List.mem_singleton.mp hb]
        exact remembers_of_ok hok
  · have hwindow := h.window_lt hbefore hrate
    have hsame : (v.checkCall c).2 = v := by
      obtain ⟨e, heq⟩ | ⟨e, hfull, -⟩ | ⟨-, -, -, heq⟩ :=
        v.check_cases c.keyHex c.nonce c.timestamp c.now
      · rw [checkCall, heq]
      · exact absurd hwindow (not_lt.mpr hfull)
      · exact absurd (congrArg Prod.fst heq) hok
    -- it is refused because the nonce is not new
    have hold : v.Remembers c.keyHex c.nonce := by
      by_contra hnot
      refine hok ((v.check_ok_iff _ _ _ _).mpr ⟨fun last hlast => ?_, htime, hwindow⟩)
      exact not_le.mp fun hle => hnot ⟨last, hlast, hle⟩
    rw [hsame]
    refine ⟨fun last hlast => ?_, fun b hb => ?_, fun start count hlookup => ?_⟩
    · obtain ⟨b, hb, hnonce⟩ := h.last last hlast
      exact ⟨b, List.mem_append_left _ hb, hnonce⟩
    · rcases List.mem_append.mp hb with hb | hb
      · exact h.remembers b hb
      · rwa [List.mem_singleton.mp hb]
    · obtain ⟨cur, hcur, hcur'⟩ := h.counted start count hlookup
      rw [List.map_append]
      exact ⟨cur, hcur.trans (List.sublist_append_left _ _), hcur'⟩

/-! ## Sequences of calls -/

theorem keepsNonces_of_keys {before : List String} (hbefore : ∀ k ∈ v.lastNonce, k ∈ before)
    (hkeys : (before ++ calls.map RelayCheck.keyHex).dedup.length < maxRelayTracked) :
    v.KeepsNonces calls := by
  induction calls generalizing v before with
  | nil => trivial
  | cons c calls ih =>
    have hlen : v.lastNonce.entries.length < maxRelayTracked := by
      have hlength : v.lastNonce.entries.length = v.lastNonce.keys.length := by
        rw [AList.keys, List.keys, List.length_map]
      rw [hlength]
      refine ((v.lastNonce.keys_nodup.subperm fun k hk => ?_).length_le).trans_lt hkeys
      exact List.mem_dedup.mpr (List.mem_append_left _ (hbefore k (AList.mem_keys.mpr hk)))
    refine ⟨fun _ => hlen, @ih _ (before ++ [c.keyHex]) (fun k hk => ?_) ?_⟩
    · by_cases hok : (v.checkCall c).1 = .ok ()
      · rw [checkCall, lastNonce_check_of_ok hok] at hk
        rcases (AList.mem_insert _).mp hk with rfl | hk
        · exact List.mem_append_right _ (List.mem_singleton_self _)
        · exact List.mem_append_left _ (hbefore k (mem_of_mem_trimmedNonce hk))
      · rw [checkCall, lastNonce_check_of_ne_ok hok] at hk
        exact List.mem_append_left _ (hbefore k hk)
    · rwa [List.append_assoc]

theorem timesOf_cons (keyHex : String) (c : RelayCheck) (calls : List RelayCheck) :
    timesOf keyHex (c :: calls) =
      if c.keyHex = keyHex then c.now :: timesOf keyHex calls else timesOf keyHex calls := by
  unfold timesOf
  split
  next hkey => simp [hkey]
  next hkey => simp [hkey]

theorem admitted_cons (v : RelayVerifier) (c : RelayCheck) (calls : List RelayCheck) :
    v.admitted (c :: calls) = if (v.checkCall c).1 = .ok () then
      c :: (v.checkCall c).2.admitted calls else (v.checkCall c).2.admitted calls := by
  rw [admitted]
  cases v.checkCall c with
  | mk res v' =>
    cases res with
    | ok => rfl
    | error e => rfl

/-- Of the messages of a key, those are admitted that have a higher nonce than all before. -/
theorem Tracks.admitted_eq (h : v.Tracks keyHex seen) (hkept : v.KeepsNonces calls)
    (hnow : (seen.map RelayCheck.now ++ timesOf keyHex calls).Pairwise (· ≤ ·))
    (hrate : Unhurried (seen.map RelayCheck.now ++ timesOf keyHex calls))
    (htime : ∀ c ∈ calls, c.keyHex = keyHex → absDiff c.now c.timestamp ≤ relayMaxAgeSecs) :
    (v.admitted calls).filter (·.keyHex = keyHex) =
      records RelayCheck.nonce seen (calls.filter (·.keyHex = keyHex)) := by
  induction calls generalizing v seen with
  | nil => rfl
  | cons c calls ih =>
    rw [timesOf_cons] at hnow hrate
    rw [List.forall_mem_cons] at htime
    rw [admitted_cons]
    by_cases hkey : c.keyHex = keyHex
    · subst hkey
      rw [if_pos rfl, ← List.singleton_append, ← List.append_assoc] at hnow hrate
      -- what the verifier has seen of the key came earlier
      have hbefore : ∀ b ∈ seen, b.now ≤ c.now := fun b hb =>
        (List.pairwise_append.mp (List.pairwise_append.mp hnow).1).2.2 b.now
          (List.mem_map_of_mem hb) c.now (List.mem_singleton_self _)
      have hshort : Unhurried (seen.map RelayCheck.now ++ [c.now]) :=
        fun burst hburst => hrate burst (hburst.trans (List.sublist_append_left _ _))
      have hrest := ih (h.check hbefore hshort (htime.1 rfl) hkept.1) hkept.2
        (by rwa [List.map_append]) (by rwa [List.map_append]) htime.2
      have hseen : records RelayCheck.nonce (c :: seen) (calls.filter (·.keyHex = c.keyHex)) =
          records RelayCheck.nonce (seen ++ [c]) (calls.filter (·.keyHex = c.keyHex)) :=
        records_congr (fun b => (List.perm_append_singleton c seen).symm.mem_iff) _
      rw [List.filter_cons_of_pos (by simp), records, hseen, ← hrest]
      simp only [h.check_ok_iff hbefore hshort (htime.1 rfl)]
      split
      · rw [List.filter_cons_of_pos (by simp)]
      · rfl
    -- the call is for another key, and is left out on both sides
    · rw [if_neg hkey] at hnow hrate
      rw [List.filter_cons_of_neg (by simpa using hkey),
        ← ih (h.check_other hkey hkept.1) hkept.2 hnow hrate htime.2]
      split
      · rw [List.filter_cons_of_neg (by simpa using hkey)]
      · rfl

/-- For every sequence of calls, in which other keys may be interleaved: if the messages of a key
come in time and unhurried, those are admitted that have a higher nonce than all messages of the key
before them. Whatever is overtaken by a later message is lost. -/
theorem admitted_eq_records (keyHex : String)
    (hkeys : (calls.map RelayCheck.keyHex).dedup.length < maxRelayTracked)
    (hnow : (timesOf keyHex calls).Pairwise (· ≤ ·)) (hrate : Unhurried (timesOf keyHex calls))
    (htime : ∀ c ∈ calls, c.keyHex = keyHex → absDiff c.now c.timestamp ≤ relayMaxAgeSecs) :
    (new.admitted calls).filter (·.keyHex = keyHex) =
      records RelayCheck.nonce [] (calls.filter (·.keyHex = keyHex)) :=
  tracks_new.admitted_eq (@keepsNonces_of_keys _ _ [] (fun k hk => absurd hk (AList.notMem_empty k))
    hkeys) hnow hrate htime

end RelayVerifier

/-! ## The originator -/

/-- What `send_relay` is given, and the paths that are known then. -/
structure RelaySend where
  env : RelayEnv
  relay : RelayRouter
  toUid : String
  payload : Bytes

namespace RelayNode

/-- The node of `AppState::new_with_port`, before any peer is known. -/
def started (identity : Identity) : RelayNode := ⟨identity, .new, .new, 0⟩

/-- The requests that a sequence of calls of `send_relay` puts into the outgoing queue. -/
def sendAll (prim : Primitives) : RelayNode → List RelaySend → List RelayFields
  | _, [] => []
  | node, s :: sends =>
    let sent := { node with relay := s.relay }.sendRelay prim s.env s.toUid s.payload
    sent.2.2.filterMap (fun p => RelayFields.ofMessage p.2) ++ sent.1.sendAll prim sends

/-- A call sends nothing, or one request under the next number. -/
theorem sendRelay_cases (prim : Primitives) (env : RelayEnv) (node : RelayNode) (toUid : String)
    (payload : Bytes) :
    (node.sendRelay prim env toUid payload).1.identity = node.identity ∧
      ((node.sendRelay prim env toUid payload).2.2 = [] ∧
          node.relayNonce ≤ (node.sendRelay prim env toUid payload).1.relayNonce ∨
        ∃ dest, ∃ m : RelayFields,
          (node.sendRelay prim env toUid payload).2.2 = [(dest, m.toMessage)] ∧
            m.originKeyHex = node.identity.publicHex ∧ m.nonce = node.relayNonce + 1 ∧
            (node.sendRelay prim env toUid payload).1.relayNonce = node.relayNonce + 1) := by
  rw [sendRelay]
  split
  · exact ⟨rfl, .inl ⟨rfl, le_rfl⟩⟩
  · dsimp only
    split
    -- without a way to the target the number is used up
    · exact ⟨rfl, .inl ⟨rfl, Nat.le_succ _⟩⟩
    · split
      · exact ⟨rfl, .inr ⟨_, ⟨_, _, _, _, _, _, _, _, true⟩, rfl, rfl, rfl, rfl⟩⟩
      · exact ⟨rfl, .inl ⟨rfl, Nat.le_succ _⟩⟩

/-- The requests of a process run carry the key of the node, and increasing numbers. -/
theorem sendAll_spec (prim : Primitives) (node : RelayNode) (sends : List RelaySend) :
    (∀ m ∈ node.sendAll prim sends,
        m.originKeyHex = node.identity.publicHex ∧ node.relayNonce < m.nonce) ∧
      (node.sendAll prim sends).Pairwise fun m m' => m.nonce < m'.nonce := by
  induction sends generalizing node with
  | nil => exact ⟨List.forall_mem_nil _, List.Pairwise.nil⟩
  | cons s sends ih =>
    rw [sendAll]
    obtain ⟨hidentity, hcases⟩ :=
      sendRelay_cases prim s.env { node with relay := s.relay } s.toUid s.payload
    obtain ⟨hrest, hpairwise⟩ :=
      ih ({ node with relay := s.relay }.sendRelay prim s.env s.toUid s.payload).1
    rw [hidentity] at hrest
    rcases hcases with ⟨hnone, hle⟩ | ⟨dest, m, hsent, hkey, hnonce, hnext⟩
    · rw [hnone]
      exact ⟨fun m hm => ⟨(hrest m hm).1, hle.trans_lt (hrest m hm).2⟩, hpairwise⟩
    · rw [hsent, List.filterMap_cons, RelayFields.ofMessage_toMessage]
      rw [hnext] at hrest
      refine ⟨List.forall_mem_cons.mpr ⟨⟨hkey, ?_⟩, fun m' hm' => ⟨(hrest m' hm').1, ?_⟩⟩,
        List.pairwise_cons.mpr ⟨fun m' hm' => ?_, hpairwise⟩⟩
      · exact hnonce ▸ Nat.lt_succ_self _
      · exact (Nat.lt_succ_self _).trans (hrest m' hm').2
      · exact hnonce ▸ (hrest m' hm').2

end RelayNode

/-- A request that comes to a node, with the time at which it does. -/
structure RelayArrival where
  message : RelayFields
  now : ℕ

/-- The call of `check` for a request that verifies under the key it carries. -/
def RelayArrival.check (a : RelayArrival) : RelayCheck :=
  ⟨a.message.originKeyHex, a.message.nonce, a.message.timestamp, a.now⟩

namespace RelayVerifier

open RelayNode

/-- In every history of an originator, whose process runs each number their requests from 1, and for
every verifier at which some of the requests come in, in their order, in time and unhurried, among
messages of other keys, of which there are too few to make it drop its nonces: a request is admitted
if and only if its number is higher than that of every request that has come in from an earlier
process run. -/
theorem admitted_restarts (prim : Primitives) (identity : Identity)
    {arrivals : List (List RelayArrival)} {calls : List RelayCheck}
    (hsent : ∀ arrived ∈ arrivals, ∃ sends : List RelaySend,
      (arrived.map RelayArrival.message).Sublist ((started identity).sendAll prim sends))
    (hcalls : calls.filter (·.keyHex = identity.publicHex) =
      (arrivals.map (·.map RelayArrival.check)).flatten)
    (hkeys : (calls.map RelayCheck.keyHex).dedup.length < maxRelayTracked)
    (hnow : (arrivals.flatten.map RelayArrival.now).Pairwise (· ≤ ·))
    (hrate : Unhurried (arrivals.flatten.map RelayArrival.now))
    (htime : ∀ a ∈ arrivals.flatten, absDiff a.now a.message.timestamp ≤ relayMaxAgeSecs) :
    (new.admitted calls).filter (·.keyHex = identity.publicHex) =
      aboveEarlier RelayCheck.nonce [] (arrivals.map (·.map RelayArrival.check)) := by
  have hflatten : (arrivals.map (·.map RelayArrival.check)).flatten =
      arrivals.flatten.map RelayArrival.check := List.map_flatten.symm
  have htimes : timesOf identity.publicHex calls = arrivals.flatten.map RelayArrival.now := by
    rw [timesOf, hcalls, hflatten, List.map_map]
    rfl
  rw [admitted_eq_records identity.publicHex hkeys (htimes ▸ hnow) (htimes ▸ hrate), hcalls]
  · refine records_flatten (fun l hl => ?_) []
    obtain ⟨arrived, harrived, rfl⟩ := List.mem_map.mp hl
    obtain ⟨sends, hsub⟩ := hsent arrived harrived
    have hpairwise := ((started identity).sendAll_spec prim sends).2.sublist hsub
    rw [List.pairwise_map] at hpairwise ⊢
    exact hpairwise
  · intro c hc hkey
    have hmem : c ∈ calls.filter (·.keyHex = identity.publicHex) :=
      List.mem_filter.mpr ⟨hc, decide_eq_true hkey⟩
    rw [hcalls, hflatten] at hmem
    obtain ⟨a, ha, rfl⟩ := List.mem_map.mp hmem
    exact htime a ha

/-- The identity of the originator `a`. -/
def originIdentity : Identity :=
  ⟨"a", hexEncode (List.replicate 32 1), hexEncode (List.replicate 32 1), 0⟩

/-- What comes in of a process run in which `n` requests are sent to `b`. -/
def originArrivals (n : ℕ) : List RelayArrival :=
  ((started originIdentity).sendAll .const
    (List.replicate n ⟨RelayNetwork.sampleEnv "b", .new, "b", []⟩)).map fun m => ⟨m, 1⟩

/-- Two requests, and after a restart three more: of these the last one is admitted. -/
theorem admitted_restarts_two :
    let arrivals := [originArrivals 2, originArrivals 3]
    let calls := ⟨"other", 7, 1, 1⟩ :: (arrivals.map (·.map RelayArrival.check)).flatten
    ((new.admitted calls).filter (·.keyHex = originIdentity.publicHex)).map RelayCheck.nonce =
      [1, 2, 3] := by
  intro arrivals calls
  have hsent (n : ℕ) : ∃ sends : List RelaySend,
      ((originArrivals n).map RelayArrival.message).Sublist
        ((started originIdentity).sendAll .const sends) := by
    refine ⟨List.replicate n ⟨RelayNetwork.sampleEnv "b", .new, "b", []⟩, ?_⟩
    rw [originArrivals, List.map_map]
    exact (List.map_id _).symm ▸ List.Sublist.refl _
  have hlen : (arrivals.flatten.map RelayArrival.now).length = 5 := by decide +kernel
  rw [@admitted_restarts .const originIdentity arrivals calls
    (List.forall_mem_cons.mpr ⟨hsent 2, List.forall_mem_singleton.mpr (hsent 3)⟩)
    (by decide +kernel) (by decide +kernel) (by decide +kernel)
    (fun burst hburst hburst' => absurd hburst.length_le (by rw [hlen, hburst']; decide))
    (by decide +kernel)]
  decide +kernel

end RelayVerifier

end ChronoShift
