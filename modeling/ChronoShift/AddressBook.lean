import ChronoShift.Pgp.PgpIdentity
import ChronoShift.ToMathlib.HashCount

/-!
# The address book

The peers that a node has heard of (`address_book.rs`), entered by hand, from the local network or
from the gossip of friends. An entry carries the clock reading at which it was last seen, and
pruning removes the entries that are too old. Clock readings are seconds in a `u64`, and every call
reads the system clock, which may have stepped back since the call before.

The age of an entry is a difference of `u64`. A build with overflow checks panics if it underflows,
and a build without them, like the release profile, wraps around.

* `AddressBook.prunesSafely_iff`: pruning is right if and only if no entry was last seen after the
  current reading;
* `AddressBook.pruneStale_release`: which entries a release build removes;
* `AddressBook.pruneStale_safe_iff`: pruning after a run of calls.
-/

namespace ChronoShift

open ToMathlib

/-- A socket address of the standard library. -/
inductive SocketAddr where
  | v4 (ip : BitVec 32) (port : UInt16)
  | v6 (ip : BitVec 128) (port : UInt16) (flowinfo scopeId : UInt32)
  deriving DecidableEq

/-- Where a peer address came from. -/
inductive AddressSource where
  | manual
  | lan
  | gossip
  deriving DecidableEq

/-- One entry of the address book. -/
structure AddressEntry where
  uid : String
  addresses : List SocketAddr
  publicKey : String
  lastSeen : UInt64
  source : AddressSource
  /-- How reliable the entry is. -/
  confidence : Float
  deriving DecidableEq

/-- A peer, as a friend announces it. -/
structure PeerAnnounce where
  uid : String
  addresses : List SocketAddr
  publicKey : String

/-- All known peers. -/
structure AddressBook where
  entries : HashMap String AddressEntry

/-- A difference of two `u64`. An underflow is a panic (`none`) if it is checked, and wraps around
otherwise. -/
def subU64 (checks : Bool) (a b : UInt64) : Option UInt64 :=
  if checks = true ∧ a < b then none else some (a - b)

/-- The weight of what a friend announces. -/
def gossipWeight : TrustLevel → Float
  | .ultimate => 1.0
  | .full => 0.8
  | .marginal => 0.4
  | _ => 0.0

namespace AddressBook

/-- The empty address book. -/
def new : AddressBook := ⟨∅⟩

/-- Enter a peer that is seen at the clock reading `now`. Its addresses are merged with the known
ones. -/
def addOrUpdate (book : AddressBook) (now : UInt64) (uid : String) (addresses : List SocketAddr)
    (publicKey : String) (source : AddressSource) (confidence : Float) : AddressBook :=
  match book.entries.lookup uid with
  | some entry =>
    let entry := { entry with
      addresses := addresses.foldl (fun known addr =>
        if addr ∈ known then known else known ++ [addr]) entry.addresses }
    -- the reading of a more reliable source is taken even if it is an earlier one
    let entry :=
      if confidence > entry.confidence ∨ now > entry.lastSeen then
        { entry with lastSeen := now, confidence := confidence, source := source }
      else entry
    ⟨book.entries.insert uid entry⟩
  | none => ⟨book.entries.insert uid ⟨uid, addresses, publicKey, now, source, confidence⟩⟩

/-- Enter the peers that a friend announces, each with the clock reading at which it is entered, if
the friend is trusted. Returns the number of peers. -/
def handleGossipResponse (book : AddressBook) (trustLevel : TrustLevel)
    (peers : List (UInt64 × PeerAnnounce)) : ℕ × AddressBook :=
  if trustLevel < .marginal then (0, book)
  else
    let weight := gossipWeight trustLevel
    peers.foldl (fun (added, book) (now, peer) =>
      (added + 1, book.addOrUpdate now peer.uid peer.addresses peer.publicKey .gossip weight))
      (0, book)

/-- Remove the entries that were not seen for `maxAge` seconds at the clock reading `now`. `none`
is the panic of an underflow that is checked. -/
def pruneStale (checks : Bool) (book : AddressBook) (now maxAge : UInt64) : Option AddressBook :=
  if book.entries.values.all fun e => (subU64 checks now e.lastSeen).isSome then
    some ⟨book.entries.retain fun _ e => (subU64 checks now e.lastSeen).any (· < maxAge)⟩
  else none

end AddressBook

/-- A call on an address book, with the readings of the clock that it meets. -/
inductive BookCall where
  | addOrUpdate (now : UInt64) (uid : String) (addresses : List SocketAddr) (publicKey : String)
      (source : AddressSource) (confidence : Float)
  | handleGossipResponse (trustLevel : TrustLevel) (peers : List (UInt64 × PeerAnnounce))

/-- The readings of the clock. -/
def BookCall.readings : BookCall → List UInt64
  | .addOrUpdate now _ _ _ _ _ => [now]
  | .handleGossipResponse _ peers => peers.map Prod.fst

namespace AddressBook

/-- The book after a call. -/
def call (book : AddressBook) : BookCall → AddressBook
  | .addOrUpdate now uid addresses publicKey source confidence =>
    book.addOrUpdate now uid addresses publicKey source confidence
  | .handleGossipResponse trustLevel peers => (book.handleGossipResponse trustLevel peers).2

/-- The book after a sequence of calls. -/
def run (book : AddressBook) (calls : List BookCall) : AddressBook := calls.foldl call book

/-- No entry was last seen after the clock reading `now`. -/
def SeenBy (book : AddressBook) (now : UInt64) : Prop :=
  ∀ uid e, book.entries.lookup uid = some e → e.lastSeen ≤ now

/-- What pruning is for: no build panics, so no difference underflows; the entries that are removed
are those that were last seen `maxAge` or more seconds before `now`; and an entry that was last seen
at `now` or later is kept. -/
def PrunesSafely (book : AddressBook) (now maxAge : UInt64) : Prop :=
  ∀ checks, ∃ book', book.pruneStale checks now maxAge = some book' ∧
    (∀ uid, book'.entries.lookup uid = (book.entries.lookup uid).filter fun e =>
      ¬ e.lastSeen.toNat + maxAge.toNat ≤ now.toNat) ∧
    ∀ uid e, book.entries.lookup uid = some e → now ≤ e.lastSeen →
      book'.entries.lookup uid = some e

variable {book : AddressBook} {now maxAge : UInt64}

/-! ## Pruning -/

/-- Which ages are below the limit. The age of what is seen after `now` is wrapped. -/
theorem sub_lt_iff {seen : UInt64} : now - seen < maxAge ↔
    seen ≤ now ∧ now.toNat < seen.toNat + maxAge.toNat ∨
      now.toNat + 2 ^ 64 < seen.toNat + maxAge.toNat := by
  have hnow := now.toNat_lt
  have hseen := seen.toNat_lt
  have hage := maxAge.toNat_lt
  -- the difference of the machine is the difference of the numbers, modulo 2 ^ 64
  rw [UInt64.lt_iff_toNat_lt, UInt64.toNat_sub, UInt64.le_iff_toNat_le]
  omega

theorem sub_lt_iff_of_le {seen : UInt64} (hle : seen ≤ now) :
    now - seen < maxAge ↔ ¬ seen.toNat + maxAge.toNat ≤ now.toNat := by
  rw [UInt64.lt_iff_toNat_lt, UInt64.toNat_sub_of_le _ _ hle]
  rw [UInt64.le_iff_toNat_le] at hle
  omega

/-- If no difference panics, pruning keeps the entries whose age is below the limit. -/
theorem pruneStale_eq_some {checks : Bool} (h : ∀ uid e, book.entries.lookup uid = some e →
    subU64 checks now e.lastSeen = some (now - e.lastSeen)) :
    ∃ book', book.pruneStale checks now maxAge = some book' ∧ ∀ uid,
      book'.entries.lookup uid = (book.entries.lookup uid).filter fun e =>
        now - e.lastSeen < maxAge := by
  have hall : (book.entries.values.all fun e => (subU64 checks now e.lastSeen).isSome) = true := by
    rw [List.all_eq_true]
    intro e he
    obtain ⟨uid, hlookup⟩ := HashMap.mem_values.mp he
    rw [h uid e hlookup]
    rfl
  refine ⟨_, if_pos hall, fun uid => ?_⟩
  rw [HashMap.lookup_retain]
  cases hlookup : book.entries.lookup uid with
  | none => rfl
  | some e => rw [Option.filter_some, Option.filter_some, h uid e hlookup, Option.any_some]

/-- A build without overflow checks keeps the entries that were seen not long ago. Of those that
were last seen after the current reading, it keeps the ones whose wrapped age is below the limit. -/
theorem pruneStale_release (book : AddressBook) (now maxAge : UInt64) :
    ∃ book', book.pruneStale false now maxAge = some book' ∧
      ∀ uid, book'.entries.lookup uid = (book.entries.lookup uid).filter fun e =>
        e.lastSeen ≤ now ∧ now.toNat < e.lastSeen.toNat + maxAge.toNat ∨
          now.toNat + 2 ^ 64 < e.lastSeen.toNat + maxAge.toNat := by
  obtain ⟨book', hprune, hlookup⟩ := @pruneStale_eq_some book now maxAge false fun _ _ _ => rfl
  refine ⟨book', hprune, fun uid => (hlookup uid).trans ?_⟩
  exact congrArg (Option.filter · _) (funext fun e => decide_eq_decide.mpr sub_lt_iff)

/-- Pruning is right if and only if no entry was last seen after the current reading. -/
theorem prunesSafely_iff (hage : 0 < maxAge) :
    book.PrunesSafely now maxAge ↔ book.SeenBy now := by
  constructor
  · intro hsafe uid e hlookup
    obtain ⟨book', hprune, -⟩ := hsafe true
    rw [pruneStale] at hprune
    split at hprune
    -- no checked difference has panicked, so none of them is negative
    next hall =>
      have hsome := List.all_eq_true.mp hall e (HashMap.mem_values.mpr ⟨uid, hlookup⟩)
      by_contra hlt
      rw [subU64, if_pos ⟨rfl, UInt64.not_le.mp hlt⟩] at hsome
      cases hsome
    next => cases hprune
  · intro hseen checks
    obtain ⟨book', hprune, hlookup⟩ := @pruneStale_eq_some book now maxAge checks fun uid e he =>
      if_neg fun h => absurd (hseen uid e he) (UInt64.not_le.mpr h.2)
    have hfilter (uid : String) : book'.entries.lookup uid = (book.entries.lookup uid).filter
        fun e => ¬ e.lastSeen.toNat + maxAge.toNat ≤ now.toNat := by
      rw [hlookup]
      cases he : book.entries.lookup uid with
      | none => rfl
      | some e => simp only [Option.filter_some, sub_lt_iff_of_le (hseen uid e he)]
    refine ⟨book', hprune, hfilter, fun uid e he hle => ?_⟩
    -- the age is not negative, and the limit is positive
    rw [UInt64.le_iff_toNat_le] at hle
    rw [UInt64.lt_iff_toNat_lt] at hage
    have hkept : ¬ e.lastSeen.toNat + maxAge.toNat ≤ now.toNat := by
      rw [show (0 : UInt64).toNat = 0 from rfl] at hage
      omega
    rw [hfilter, he, Option.filter_some, if_pos (decide_eq_true hkept)]

/-! ## Runs -/

/-- A peer that is entered is last seen now, or as before. -/
theorem lastSeen_addOrUpdate {uid uid' publicKey : String} {addresses : List SocketAddr}
    {source : AddressSource} {confidence : Float} {e : AddressEntry}
    (h : (book.addOrUpdate now uid addresses publicKey source confidence).entries.lookup uid' =
      some e) :
    e.lastSeen = now ∨ ∃ e', book.entries.lookup uid' = some e' ∧ e.lastSeen = e'.lastSeen := by
  rw [addOrUpdate] at h
  split at h
  next entry hentry =>
    dsimp only at h
    rw [HashMap.lookup_insert_ite] at h
    split at h
    next heq =>
      subst heq
      obtain rfl := Option.some.inj h
      -- the reading is taken over, or the entry keeps its own
      split
      next => exact Or.inl rfl
      next => exact Or.inr ⟨entry, hentry, rfl⟩
    next => exact Or.inr ⟨e, h, rfl⟩
  next =>
    dsimp only at h
    rw [HashMap.lookup_insert_ite] at h
    split at h
    next =>
      obtain rfl := Option.some.inj h
      exact Or.inl rfl
    next => exact Or.inr ⟨e, h, rfl⟩

theorem SeenBy.addOrUpdate {t : UInt64} (hbook : book.SeenBy t) (hnow : now ≤ t) (uid : String)
    (addresses : List SocketAddr) (publicKey : String) (source : AddressSource)
    (confidence : Float) :
    (book.addOrUpdate now uid addresses publicKey source confidence).SeenBy t := by
  intro uid' e he
  rcases lastSeen_addOrUpdate he with heq | ⟨e', he', heq⟩
  · exact heq ▸ hnow
  · exact heq ▸ hbook uid' e' he'

theorem SeenBy.handleGossipResponse {t : UInt64} (hbook : book.SeenBy t) (trustLevel : TrustLevel)
    {peers : List (UInt64 × PeerAnnounce)} (hpeers : ∀ p ∈ peers, p.1 ≤ t) :
    (book.handleGossipResponse trustLevel peers).2.SeenBy t := by
  rw [AddressBook.handleGossipResponse]
  split
  next => exact hbook
  next =>
    dsimp only
    -- the peers are entered one after the other; the count plays no part
    generalize 0 = added
    induction peers generalizing book added with
    | nil => exact hbook
    | cons p peers ih =>
      obtain ⟨hp, hpeers⟩ := List.forall_mem_cons.mp hpeers
      exact ih (hbook.addOrUpdate hp _ _ _ _ _) hpeers _

theorem SeenBy.call {t : UInt64} (hbook : book.SeenBy t) {c : BookCall}
    (hc : ∀ reading ∈ c.readings, reading ≤ t) : (book.call c).SeenBy t := by
  cases c with
  | addOrUpdate now uid addresses publicKey source confidence =>
    exact hbook.addOrUpdate (hc now (List.mem_singleton_self now)) _ _ _ _ _
  | handleGossipResponse trustLevel peers =>
    exact hbook.handleGossipResponse trustLevel fun p hp => hc p.1 (List.mem_map_of_mem hp)

/-- Along a run whose readings are at most `t`, nothing is seen after `t`. -/
theorem SeenBy.run {t : UInt64} (hbook : book.SeenBy t) {calls : List BookCall}
    (hcalls : ∀ c ∈ calls, ∀ reading ∈ c.readings, reading ≤ t) : (book.run calls).SeenBy t := by
  induction calls generalizing book with
  | nil => exact hbook
  | cons c calls ih =>
    obtain ⟨hc, hcalls⟩ := List.forall_mem_cons.mp hcalls
    exact ih (hbook.call hc) hcalls

/-- Pruning the book of any run of calls, under any readings of the clock, is safe if and only if no
entry was last seen after the reading at which it is pruned. This is so after every run in which no
reading is later than that one, as when the clock is not set back. -/
theorem pruneStale_safe_iff (calls : List BookCall) (now maxAge : UInt64) (hage : 0 < maxAge) :
    ((new.run calls).PrunesSafely now maxAge ↔ ∀ uid e,
      (new.run calls).entries.lookup uid = some e → e.lastSeen ≤ now) ∧
    ((∀ c ∈ calls, ∀ reading ∈ c.readings, reading ≤ now) →
      (new.run calls).PrunesSafely now maxAge) := by
  refine ⟨prunesSafely_iff hage, fun hcalls => (prunesSafely_iff hage).mpr ?_⟩
  have hnew : new.SeenBy now := fun uid e he => by
    rw [show new.entries.lookup uid = none from AList.lookup_empty uid] at he
    cases he
  exact hnew.run hcalls

/-- A peer that is entered by hand, and one that a friend announces. -/
def forwardCalls : List BookCall :=
  [.addOrUpdate 100 "alice" [] "key" .manual 1.0,
    .handleGossipResponse .full [(105, ⟨"bob", [.v4 0x7f000001 9000], "key"⟩)]]

/-- The clock has not been set back. -/
theorem pruneStale_safe_iff_forward : (new.run forwardCalls).PrunesSafely 110 10 := by
  refine (pruneStale_safe_iff forwardCalls 110 10 (by decide)).2 fun c hc reading hreading => ?_
  rcases List.mem_cons.mp hc with rfl | hc
  · obtain rfl := List.mem_singleton.mp hreading
    decide
  · obtain rfl := List.mem_singleton.mp hc
    obtain rfl := List.mem_singleton.mp hreading
    decide

/-- A peer that was entered at second 100, before the clock was set back to second 50. A build with
overflow checks panics, and a release build removes the peer. -/
theorem not_pruneStale_safe_back :
    ¬ (new.run [.addOrUpdate 100 "alice" [] "key" .manual 1.0]).PrunesSafely 50 10 ∧
    (new.run [.addOrUpdate 100 "alice" [] "key" .manual 1.0]).pruneStale true 50 10 = none ∧
    ((new.run [.addOrUpdate 100 "alice" [] "key" .manual 1.0]).pruneStale false 50 10).map
      (·.entries.keys) = some [] := by
  have hpanic : (new.run [.addOrUpdate 100 "alice" [] "key" .manual 1.0]).pruneStale true 50 10 =
      none := by rfl
  refine ⟨fun hsafe => ?_, hpanic, by rfl⟩
  obtain ⟨book', hprune, -⟩ := hsafe true
  rw [hpanic] at hprune
  cases hprune

end AddressBook

end ChronoShift
