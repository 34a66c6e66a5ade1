import ChronoShift.AddressBook

/-!
# Gossip between friends

Friends tell each other which peers they know: `build_gossip_response` of `address_book.rs` lists
the entries of a book, and `handle_gossip_response` enters such a list into the book of a friend, if
the friend that sent it is trusted. The clock readings and the weights decide which source an entry
is credited to; the key and the addresses of an entry do not depend on them.

* `AddressBook.known_run`: the key of an entry is the first one that was announced for the peer, and
  its addresses are all that were;
* `AddressBook.known_exchange`: what a response adds to the book of a friend.
-/

namespace ChronoShift

open ToMathlib

namespace AddressBook

/-- `get`. -/
def get (book : AddressBook) (uid : String) : Option AddressEntry := book.entries.lookup uid

/-- `get_addresses`. -/
def getAddresses (book : AddressBook) (uid : String) : List SocketAddr :=
  ((book.entries.lookup uid).map AddressEntry.addresses).getD []

/-- Add the addresses that are not known yet. -/
def mergeAddresses (known addresses : List SocketAddr) : List SocketAddr :=
  addresses.foldl (fun known addr => if addr ∈ known then known else known ++ [addr]) known

/-- The peers that we know, for a friend. The entries are visited in the order of their keys. -/
def buildGossipResponse (order : IterOrder String) (book : AddressBook) (excludeUid : String) :
    List PeerAnnounce :=
  (order.visit book.entries.keys).filterMap fun uid =>
    if uid = excludeUid then none
    else (book.entries.lookup uid).map fun entry => ⟨uid, entry.addresses, entry.publicKey⟩

/-- The key and the addresses that a book has of a peer. -/
def known (book : AddressBook) (uid : String) : Option (String × List SocketAddr) :=
  (book.get uid).map fun entry => (entry.publicKey, entry.addresses)

/-- What becomes of this when the peer is announced: the first key stays, and addresses are
added. -/
def absorb : Option (String × List SocketAddr) → PeerAnnounce → Option (String × List SocketAddr)
  | none, peer => some (peer.publicKey, peer.addresses)
  | some (publicKey, addresses), peer =>
    some (publicKey, mergeAddresses addresses peer.addresses)

variable {book : AddressBook} {uid : String}

/-! ## The key and the addresses of an entry -/

/-- What is merged is what was there and what is new. -/
theorem mem_mergeAddresses {addr : SocketAddr} {old new : List SocketAddr} :
    addr ∈ mergeAddresses old new ↔ addr ∈ old ∨ addr ∈ new := by
  induction new generalizing old with
  | nil => simp [mergeAddresses]
  | cons a new ih =>
    rw [mergeAddresses, List.foldl_cons, ← mergeAddresses, ih, List.mem_cons]
    split
    next hmem =>
      constructor
      · rintro (h | h)
        · exact .inl h
        · exact .inr (.inr h)
      · rintro (h | rfl | h)
        · exact .inl h
        · exact .inl hmem
        · exact .inr h
    next =>
      rw [List.mem_append, List.mem_singleton, or_assoc]

/-- Known addresses stay where they are. -/
theorem isPrefix_mergeAddresses (old new : List SocketAddr) : old <+: mergeAddresses old new := by
  induction new generalizing old with
  | nil => exact List.prefix_refl _
  | cons a new ih =>
    rw [mergeAddresses, List.foldl_cons, ← mergeAddresses]
    split
    · exact ih old
    · exact (List.prefix_append old [a]).trans (ih _)

/-- Entering a peer is absorbing its announcement. -/
theorem known_addOrUpdate (now : UInt64) (uid' : String) (addresses : List SocketAddr)
    (publicKey : String) (source : AddressSource) (confidence : Float) :
    (book.addOrUpdate now uid' addresses publicKey source confidence).known uid =
      if uid = uid' then absorb (book.known uid) ⟨uid', addresses, publicKey⟩
      else book.known uid := by
  rw [addOrUpdate, known, known, get, get]
  cases hentry : book.entries.lookup uid' with
  | none =>
    dsimp only
    rw [HashMap.lookup_insert_ite]
    split
    next heq =>
      subst heq
      rw [hentry]
      rfl
    next => rfl
  | some entry =>
    dsimp only
    rw [HashMap.lookup_insert_ite]
    split
    next heq =>
      subst heq
      rw [hentry]
      -- whether the source is credited does not matter
      split <;> rfl
    next => rfl

/-! ## Runs -/

/-- The peers that a call announces, if it is not ignored. -/
def announced : BookCall → List PeerAnnounce
  | .addOrUpdate _ uid addresses publicKey _ _ => [⟨uid, addresses, publicKey⟩]
  | .handleGossipResponse trustLevel peers =>
    if trustLevel < .marginal then [] else peers.map Prod.snd

/-- What is announced about a peer. -/
def about (uid : String) (peers : List PeerAnnounce) : List PeerAnnounce :=
  peers.filter fun peer => peer.uid = uid

/-- The announcements of a peer in two lists. -/
theorem about_append (peers peers' : List PeerAnnounce) :
    about uid (peers ++ peers') = about uid peers ++ about uid peers' :=
  List.filter_append ..

/-- An announcement changes what is known of its own peer. -/
theorem foldl_absorb_about (k : Option (String × List SocketAddr)) (peer : PeerAnnounce)
    (peers : List PeerAnnounce) :
    (about uid (peer :: peers)).foldl absorb k =
      (about uid peers).foldl absorb (if uid = peer.uid then absorb k peer else k) := by
  rw [about, List.filter_cons, ← about]
  by_cases heq : uid = peer.uid
  · rw [if_pos heq, if_pos (decide_eq_true heq.symm), List.foldl_cons]
  · rw [if_neg heq, if_neg (fun h => heq (of_decide_eq_true h).symm)]

/-- A response enters its peers one after the other, whatever the clock says. -/
theorem known_handleGossipResponse {trustLevel : TrustLevel} (htrust : ¬ trustLevel < .marginal)
    (peers : List (UInt64 × PeerAnnounce)) :
    (book.handleGossipResponse trustLevel peers).1 = peers.length ∧
      (book.handleGossipResponse trustLevel peers).2.known uid =
        (about uid (peers.map Prod.snd)).foldl absorb (book.known uid) := by
  rw [handleGossipResponse, if_neg htrust]
  dsimp only
  rw [show peers.length = 0 + peers.length from (Nat.zero_add _).symm]
  generalize 0 = added
  induction peers generalizing book added with
  | nil => exact ⟨rfl, rfl⟩
  | cons p peers ih =>
    rw [List.foldl_cons, List.length_cons, List.map_cons, foldl_absorb_about]
    obtain ⟨hcount, hknown⟩ := ih (added + 1)
    refine ⟨hcount.trans (by omega), hknown.trans ?_⟩
    rw [known_addOrUpdate]

/-- A call tells of a peer what it announces of it. -/
theorem known_call (c : BookCall) :
    (book.call c).known uid = (about uid (announced c)).foldl absorb (book.known uid) := by
  cases c with
  | addOrUpdate now uid' addresses publicKey source confidence =>
    rw [call, known_addOrUpdate, announced, foldl_absorb_about]
    rfl
  | handleGossipResponse trustLevel peers =>
    rw [call, announced]
    split
    next hlow =>
      rw [handleGossipResponse, if_pos hlow]
      rfl
    next htrust => exact (known_handleGossipResponse htrust peers).2

/-- What is known after a run is what the announcements of the run have told. -/
theorem foldl_absorb_run (calls : List BookCall) :
    (book.run calls).known uid =
      (about uid (calls.flatMap announced)).foldl absorb (book.known uid) := by
  induction calls generalizing book with
  | nil => rfl
  | cons c calls ih =>
    rw [run, List.foldl_cons, ← run, ih, known_call, List.flatMap_cons, about_append,
      List.foldl_append]

/-- Further announcements keep the key, and add their addresses behind the known ones. -/
theorem foldl_absorb_some (publicKey : String) (addresses : List SocketAddr)
    (peers : List PeerAnnounce) :
    ∃ addresses', peers.foldl absorb (some (publicKey, addresses)) = some (publicKey, addresses') ∧
      addresses <+: addresses' ∧
      ∀ addr, addr ∈ addresses' ↔ addr ∈ addresses ∨ ∃ peer ∈ peers, addr ∈ peer.addresses := by
  induction peers generalizing addresses with
  | nil => exact ⟨addresses, rfl, List.prefix_refl _, fun addr => by simp⟩
  | cons peer peers ih =>
    obtain ⟨addresses', heq, hpre, hmem⟩ := ih (mergeAddresses addresses peer.addresses)
    refine ⟨addresses', heq, (isPrefix_mergeAddresses _ _).trans hpre, fun addr => ?_⟩
    rw [hmem, mem_mergeAddresses, or_assoc, List.exists_mem_cons_iff]

/-- The key on record is the known one. -/
theorem get_map_publicKey (book : AddressBook) (uid : String) :
    (book.get uid).map AddressEntry.publicKey = (book.known uid).map Prod.fst := by
  rw [known, Option.map_map]
  rfl

/-- The addresses on record are the known ones. -/
theorem getAddresses_eq (book : AddressBook) (uid : String) :
    book.getAddresses uid = ((book.known uid).map Prod.snd).getD [] := by
  rw [known, Option.map_map, getAddresses]
  rfl

/-- What is known after a list of announcements, of a peer that was not known. -/
theorem foldl_absorb_none (peers : List PeerAnnounce) :
    (peers.foldl absorb none).map Prod.fst = peers.head?.map PeerAnnounce.publicKey ∧
      ∀ addr, addr ∈ ((peers.foldl absorb none).map Prod.snd).getD [] ↔
        ∃ peer ∈ peers, addr ∈ peer.addresses := by
  cases peers with
  | nil => exact ⟨rfl, fun addr => by simp⟩
  | cons peer peers =>
    rw [List.foldl_cons]
    obtain ⟨addresses, heq, -, hmem⟩ := foldl_absorb_some peer.publicKey peer.addresses peers
    rw [absorb, heq]
    refine ⟨rfl, fun addr => ?_⟩
    rw [List.exists_mem_cons_iff]
    exact hmem addr

/-- After any sequence of calls, whatever the clock, the sources and the weights: the key of a peer
is the one of the first call that announced it, and no later announcement replaces it; its addresses
are those of all announcements; and further calls only add addresses, behind the ones that are
there. A response of a friend that is not trusted announces nothing. -/
theorem known_run (calls further : List BookCall) (uid : String) :
    ((new.run calls).get uid).map AddressEntry.publicKey =
        (about uid (calls.flatMap announced)).head?.map PeerAnnounce.publicKey ∧
      (∀ addr, addr ∈ (new.run calls).getAddresses uid ↔
        ∃ peer ∈ about uid (calls.flatMap announced), addr ∈ peer.addresses) ∧
      (new.run calls).getAddresses uid <+: (new.run (calls ++ further)).getAddresses uid := by
  have hnew : new.known uid = none := rfl
  rw [get_map_publicKey, getAddresses_eq, foldl_absorb_run, hnew]
  obtain ⟨hkey, haddresses⟩ := foldl_absorb_none (about uid (calls.flatMap announced))
  refine ⟨hkey, haddresses, ?_⟩
  rw [getAddresses_eq, foldl_absorb_run, List.flatMap_append, about_append, List.foldl_append, hnew]
  -- a peer that is known already only gets more addresses
  cases (about uid (calls.flatMap announced)).foldl absorb none with
  | none => exact List.nil_prefix
  | some k =>
    obtain ⟨addresses', heq, hpre, -⟩ :=
      foldl_absorb_some k.1 k.2 (about uid (further.flatMap announced))
    rw [heq]
    exact hpre

/-! ## Exchanges -/

/-- Peers that are announced under their own names, each once. -/
theorem about_filterMap {announce : String → Option PeerAnnounce} {uids : List String}
    (hname : ∀ uid' peer, announce uid' = some peer → peer.uid = uid') (hnodup : uids.Nodup) :
    about uid (uids.filterMap announce) = if uid ∈ uids then (announce uid).toList else [] := by
  induction uids with
  | nil => rfl
  | cons uid' uids ih =>
    obtain ⟨hnew, hnodup⟩ := List.nodup_cons.mp hnodup
    have ih := ih hnodup
    by_cases heq : uid = uid'
    -- the peer is announced here, and nowhere else
    · subst heq
      rw [if_neg hnew] at ih
      rw [if_pos List.mem_cons_self]
      cases hannounce : announce uid with
      | none => rw [List.filterMap_cons_none hannounce, ih, Option.toList_none]
      | some peer =>
        rw [List.filterMap_cons_some hannounce, about, List.filter_cons, ← about, ih,
          if_pos (decide_eq_true (hname uid peer hannounce)), Option.toList_some]
    · have hmem : uid ∈ uid' :: uids ↔ uid ∈ uids := by rw [List.mem_cons, or_iff_right heq]
      simp only [hmem]
      rw [← ih]
      cases hannounce : announce uid' with
      | none => rw [List.filterMap_cons_none hannounce]
      | some peer =>
        have hne : ¬ peer.uid = uid := hname uid' peer hannounce ▸ fun h => heq h.symm
        rw [List.filterMap_cons_some hannounce, about, List.filter_cons, ← about,
          if_neg fun h => hne (of_decide_eq_true h)]

/-- A response announces each peer that is known once, but for the one that is left out. -/
theorem about_buildGossipResponse (order : IterOrder String) (excludeUid : String) :
    about uid (book.buildGossipResponse order excludeUid) =
      if uid = excludeUid then []
      else ((book.known uid).map fun k => ⟨uid, k.2, k.1⟩).toList := by
  have hnodup : (order.visit book.entries.keys).Nodup :=
    (order.perm _).nodup_iff.mpr book.entries.nodupKeys
  rw [buildGossipResponse, about_filterMap ?_ hnodup]
  · rw [known, Option.map_map, get]
    split
    next => split <;> rfl
    next hmem =>
      rw [order.mem_visit, ← AList.mem_keys] at hmem
      rw [AList.lookup_eq_none.mpr hmem]
      split <;> rfl
  · intro uid' peer hpeer
    split at hpeer
    next => cases hpeer
    next =>
      obtain ⟨entry, -, rfl⟩ := Option.map_eq_some_iff.mp hpeer
      rfl

/-- Every peer but the excluded one is announced once. -/
theorem length_buildGossipResponse (order : IterOrder String) (excludeUid : String) :
    (book.buildGossipResponse order excludeUid).length =
      (book.entries.keys.filter (· ≠ excludeUid)).length := by
  rw [buildGossipResponse, ((order.perm _).filterMap _).length_eq]
  -- every key has an entry, so that only the peer that is left out has no announcement
  have hentry : ∀ uid ∈ book.entries.keys, (book.entries.lookup uid).isSome :=
    fun uid huid => AList.lookup_isSome.mpr (AList.mem_keys.mpr huid)
  generalize book.entries.keys = uids at hentry
  induction uids with
  | nil => rfl
  | cons uid uids ih =>
    obtain ⟨hfirst, hentry⟩ := List.forall_mem_cons.mp hentry
    obtain ⟨entry, hlookup⟩ := Option.isSome_iff_exists.mp hfirst
    rw [List.filterMap_cons, List.filter_cons, hlookup]
    by_cases heq : uid = excludeUid
    · simpa [heq] using ih hentry
    · simpa [heq] using ih hentry

/-- Addresses that are known add nothing. -/
theorem mergeAddresses_of_subset {old new : List SocketAddr} (h : new ⊆ old) :
    mergeAddresses old new = old := by
  induction new with
  | nil => rfl
  | cons a new ih =>
    obtain ⟨ha, h⟩ := List.cons_subset.mp h
    rw [mergeAddresses, List.foldl_cons, ← mergeAddresses, if_pos ha, ih h]

/-- Announcing a peer again adds nothing. -/
theorem absorb_absorb (k : Option (String × List SocketAddr)) (peer : PeerAnnounce) :
    absorb (absorb k peer) peer = absorb k peer := by
  cases k with
  | none => rw [absorb, absorb, mergeAddresses_of_subset (List.Subset.refl _)]
  | some k =>
    rw [absorb, absorb, mergeAddresses_of_subset fun addr h => mem_mergeAddresses.mpr (.inr h)]

/-- Entering a peer leaves the entries of the others alone. -/
theorem get_addOrUpdate_of_ne {uid' : String} (hne : uid ≠ uid') (now : UInt64)
    (addresses : List SocketAddr) (publicKey : String) (source : AddressSource)
    (confidence : Float) :
    (book.addOrUpdate now uid' addresses publicKey source confidence).get uid = book.get uid := by
  rw [addOrUpdate]
  split
  all_goals
    dsimp only [get]
    rw [HashMap.lookup_insert_ite, if_neg hne]

/-- A response leaves the entry of a peer alone that it does not announce. -/
theorem get_handleGossipResponse (trustLevel : TrustLevel) {peers : List (UInt64 × PeerAnnounce)}
    (hpeers : ∀ p ∈ peers, p.2.uid ≠ uid) :
    (book.handleGossipResponse trustLevel peers).2.get uid = book.get uid := by
  rw [handleGossipResponse]
  split
  next => rfl
  next =>
    dsimp only
    generalize 0 = added
    induction peers generalizing book added with
    | nil => rfl
    | cons p peers ih =>
      obtain ⟨hp, hpeers⟩ := List.forall_mem_cons.mp hpeers
      rw [List.foldl_cons]
      exact (ih hpeers (added + 1)).trans (get_addOrUpdate_of_ne (Ne.symm hp) _ _ _ _ _)

/-- A response does not announce the peer that is left out. -/
theorem uid_ne_of_mem_buildGossipResponse {order : IterOrder String} {excludeUid : String}
    {peer : PeerAnnounce} (h : peer ∈ book.buildGossipResponse order excludeUid) :
    peer.uid ≠ excludeUid := by
  have hnone := @about_buildGossipResponse book excludeUid order excludeUid
  rw [if_pos rfl, about, List.filter_eq_nil_iff] at hnone
  exact fun heq => hnone peer h (decide_eq_true heq)

/-- What the receiver of a response knows. -/
theorem known_received (order : IterOrder String) (friend : AddressBook) (excludeUid : String)
    {trustLevel : TrustLevel} (htrust : .marginal ≤ trustLevel) {readings : List UInt64}
    (hreadings : readings.length = (friend.buildGossipResponse order excludeUid).length) :
    let response := readings.zip (friend.buildGossipResponse order excludeUid)
    (book.handleGossipResponse trustLevel response).2.known uid =
      if uid = excludeUid then book.known uid
      else (friend.known uid).elim (book.known uid) fun k =>
        absorb (book.known uid) ⟨uid, k.2, k.1⟩ := by
  dsimp only
  rw [(known_handleGossipResponse (not_lt.mpr htrust) _).2, List.map_snd_zip hreadings.ge,
    about_buildGossipResponse]
  split
  next => rfl
  next => cases friend.known uid <;> rfl

/-- A trusted friend hands over a response, and its peers are entered one after the other, each at a
reading of the clock. Whatever the order in which the hash table of the friend is visited, the
receiver then has exactly the addresses that one of them had of each peer, but for the peer that is
left out, whose entry stays as it is. It keeps the key that it has, and takes that of its friend
only for a peer that it did not know. Entering the response again changes no key and no list of
addresses. -/
theorem known_exchange (order : IterOrder String) (friend : AddressBook) (excludeUid : String)
    {trustLevel : TrustLevel} (htrust : .marginal ≤ trustLevel) {readings again : List UInt64}
    (hreadings : readings.length = (friend.buildGossipResponse order excludeUid).length)
    (hagain : again.length = readings.length) :
    let response := friend.buildGossipResponse order excludeUid
    let received := (book.handleGossipResponse trustLevel (readings.zip response)).2
    (book.handleGossipResponse trustLevel (readings.zip response)).1 =
        (friend.entries.keys.filter (· ≠ excludeUid)).length ∧
      (∀ uid, uid ≠ excludeUid →
        (received.get uid).map AddressEntry.publicKey =
            ((book.get uid).map AddressEntry.publicKey).or
              ((friend.get uid).map AddressEntry.publicKey) ∧
          ∀ addr, addr ∈ received.getAddresses uid ↔
            addr ∈ book.getAddresses uid ∨ addr ∈ friend.getAddresses uid) ∧
      received.get excludeUid = book.get excludeUid ∧
      ∀ uid, (received.handleGossipResponse trustLevel (again.zip response)).2.known uid =
        received.known uid := by
  have hcount : (readings.zip (friend.buildGossipResponse order excludeUid)).length =
      (friend.entries.keys.filter (· ≠ excludeUid)).length := by
    rw [List.length_zip, hreadings, Nat.min_self, length_buildGossipResponse]
  refine ⟨(@known_handleGossipResponse book excludeUid _ (not_lt.mpr htrust) _).1.trans hcount,
    fun uid huid => ?_, ?_, fun uid => ?_⟩
  · rw [get_map_publicKey, get_map_publicKey, get_map_publicKey, getAddresses_eq, getAddresses_eq,
      getAddresses_eq, known_received order friend excludeUid htrust hreadings, if_neg huid]
    cases friend.known uid with
    | none => exact ⟨(Option.or_none).symm, fun addr => by simp⟩
    | some k =>
      cases book.known uid with
      | none => exact ⟨rfl, fun addr => by simp [absorb]⟩
      | some k' => exact ⟨rfl, fun addr => mem_mergeAddresses⟩
  -- the response does not mention the excluded peer
  · exact get_handleGossipResponse trustLevel fun p hp =>
      uid_ne_of_mem_buildGossipResponse (List.of_mem_zip hp).2
  · rw [known_received order friend excludeUid htrust (hagain.trans hreadings)]
    split
    next => rfl
    -- what has been absorbed once adds nothing
    next huid =>
      rw [known_received order friend excludeUid htrust hreadings, if_neg huid]
      cases friend.known uid with
      | none => rfl
      | some k => exact absorb_absorb _ _

/-- A peer with two addresses, and a friend that knows another key and a third address of it. -/
def sampleBook : AddressBook :=
  new.addOrUpdate 100 "carol" [.v4 1 9000, .v4 2 9000] "key" .manual 1.0

/-- See `sampleBook`. -/
def sampleFriend : AddressBook :=
  (new.addOrUpdate 100 "carol" [.v4 2 9000, .v4 3 9000] "other" .lan 0.7).addOrUpdate 101 "alice"
    [.v4 4 9000] "alice" .manual 1.0

/-- The receiver is left out of the response. -/
theorem known_exchange_sample :
    let response := sampleFriend.buildGossipResponse .stored "alice"
    (sampleBook.handleGossipResponse .marginal ([105].zip response)).1 = 1 ∧
      SocketAddr.v4 3 9000 ∈
        (sampleBook.handleGossipResponse .marginal
          ([105].zip response)).2.getAddresses "carol" := by
  have hone : (sampleFriend.buildGossipResponse .stored "alice").length = 1 := by
    rw [length_buildGossipResponse]
    decide
  obtain ⟨hcount, hunion, -⟩ := @known_exchange sampleBook .stored sampleFriend "alice" .marginal
    le_rfl [105] [106] (by rw [hone]; rfl) rfl
  refine ⟨hcount.trans (by decide), ((hunion "carol" (by decide)).2 _).mpr (.inr ?_)⟩
  decide

end AddressBook

end ChronoShift
