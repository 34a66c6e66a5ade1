import ChronoShift.Net.PeerMessage

/-!
# Relay messages

The relay of `net/relay.rs`: what the signature of a relayed message covers, the table of relay
paths, and the admission control that every relayed message passes. The remaining hops are left out
of the signature, so that a relay can count them down.

The verifier keeps three tables. Each is cleared as a whole once it holds its maximal number of
entries, so what it remembers of a key can be forgotten.

* `RelayVerifier.check_ok_iff`: the three tests that an admitted message passes;
* `RelayVerifier.lastNonce_check_of_ne_ok`: only an admitted message changes the nonces.
-/

namespace ChronoShift

/-- Domain separator of relay signatures. -/
def relaySigDomain : Bytes := asBytes "chrono-relay-v1"

/-- Maximal number of hops of a relayed message. -/
def relayMaxHops : ℕ := 8

/-- Accepted clock skew, in seconds. -/
def relayMaxAgeSecs : ℕ := 60

def relayRateWindowSecs : ℕ := 60

/-- Requests admitted per key in one window. -/
def relayMaxPerWindow : ℕ := 60

/-- Bound on the tables of nonces and rates. -/
def maxRelayTracked : ℕ := 4096

/-- Bound on the table of pinned keys. -/
def maxRelayPins : ℕ := 4096

/-- The bytes a relay signature covers. -/
def relaySignatureMessage (fromUid toUid : String) (nonce timestamp : ℕ) (payload : Bytes) :
    Bytes :=
  relaySigDomain ++ beBytes 4 (asBytes fromUid).length ++ asBytes fromUid ++
    beBytes 4 (asBytes toUid).length ++ asBytes toUid ++ beBytes 8 nonce ++ beBytes 8 timestamp ++
    beBytes 4 payload.length ++ payload

/-- Sign a relayed message with the identity key of its originator. -/
def signRelay (prim : Primitives) (signingKey : Bytes32) (fromUid toUid : String)
    (nonce timestamp : ℕ) (payload : Bytes) : Bytes :=
  prim.sign signingKey (relaySignatureMessage fromUid toUid nonce timestamp payload)

/-- Verify a relay signature. -/
def verifyRelay (prim : Primitives) (vk : Bytes32) (fromUid toUid : String) (nonce timestamp : ℕ)
    (payload signature : Bytes) : Bool :=
  prim.verify vk (relaySignatureMessage fromUid toUid nonce timestamp payload) signature

/-- Relays only count the hops down, so a message with more than the maximum was crafted. -/
def validInboundHops (hopsLeft : ℕ) : Bool := hopsLeft ≤ relayMaxHops

/-- One way to reach `targetUid`, through `relayUid`. -/
structure RelayPath where
  relayUid : String
  targetUid : String
  active : Bool
  deriving DecidableEq

/-- The relay paths known for each target. -/
structure RelayRouter where
  paths : HashMap String (List RelayPath)

namespace RelayRouter

def new : RelayRouter := ⟨∅⟩

/-- Register a path to `targetUid` through `relayUid`. -/
def addPath (r : RelayRouter) (targetUid relayUid : String) : RelayRouter :=
  ⟨r.paths.insert targetUid
    ((r.paths.lookup targetUid).getD [] ++ [⟨relayUid, targetUid, true⟩])⟩

/-- The active paths of a target. -/
def getPaths (r : RelayRouter) (targetUid : String) : List RelayPath :=
  ((r.paths.lookup targetUid).map (·.filter (·.active))).getD []

/-- The first active hop toward a target. -/
def nextHop (r : RelayRouter) (targetUid : String) : Option String :=
  (r.getPaths targetUid).head?.map (·.relayUid)

end RelayRouter

/-- `u64::abs_diff`. -/
def absDiff (a b : ℕ) : ℕ := if a < b then b - a else a - b

/-- Admission control for relayed messages. -/
structure RelayVerifier where
  /-- The highest nonce admitted for each identity key. -/
  lastNonce : HashMap String ℕ
  /-- For each identity key, the start of its window and the number of messages admitted in it. -/
  rate : HashMap String (ℕ × ℕ)
  /-- The identity key first seen with each sender. -/
  keyPins : HashMap String String

namespace RelayVerifier

def new : RelayVerifier := ⟨∅, ∅, ∅⟩

/-- Pin the identity key of a sender, or compare it with the pinned one. -/
def pinKey (v : RelayVerifier) (sender keyHex : String) : Except String Unit × RelayVerifier :=
  match v.keyPins.lookup sender with
  | none =>
    let keyPins := if maxRelayPins ≤ v.keyPins.entries.length then ∅ else v.keyPins
    (.ok (), { v with keyPins := keyPins.insert sender keyHex })
  | some prev =>
    if prev = keyHex then (.ok (), v)
    else (.error s!"identity key changed for {sender}", v)

/-- The rates before the entry of a key is read: a full table is cleared. -/
def trimmedRate (v : RelayVerifier) : HashMap String (ℕ × ℕ) :=
  if maxRelayTracked ≤ v.rate.entries.length then ∅ else v.rate

/-- The nonces before a new one is entered: a full table is cleared. -/
def trimmedNonce (v : RelayVerifier) : HashMap String ℕ :=
  if maxRelayTracked ≤ v.lastNonce.entries.length then ∅ else v.lastNonce

/-- The window of a key at time `now`: a new one if there is none, or if it has run out. -/
def window (v : RelayVerifier) (keyHex : String) (now : ℕ) : ℕ × ℕ :=
  let entry := (v.trimmedRate.lookup keyHex).getD (now, 0)
  if relayRateWindowSecs ≤ absDiff now entry.1 then (now, 0) else entry

/-- Admit or reject one relayed message, by the identity key that has signed it. -/
def check (v : RelayVerifier) (keyHex : String) (nonce timestamp now : ℕ) :
    Except String Unit × RelayVerifier :=
  -- nonces must increase strictly
  match (v.lastNonce.lookup keyHex).filter (nonce ≤ ·) with
  | some last => (.error s!"replayed nonce {nonce} (last {last})", v)
  | none =>
    if relayMaxAgeSecs < absDiff now timestamp then
      (.error s!"timestamp {timestamp} outside freshness window", v)
    else
      let entry := v.window keyHex now
      -- a refused message leaves the trimmed table and the opened window behind
      if relayMaxPerWindow ≤ entry.2 then
        (.error s!"rate limit exceeded for identity key {keyHex}",
          { v with rate := v.trimmedRate.insert keyHex entry })
      else
        (.ok (), { v with
          rate := v.trimmedRate.insert keyHex (entry.1, entry.2 + 1)
          lastNonce := v.trimmedNonce.insert keyHex nonce })

/-- What a call of `check` can do: refuse without a trace, refuse over the rate, or admit. -/
theorem check_cases (v : RelayVerifier) (keyHex : String) (nonce timestamp now : ℕ) :
    (∃ e, v.check keyHex nonce timestamp now = (.error e, v)) ∨
    (∃ e, relayMaxPerWindow ≤ (v.window keyHex now).2 ∧ v.check keyHex nonce timestamp now =
      (.error e, { v with rate := v.trimmedRate.insert keyHex (v.window keyHex now) })) ∨
    ((∀ last, v.lastNonce.lookup keyHex = some last → last < nonce) ∧
      absDiff now timestamp ≤ relayMaxAgeSecs ∧ (v.window keyHex now).2 < relayMaxPerWindow ∧
      v.check keyHex nonce timestamp now = (.ok (), { v with
        rate := v.trimmedRate.insert keyHex
          ((v.window keyHex now).1, (v.window keyHex now).2 + 1)
        lastNonce := v.trimmedNonce.insert keyHex nonce })) := by
  rw [check]
  split
  next last hlast => exact .inl ⟨_, rfl⟩
  next hnone =>
    have hnew : ∀ last, v.lastNonce.lookup keyHex = some last → last < nonce := by
      intro last hlast
      rw [hlast] at hnone
      simpa [Option.filter] using hnone
    split
    next => exact .inl ⟨_, rfl⟩
    next hage =>
      dsimp only
      split
      next hrate => exact .inr (.inl ⟨_, hrate, rfl⟩)
      next hrate => exact .inr (.inr ⟨hnew, not_lt.mp hage, not_le.mp hrate, rfl⟩)

/-- A message passes with a new nonce, in time, and within its rate. -/
theorem check_ok_iff (v : RelayVerifier) (keyHex : String) (nonce timestamp now : ℕ) :
    (v.check keyHex nonce timestamp now).1 = .ok () ↔
      (∀ last, v.lastNonce.lookup keyHex = some last → last < nonce) ∧
        absDiff now timestamp ≤ relayMaxAgeSecs ∧
        (v.window keyHex now).2 < relayMaxPerWindow := by
  constructor
  · intro hok
    obtain ⟨e, h⟩ | ⟨e, -, h⟩ | ⟨hnew, hage, hrate, -⟩ := v.check_cases keyHex nonce timestamp now
    · rw [h] at hok
      cases hok
    · rw [h] at hok
      cases hok
    · exact ⟨hnew, hage, hrate⟩
  · rintro ⟨hnew, hage, hrate⟩
    have hnone : (v.lastNonce.lookup keyHex).filter (nonce ≤ ·) = none := by
      rw [Option.filter_eq_none_iff]
      intro last hlast
      simpa using hnew last hlast
    rw [check, hnone]
    dsimp only
    rw [if_neg (not_lt.mpr hage), if_neg (not_le.mpr hrate)]

/-- An admitted message enters its nonce in the trimmed table. -/
theorem lastNonce_check_of_ok {v : RelayVerifier} {keyHex : String} {nonce timestamp now : ℕ}
    (hok : (v.check keyHex nonce timestamp now).1 = .ok ()) :
    (v.check keyHex nonce timestamp now).2.lastNonce = v.trimmedNonce.insert keyHex nonce := by
  obtain ⟨e, h⟩ | ⟨e, -, h⟩ | ⟨-, -, -, h⟩ := v.check_cases keyHex nonce timestamp now
  · rw [h] at hok
    cases hok
  · rw [h] at hok
    cases hok
  · rw [h]

/-- A rejected message leaves the nonces alone. -/
theorem lastNonce_check_of_ne_ok {v : RelayVerifier} {keyHex : String} {nonce timestamp now : ℕ}
    (hne : (v.check keyHex nonce timestamp now).1 ≠ .ok ()) :
    (v.check keyHex nonce timestamp now).2.lastNonce = v.lastNonce := by
  obtain ⟨e, h⟩ | ⟨e, -, h⟩ | ⟨-, -, -, h⟩ := v.check_cases keyHex nonce timestamp now
  · rw [h]
  · rw [h]
  · rw [h] at hne
    exact absurd rfl hne

end RelayVerifier

/-- What the originator of a relayed message fills in. -/
structure RelayOrigin where
  signingKey : Bytes32
  /-- The identity key of the originator, with which a recipient can verify the signature. -/
  originKeyHex : String
  fromUid : String
  toUid : String
  nonce : ℕ
  timestamp : ℕ
  hopsLeft : ℕ

/-- Build a relay request; the payload is already encrypted end to end. -/
def buildRelayRequest (prim : Primitives) (origin : RelayOrigin) (encrypted : Bytes) :
    PeerMessage :=
  .relayRequest origin.fromUid origin.toUid origin.originKeyHex origin.nonce origin.timestamp
    (min origin.hopsLeft relayMaxHops)
    (signRelay prim origin.signingKey origin.fromUid origin.toUid origin.nonce origin.timestamp
      encrypted)
    encrypted

end ChronoShift
