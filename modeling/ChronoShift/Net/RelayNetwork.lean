import ChronoShift.Net.RelayNode

/-!
# A network of relays

Nodes originate messages with `sendRelay` and pass them on with `handleRelayMessage`. Between the
calls each node changes its name, its paths and its connections in any way, so the routes can have
cycles. A message in flight is lost or delivered once; the network duplicates nothing.

The remaining hops of a message are its measure: they and the number of times that it has been
forwarded make up `relayMaxHops`.

* `RelayNetwork.Inv.step`: every step keeps the measure and the number of copies;
* `RelayNetwork.relay_loop_free`: one copy at a time, and at most `relayMaxHops` forwards.
-/

namespace ChronoShift

/-- A message in flight to the node `dest`. -/
structure RelayCopy where
  /-- The number of the call that has originated the message. -/
  origin : ℕ
  dest : String
  msg : PeerMessage

/-- The nodes, the messages in flight, and a record of what has happened to each message. -/
structure RelayNetwork where
  nodes : String → RelayNode
  inFlight : List RelayCopy
  /-- How many calls have originated a message. -/
  originated : ℕ
  /-- How often each message has been forwarded. -/
  forwards : ℕ → ℕ

namespace RelayNetwork

/-- Nothing is in flight yet. -/
def start (nodes : String → RelayNode) : RelayNetwork := ⟨nodes, [], 0, fun _ => 0⟩

/-- The node `uid` originates a message. -/
def send (prim : Primitives) (net : RelayNetwork) (uid : String) (env : RelayEnv)
    (toUid : String) (payload : Bytes) : RelayNetwork :=
  let result := RelayNode.sendRelay prim env (net.nodes uid) toUid payload
  { net with
    nodes := Function.update net.nodes uid result.1
    inFlight := net.inFlight ++ result.2.2.map fun out => ⟨net.originated, out.1, out.2⟩
    originated := net.originated + 1 }

/-- A copy that has left the flight, which goes on with `rest`, is handled by its node. -/
def deliver (prim : Primitives) (net : RelayNetwork) (env : RelayEnv) (copy : RelayCopy)
    (rest : List RelayCopy) : RelayNetwork :=
  let result := RelayNode.handleRelayMessage prim env (net.nodes copy.dest) copy.msg
  { net with
    nodes := Function.update net.nodes copy.dest result.1
    inFlight := rest ++ result.2.2.map fun out => ⟨copy.origin, out.1, out.2⟩
    forwards := Function.update net.forwards copy.origin
      (net.forwards copy.origin + result.2.2.length) }

/-- The node `uid` changes its name or its paths. -/
def update (net : RelayNetwork) (uid : String) (identity : Identity) (relay : RelayRouter)
    (relayNonce : ℕ) : RelayNetwork :=
  { net with
    nodes := Function.update net.nodes uid
      ⟨identity, relay, (net.nodes uid).relayVerifier, relayNonce⟩ }

/-- The steps of the network. -/
inductive Step (prim : Primitives) (net : RelayNetwork) : RelayNetwork → Prop
  | send (uid : String) (env : RelayEnv) (toUid : String) (payload : Bytes) :
      Step prim net (net.send prim uid env toUid payload)
  | deliver (env : RelayEnv) {before after : List RelayCopy} {copy : RelayCopy}
      (hflight : net.inFlight = before ++ copy :: after) :
      Step prim net (net.deliver prim env copy (before ++ after))
  /-- A message is lost, or refused by the connection that it was meant for. -/
  | lose {before after : List RelayCopy} {copy : RelayCopy}
      (hflight : net.inFlight = before ++ copy :: after) :
      Step prim net { net with inFlight := before ++ after }
  | update (uid : String) (identity : Identity) (relay : RelayRouter) (relayNonce : ℕ) :
      Step prim net (net.update uid identity relay relayNonce)

/-- The networks that nodes in any state can come to. -/
inductive Reachable (prim : Primitives) : RelayNetwork → Prop
  | start (nodes : String → RelayNode) : Reachable prim (start nodes)
  | step {net net' : RelayNetwork} : Reachable prim net → Step prim net net' → Reachable prim net'

/-- What holds of every reachable network. -/
structure Inv (net : RelayNetwork) : Prop where
  /-- There is at most one copy of each message. -/
  single : (net.inFlight.map (·.origin)).Nodup
  /-- A copy stems from a call. -/
  origin_lt : ∀ copy ∈ net.inFlight, copy.origin < net.originated
  /-- What a copy has left of its hops. -/
  hops : ∀ copy ∈ net.inFlight, ∃ m : RelayFields, copy.msg = m.toMessage ∧
    net.forwards copy.origin + m.hopsLeft = relayMaxHops
  /-- No message is forwarded more often than this. -/
  forwards_le : ∀ origin, net.forwards origin ≤ relayMaxHops
  /-- A message is not forwarded before its call. -/
  forwards_new : ∀ origin, net.originated ≤ origin → net.forwards origin = 0

variable {prim : Primitives} {net net' : RelayNetwork}

/-- No message is on its way. -/
theorem inv_start (nodes : String → RelayNode) : (start nodes).Inv where
  single := List.nodup_nil
  origin_lt := by simp [start]
  hops := by simp [start]
  forwards_le _ := Nat.zero_le _
  forwards_new _ _ := rfl

/-- Taking a copy out of the flight leaves no copy of its message. -/
theorem Inv.remove {before after : List RelayCopy} {copy : RelayCopy} (h : net.Inv)
    (hflight : net.inFlight = before ++ copy :: after) :
    { net with inFlight := before ++ after }.Inv ∧
      copy.origin ∉ (before ++ after).map (·.origin) := by
  have hperm : net.inFlight.Perm (copy :: (before ++ after)) := hflight ▸ List.perm_middle
  have hnodup := (hperm.map (·.origin)).nodup_iff.mp h.single
  rw [List.map_cons, List.nodup_cons] at hnodup
  have hmem : ∀ c ∈ before ++ after, c ∈ net.inFlight :=
    fun c hc => hperm.mem_iff.mpr (List.mem_cons_of_mem _ hc)
  refine ⟨⟨hnodup.2, ?_, ?_, h.forwards_le, h.forwards_new⟩, hnodup.1⟩
  · exact fun c hc => h.origin_lt c (hmem c hc)
  · exact fun c hc => h.hops c (hmem c hc)

/-- Putting in a copy of a message that has none. -/
theorem Inv.add (h : net.Inv) {origin : ℕ} (dest : String) (m : RelayFields)
    (hlt : origin < net.originated) (hnew : origin ∉ net.inFlight.map (·.origin))
    (hhops : net.forwards origin + m.hopsLeft = relayMaxHops) :
    { net with inFlight := net.inFlight ++ [RelayCopy.mk origin dest m.toMessage] }.Inv := by
  refine ⟨?_, ?_, ?_, h.forwards_le, h.forwards_new⟩
  · rw [List.map_append, List.map_singleton, List.nodup_append_comm]
    exact List.nodup_cons.mpr ⟨hnew, h.single⟩
  · intro c hc
    obtain hc | hc := List.mem_append.mp hc
    · exact h.origin_lt c hc
    · rwa [List.mem_singleton.mp hc]
  · intro c hc
    obtain hc | hc := List.mem_append.mp hc
    · exact h.hops c hc
    · rw [List.mem_singleton.mp hc]
      exact ⟨m, rfl, hhops⟩

/-- A call adds one copy at most, which has all of its hops left. -/
theorem Inv.send (h : net.Inv) (uid : String) (env : RelayEnv) (toUid : String)
    (payload : Bytes) : (net.send prim uid env toUid payload).Inv := by
  -- the call takes a number of its own, whether or not it sends
  have hcall : { net with originated := net.originated + 1 }.Inv :=
    ⟨h.single, fun copy hcopy => Nat.lt_succ_of_lt (h.origin_lt copy hcopy), h.hops,
      h.forwards_le, fun origin hle => h.forwards_new origin (Nat.le_of_succ_le hle)⟩
  have hnew : net.originated ∉ net.inFlight.map (·.origin) := by
    intro hmem
    obtain ⟨copy, hcopy, heq⟩ := List.mem_map.mp hmem
    have hlt := h.origin_lt copy hcopy
    omega
  rw [RelayNetwork.send]
  obtain hout | ⟨dest, m, hout, hhops⟩ := RelayNode.sendRelay_outgoing prim env (net.nodes uid)
    toUid payload
  · simp only [hout, List.map_nil, List.append_nil]
    exact ⟨hcall.single, hcall.origin_lt, hcall.hops, hcall.forwards_le, hcall.forwards_new⟩
  · simp only [hout, List.map_cons, List.map_nil]
    have hall : net.forwards net.originated + m.hopsLeft = relayMaxHops := by
      rw [h.forwards_new _ le_rfl, hhops, Nat.zero_add]
    have hadd := hcall.add dest m (Nat.lt_succ_self _) hnew hall
    exact ⟨hadd.single, hadd.origin_lt, hadd.hops, hadd.forwards_le, hadd.forwards_new⟩

/-- The number of forwards of a message that has no copy in flight may grow. -/
theorem Inv.count (h : net.Inv) {origin n : ℕ} (hlt : origin < net.originated)
    (hnew : origin ∉ net.inFlight.map (·.origin)) (hn : n ≤ relayMaxHops) :
    { net with forwards := Function.update net.forwards origin n }.Inv := by
  refine ⟨h.single, h.origin_lt, ?_, ?_, ?_⟩
  · intro c hc
    have hne : c.origin ≠ origin := fun heq => hnew (heq ▸ List.mem_map_of_mem hc)
    simpa only [Function.update_of_ne hne] using h.hops c hc
  · intro origin'
    obtain rfl | hne := eq_or_ne origin' origin
    · simpa only [Function.update_self] using hn
    · simpa only [Function.update_of_ne hne] using h.forwards_le origin'
  · intro origin' hle
    have hle' : net.originated ≤ origin' := hle
    have hne : origin' ≠ origin := by omega
    simpa only [Function.update_of_ne hne] using h.forwards_new origin' hle'

/-- A copy that is delivered goes on with one hop less, or no further. -/
theorem Inv.deliver (h : net.Inv) (env : RelayEnv) {before after : List RelayCopy}
    {copy : RelayCopy} (hflight : net.inFlight = before ++ copy :: after) :
    (net.deliver prim env copy (before ++ after)).Inv := by
  obtain ⟨hrest, hnew⟩ := h.remove hflight
  have hmem : copy ∈ net.inFlight := by rw [hflight]; simp
  have hlt := h.origin_lt copy hmem
  obtain ⟨m, hm, hhops⟩ := h.hops copy hmem
  rw [RelayNetwork.deliver, hm]
  obtain hout | ⟨dest, hout, hpos⟩ := RelayNode.handleRelayMessage_outgoing prim env
    (net.nodes copy.dest) m
  · simp only [hout, List.map_nil, List.append_nil, List.length_nil, Nat.add_zero,
      Function.update_eq_self]
    exact ⟨hrest.single, hrest.origin_lt, hrest.hops, hrest.forwards_le, hrest.forwards_new⟩
  -- the forwarded copy has one hop less, and has been forwarded once more
  · simp only [hout, List.map_cons, List.map_nil, List.length_singleton]
    have hle : net.forwards copy.origin + 1 ≤ relayMaxHops := by omega
    have hleft : Function.update net.forwards copy.origin (net.forwards copy.origin + 1)
        copy.origin + (m.hopsLeft - 1) = relayMaxHops := by
      rw [Function.update_self]
      omega
    have hadd := (hrest.count hlt hnew hle).add dest { m with hopsLeft := m.hopsLeft - 1 } hlt
      hnew hleft
    exact ⟨hadd.single, hadd.origin_lt, hadd.hops, hadd.forwards_le, hadd.forwards_new⟩

/-- Every step keeps the number of copies and the measure of each message. -/
theorem Inv.step (h : net.Inv) (hstep : Step prim net net') : net'.Inv := by
  cases hstep with
  | send uid env toUid payload => exact h.send uid env toUid payload
  | deliver env hflight => exact h.deliver env hflight
  | lose hflight => exact (h.remove hflight).1
  | update uid identity relay relayNonce =>
    exact ⟨h.single, h.origin_lt, h.hops, h.forwards_le, h.forwards_new⟩

/-- The invariant holds in every network. -/
theorem Reachable.inv (h : Reachable prim net) : net.Inv := by
  induction h with
  | start nodes => exact inv_start nodes
  | step _ hstep ih => exact ih.step hstep

/-- Whatever the routes and the order of deliveries, a message has at most one copy in flight, and
is forwarded at most `relayMaxHops` times. -/
theorem relay_loop_free (h : Reachable prim net) (origin : ℕ) :
    (net.inFlight.map (·.origin)).count origin ≤ 1 ∧ net.forwards origin ≤ relayMaxHops :=
  ⟨List.nodup_iff_count_le_one.mp h.inv.single origin, h.inv.forwards_le origin⟩

/-- Nodes with the same key, and a path to `c` through `b`. -/
def sampleNodes (uid : String) : RelayNode :=
  ⟨⟨uid, hexEncode (List.replicate 32 0), hexEncode (List.replicate 32 0), 0⟩,
    RelayRouter.new.addPath "c" "b", .new, 0⟩

/-- A connection to `uid` is open. -/
def sampleEnv (uid : String) : RelayEnv := ⟨⟨.singleton uid ⟨0, 1⟩, ∅, 2⟩, 0, true⟩

/-- The oldest message in flight is delivered. -/
def deliverFirst (net : RelayNetwork) (env : RelayEnv) : RelayNetwork :=
  match net.inFlight with
  | [] => net
  | copy :: rest => net.deliver .const env copy rest

/-- Delivering the oldest message is a step, if there is one. -/
theorem Reachable.deliverFirst (h : Reachable .const net) (env : RelayEnv) :
    Reachable .const (net.deliverFirst env) := by
  unfold RelayNetwork.deliverFirst
  split
  · exact h
  next copy rest hflight =>
    have hfirst : net.inFlight = [] ++ copy :: rest := hflight
    exact h.step (.deliver env hfirst)

/-- `a` sends a message for `c` to `b`, which forwards it to `c`. -/
def sampleRelay : RelayNetwork :=
  ((start sampleNodes).send .const "a" (sampleEnv "b") "c" [1, 2, 3]).deliverFirst (sampleEnv "c")

/-- The message has been forwarded once, and its only copy is in flight to `c`. -/
theorem relay_loop_free_forwarded :
    sampleRelay.inFlight.map (·.dest) = ["c"] ∧ sampleRelay.forwards 0 = 1 ∧
      (sampleRelay.inFlight.map (·.origin)).count 0 ≤ 1 ∧
      sampleRelay.forwards 0 ≤ relayMaxHops := by
  have hreach : Reachable .const sampleRelay :=
    Reachable.deliverFirst (.step (.start _) (.send "a" (sampleEnv "b") "c" [1, 2, 3])) _
  exact ⟨by decide +kernel, by decide +kernel, relay_loop_free hreach 0⟩

end RelayNetwork

end ChronoShift
