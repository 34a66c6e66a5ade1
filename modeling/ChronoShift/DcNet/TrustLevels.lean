import ChronoShift.DcNet.Membership

/-!
# Trust levels after a broadcast

A broadcast that holds a round gives every friend the trust level of its reputation, and not only
the members of the channel. A friend without a reputation counts as a new peer, whose level is 1. So
a broadcast verifies friends that were not, and takes back levels that were set by hand.

* `F2fDcNetBridge.broadcastMessage_trust`: the trust level of a friend after a broadcast;
* `F2fDcNetBridge.broadcast_trust_iff`: which friends a broadcast leaves at their trust level, and
  which ones it lifts to the level that channels ask for.
-/

namespace ChronoShift

open ToMathlib

/-- The trust level of a friend. Strangers have none. -/
def Bridge.getTrust (b : Bridge) (uid : String) : UInt8 :=
  ((b.friends.lookup uid).map F2fFriend.trustLevel).getD 0

namespace F2fDcNetBridge

/-- The trust level of the friend's reputation. The members of the group are rewarded first. -/
def earnedLevel (b : F2fDcNetBridge) (now : ℕ) (channel : String) (f : F2fFriend) : UInt8 :=
  let r := b.reputation.get now f.peerId.toList
  (if (b.groups.lookup channel).any (f.peerId ∈ ·.peerIds) then r.reward else r).syncLevel

variable {prim : Primitives} {serde : Serde} {env : OpEnv} {b : F2fDcNetBridge}
  {uid : String} {f : F2fFriend}

theorem getTrust_of_lookup {b : Bridge} (hf : b.friends.lookup uid = some f) :
    b.getTrust uid = f.trustLevel := by
  rw [Bridge.getTrust, hf]
  rfl

/-- A held round gives the friend its earned level, and nothing else changes a level. -/
theorem broadcastMessage_trust (hb : Sound prim b.toBridge) (hf : b.friends.lookup uid = some f)
    (channel text : String) :
    (HoldsRound prim b channel → (b.broadcastMessage prim env channel text).1.getTrust uid =
      b.earnedLevel env.now channel f) ∧
    (¬ HoldsRound prim b channel → (b.broadcastMessage prim env channel text).1.getTrust uid =
      b.getTrust uid) := by
  have hcases := @broadcastMessage_cases prim env b hb.friends channel
    (fun group hgroup => (hb.groups channel group hgroup).nodup) text
  generalize (b.broadcastMessage prim env channel text).1 = b' at hcases
  cases hcases with
  | refused hnot => exact ⟨fun h => absurd h hnot, fun _ => rfl⟩
  | opened hnot => exact ⟨fun h => absurd h hnot, fun _ => rfl⟩
  | @held group group' friends reputation nextId hheld hgroup _ _ hlookup =>
    refine ⟨fun _ => ?_, fun h => absurd hheld h⟩
    have hf' : friends.lookup uid = some (rewarded b.reputation env.now group f) := by
      rw [hlookup, hf, Option.map_some]
    rw [getTrust_of_lookup hf', earnedLevel, hgroup]
    simp [rewarded]

/-- A broadcast leaves a friend at its trust level if and only if it holds no round, or the level is
the one that the friend has earned. It lifts a friend to the level that channels ask for if and only
if it holds a round and the friend has earned that much. -/
theorem broadcast_trust_iff (prim : Primitives) (serde : Serde) (env : OpEnv) {b : F2fDcNetBridge}
    (hreach : Reachable prim serde (fun _ _ => True) (fun _ => True) b) (channel text : String)
    {uid : String} {f : F2fFriend} (hf : b.friends.lookup uid = some f) :
    let b' := (b.broadcastMessage prim env channel text).1
    (b'.getTrust uid = b.getTrust uid ↔
      ¬ HoldsRound prim b channel ∨ b.getTrust uid = b.earnedLevel env.now channel f) ∧
    (b.getTrust uid < b.minTrust →
      (b.minTrust ≤ b'.getTrust uid ↔
        HoldsRound prim b channel ∧ b.minTrust ≤ b.earnedLevel env.now channel f)) := by
  intro b'
  obtain ⟨hheld, hnot⟩ := @broadcastMessage_trust prim env b uid f hreach.sound hf channel text
  by_cases hround : HoldsRound prim b channel
  · have htrust : b'.getTrust uid = b.earnedLevel env.now channel f := hheld hround
    rw [htrust, or_iff_right (not_not_intro hround), and_iff_right hround]
    exact ⟨eq_comm, fun _ => Iff.rfl⟩
  · have htrust : b'.getTrust uid = b.getTrust uid := hnot hround
    rw [htrust]
    refine ⟨iff_of_true rfl (Or.inl hround), fun hlow => iff_of_false ?_ fun h => hround h.1⟩
    exact UInt8.not_le.mpr hlow

/-- `alice` has a channel with `bob`. Her friend `carol` is not in it, and not verified. -/
def aliceBesideCarol : F2fDcNetBridge :=
  (new "alice").doAll [.addFriend "carol" "127.0.0.1:9001" 0,
    .addFriend "bob" "127.0.0.1:9000" 1, .createChannel "#g", .joinChannel "#g" ["bob"]]

/-- `carol` as a friend of `alice`. -/
def carol : F2fFriend :=
  F2fFriend.new namePrimitives (OpEnv.still.fresh 0) "carol" "127.0.0.1:9001" 0

theorem lookup_carol : aliceBesideCarol.friends.lookup "carol" = some carol := by
  decide +kernel

theorem holdsRound_aliceBesideCarol : HoldsRound namePrimitives aliceBesideCarol "#g" := by
  obtain ⟨group, hgroup⟩ : ∃ group, aliceBesideCarol.groups.lookup "#g" = some group :=
    Option.isSome_iff_exists.mp (by decide +kernel)
  refine (holdsRound_iff hgroup).mpr ?_
  have hall : ∀ g ∈ aliceBesideCarol.groups.lookup "#g", 2 ≤ g.peerIds.length ∧
      g.minParticipants ≤ (g.participants.filter (!·.isMalicious)).length ∧
      peerIdOf namePrimitives aliceBesideCarol.myUid ∈ g.peerIds := by decide +kernel
  exact hall group hgroup

/-- A message to `bob` is a round that changes the trust level of `carol`. -/
theorem broadcast_trust_carol :
    let b' := (aliceBesideCarol.broadcastMessage namePrimitives .still "#g" "hi").1
    (b'.getTrust "carol" = aliceBesideCarol.getTrust "carol" ↔
      ¬ HoldsRound namePrimitives aliceBesideCarol "#g" ∨
        aliceBesideCarol.getTrust "carol" = aliceBesideCarol.earnedLevel 0 "#g" carol) ∧
    (aliceBesideCarol.getTrust "carol" < aliceBesideCarol.minTrust →
      (aliceBesideCarol.minTrust ≤ b'.getTrust "carol" ↔
        HoldsRound namePrimitives aliceBesideCarol "#g" ∧
          aliceBesideCarol.minTrust ≤ aliceBesideCarol.earnedLevel 0 "#g" carol)) :=
  broadcast_trust_iff namePrimitives (.ofTable [] []) .still (reachable_doAll (.start "alice") _)
    "#g" "hi" lookup_carol

/-- A message to `bob` verifies `carol`, who takes no part in the channel. -/
theorem bystander_verified :
    ¬ ∀ (prim : Primitives) (serde : Serde) (env : OpEnv) (b : F2fDcNetBridge)
      (channel text uid : String),
      Reachable prim serde (fun _ _ => True) (fun _ => True) b →
      let b' := (b.broadcastMessage prim env channel text).1
      (uid ∈ b.friends → uid ∉ b.listParticipants channel → b'.getTrust uid = b.getTrust uid) ∧
        ¬ (b.getTrust uid < b.minTrust ∧ b.minTrust ≤ b'.getTrust uid) := by
  intro hclaim
  have hlevel := (@broadcastMessage_trust namePrimitives .still aliceBesideCarol "carol" carol
    (reachable_doAll (.start "alice") _).sound lookup_carol "#g" "hi").1 holdsRound_aliceBesideCarol
  have hsame := (hclaim namePrimitives (.ofTable [] []) .still aliceBesideCarol "#g" "hi" "carol"
    (reachable_doAll (.start "alice") _)).1 (by decide +kernel) (by decide +kernel)
  rw [hlevel] at hsame
  revert hsame
  decide +kernel

end F2fDcNetBridge

end ChronoShift
