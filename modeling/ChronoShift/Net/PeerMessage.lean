import ChronoShift.Basic

/-!
# Messages of the peer-to-peer protocol

`PeerMessage` is the message enumeration of `net/tcp.rs`, variant by variant. Messages travel as
JSON; the codec belongs to another crate, so the model passes the decoded values.
-/

namespace ChronoShift

/-- The messages peers exchange. -/
inductive PeerMessage where
  | friendRequest (fromUid greeting : String)
  | friendAccept (fromUid : String)
  | channelMessage (channel fromUid text : String)
  | dcRound (channel : String) (roundId : ℕ) (xoredPayload : Bytes)
  /-- A round is announced; every participant must contribute `payloadLen` bytes. -/
  | dcRoundStart (channel : String) (roundId : ℕ) (leaderId : String)
      (participants : List String) (deadlineSecs payloadLen : ℕ)
  /-- One participant's share, signed over `(channel, roundId, xoredPayload)`. -/
  | dcRoundShare (channel : String) (roundId : ℕ) (peerUid : String)
      (xoredPayload signature : Bytes)
  | dcRoundResult (channel : String) (roundId : ℕ) (extractedMessage leaderSignature : Bytes)
  | roundSyncRequest (fromUid channel : String)
  | roundSyncResponse (leaderUid channel : String) (roundId payloadLen : ℕ)
      (shareCommitments : List (String × String))
  | leaderChange (network newLeader reason : String) (roundId : ℕ)
  | networkInvite (fromUid networkName pgpFingerprint : String) (signature : Bytes)
  | networkJoinRequest (fromUid networkName pgpFingerprint : String) (signature : Bytes)
  | networkJoinAccept (fromUid networkName : String) (memberList : List String)
      (signature : Bytes)
  | networkKick (fromUid networkName kickedUid reason : String) (signature : Bytes)
  | networkSync (fromUid networkName : String) (members : List String) (topic : String)
      (roundId : ℕ) (signature : Bytes)
  | ping (ts : ℕ)
  | pong (ts : ℕ)
  /-- First handshake message, signed over `eph_pub || nonce`. -/
  | authChallenge (fromUid publicKeyHex ephPubHex : String) (nonce signature : Bytes)
  /-- Handshake reply, signed over `challenge_eph_pub || eph_pub || nonce`. -/
  | authResponse (fromUid publicKeyHex ephPubHex : String) (signature : Bytes)
  | relayRequest (fromUid toUid originKeyHex : String) (nonce timestamp hopsLeft : ℕ)
      (signature encryptedPayload : Bytes)
  | relayResponse (fromUid toUid originKeyHex : String) (nonce timestamp hopsLeft : ℕ)
      (signature encryptedPayload : Bytes)
  deriving DecidableEq

end ChronoShift
