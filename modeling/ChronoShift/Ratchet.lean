import ChronoShift.Net.SecureFrames

/-!
# The ratchet

The symmetric ratchet of `ratchet.rs`: a handshake gives both sides one root key, every message has
a key of its own, and the chain key moves on after every message. A run is any sequence of calls on
the state of one side; what the network does to the frames in between is left open.

Random values are arguments. A call that panics (AES-256-GCM refuses the plaintext) has no result.
Indices wrap around at `2 ^ 64`, as in a release build.

* `Effect`, `runs_of_run`: what a call can do after the handshake;
* `Runs.getElem?_encryptCalls`, `Runs.getElem?_received`: under which keys messages are sent and
  accepted;
* `fresh_handshake_fst`, `fresh_handshake_snd`: the handshake agrees on the root key;
* `eavesdrop_sent`: what follows from a chain key.
-/

namespace ChronoShift

/-- State of one side; the counter of snapshots is never read. -/
structure RatchetState where
  dhPrivate : Bytes32
  dhPublic : Bytes32
  rootKey : Bytes32
  sendChain : Bytes32
  recvChain : Bytes32
  sendIdx : ℕ
  recvIdx : ℕ
  /-- A message with a smaller index is taken for a replay. -/
  expectedRecvIdx : ℕ
  prevHash : Bytes32
  handshakeDone : Bool
  deriving DecidableEq

/-- A call on the state of one side. -/
inductive RatchetOp where
  | completeHandshake (peerPublic : Bytes32)
  | encrypt (nonce : Vector UInt8 12) (plaintext : Bytes)
  | decrypt (encrypted : Bytes) (msgIdx : ℕ)
  | dhRatchetAdvance (newPrivate peerNewPublic : Bytes32)

/-- What a call returns. -/
inductive RatchetOutput where
  | unit
  | encrypted (frame : Bytes) (msgIdx : ℕ) (hash : Bytes32)
  | decrypted (result : Option (Bytes × Bytes32))

/-- A message, as the side that sends it and the side that accepts it see it. -/
structure RatchetMessage where
  plaintext : Bytes
  frame : Bytes
  msgIdx : ℕ
  deriving DecidableEq

/-- The calls of a run, each with what it has returned. -/
abbrev RatchetTrace := List (RatchetOp × RatchetOutput)

section Definitions

variable (prim : Primitives) (aead : Aead)

/-- `hkdf_expand` of `ratchet.rs`. -/
def ratchetExpand (prk info : Bytes) : Bytes32 := prim.hkdf none prk info

/-- The key of a message; its index is little-endian. -/
def messageKey (chain : Bytes32) (msgIdx : ℕ) : Bytes32 :=
  ratchetExpand prim chain.toList (beBytes 8 msgIdx).reverse

/-- The next key of a chain. -/
def advanceChain (chain : Bytes32) : Bytes32 :=
  ratchetExpand prim chain.toList (asBytes "chain-advance")

/-- The chain hash after one more frame. -/
def chainHash (prevHash : Bytes32) (frame : Bytes) : Bytes32 :=
  prim.sha256 (prevHash.toList ++ frame)

namespace RatchetState

/-- The state before the handshake. -/
def newAlice (dhPrivate : Bytes32) : RatchetState where
  dhPrivate := dhPrivate
  dhPublic := prim.x25519Public dhPrivate
  rootKey := .replicate 32 0
  sendChain := .replicate 32 0
  recvChain := .replicate 32 0
  sendIdx := 0
  recvIdx := 0
  expectedRecvIdx := 1
  prevHash := .replicate 32 0
  handshakeDone := false

/-- Derive the root key from the key of the peer. A second handshake is ignored. -/
def completeHandshake (state : RatchetState) (peerPublic : Bytes32) : RatchetState :=
  if state.handshakeDone then state
  else
    let sharedSecret := prim.diffieHellman state.dhPrivate peerPublic
    let rootKey := ratchetExpand prim sharedSecret.toList (asBytes "chrono-ratchet-v1")
    { state with
      rootKey := rootKey, sendChain := rootKey, recvChain := rootKey, handshakeDone := true }

/-- The state of the side that knows the key of the other one from the start. -/
def newBob (dhPrivate alicePublic : Bytes32) : RatchetState :=
  (newAlice prim dhPrivate).completeHandshake prim alicePublic

/-- Encrypt a message. Returns the frame, its index and the chain hash. -/
def encrypt (state : RatchetState) (nonce : Vector UInt8 12) (plaintext : Bytes) :
    Option ((Bytes × ℕ × Bytes32) × RatchetState) :=
  let sendIdx := nextSeq state.sendIdx
  let msgKey := messageKey prim state.sendChain sendIdx
  match aead.encrypt msgKey nonce plaintext with
  | none => none
  | some ciphertext =>
    let sendChain := advanceChain prim state.sendChain
    let result := nonce.toList ++ ciphertext
    let hash := chainHash prim state.prevHash result
    some ((result, sendIdx, hash),
      { state with sendIdx := sendIdx, sendChain := sendChain, prevHash := hash })

/-- Decrypt a message. The window moves only after the frame has been authenticated. -/
def decrypt (state : RatchetState) (encrypted : Bytes) (msgIdx : ℕ) :
    Option (Bytes × Bytes32) × RatchetState :=
  if encrypted.length < 28 then (none, state)
  else if msgIdx < state.expectedRecvIdx then (none, state)
  else
    let msgKey := messageKey prim state.recvChain msgIdx
    match aead.decrypt msgKey (encrypted.take 12) (encrypted.drop 12) with
    | none => (none, state)
    | some plaintext =>
      let hash := chainHash prim state.prevHash encrypted
      (some (plaintext, hash),
        { state with
          expectedRecvIdx := nextSeq msgIdx
          recvChain := advanceChain prim state.recvChain
          prevHash := hash
          recvIdx := msgIdx })

/-- Mix two shared secrets into the root key, and replace the key pair. -/
def dhRatchetAdvance (state : RatchetState) (newPrivate peerNewPublic : Bytes32) :
    RatchetState :=
  let shared1 := prim.diffieHellman state.dhPrivate peerNewPublic
  let shared2 := prim.diffieHellman newPrivate peerNewPublic
  { state with
    rootKey := ratchetExpand prim (shared1.toList ++ shared2.toList) (asBytes "dh-ratchet")
    dhPrivate := newPrivate
    dhPublic := prim.x25519Public newPrivate }

/-- One call. -/
def step (state : RatchetState) : RatchetOp → Option (RatchetOutput × RatchetState)
  | .completeHandshake peerPublic => some (.unit, state.completeHandshake prim peerPublic)
  | .encrypt nonce plaintext =>
    (state.encrypt prim aead nonce plaintext).map fun ((frame, msgIdx, hash), next) =>
      (.encrypted frame msgIdx hash, next)
  | .decrypt encrypted msgIdx =>
    let (result, next) := state.decrypt prim aead encrypted msgIdx
    some (.decrypted result, next)
  | .dhRatchetAdvance newPrivate peerNewPublic =>
    some (.unit, state.dhRatchetAdvance prim newPrivate peerNewPublic)

/-- Several calls, one after the other. -/
def run (state : RatchetState) : List RatchetOp → Option (RatchetTrace × RatchetState)
  | [] => some ([], state)
  | op :: ops =>
    match state.step prim aead op with
    | none => none
    | some (output, next) => (run next ops).map fun (trace, last) => ((op, output) :: trace, last)

/-- The calls of AES-256-GCM that encrypt something in a run. -/
def encryptCalls (state : RatchetState) : List RatchetOp → List EncryptCall
  | [] => []
  | op :: ops =>
    match state.step prim aead op with
    | none => []
    | some (_, next) =>
      match op with
      | .encrypt nonce plaintext =>
        ⟨messageKey prim state.sendChain (nextSeq state.sendIdx), nonce, plaintext⟩ ::
          encryptCalls next ops
      | _ => encryptCalls next ops

end RatchetState

/-- Both sides after the handshake: `new_alice`, `new_bob` with the key of the one side, and
`complete_handshake` with the key of the other one. -/
def ratchetHandshake (alicePrivate bobPrivate : Bytes32) : RatchetState × RatchetState :=
  let alice := RatchetState.newAlice prim alicePrivate
  let bob := RatchetState.newBob prim bobPrivate alice.dhPublic
  (alice.completeHandshake prim bob.dhPublic, bob)

/-- The root key that a handshake agrees on. -/
def handshakeRoot (alicePrivate bobPrivate : Bytes32) : Bytes32 :=
  ratchetExpand prim (prim.diffieHellman alicePrivate (prim.x25519Public bobPrivate)).toList
    (asBytes "chrono-ratchet-v1")

end Definitions

namespace RatchetTrace

/-- The message that a call has sent. -/
def sentMessage : RatchetOp × RatchetOutput → Option RatchetMessage
  | (.encrypt _ plaintext, .encrypted frame msgIdx _) => some ⟨plaintext, frame, msgIdx⟩
  | _ => none

/-- The message that a call has accepted. -/
def receivedMessage : RatchetOp × RatchetOutput → Option RatchetMessage
  | (.decrypt encrypted msgIdx, .decrypted (some (plaintext, _))) =>
    some ⟨plaintext, encrypted, msgIdx⟩
  | _ => none

/-- The frame that was presented, with its index. -/
def presentedFrame : RatchetOp × RatchetOutput → Option (Bytes × ℕ)
  | (.decrypt encrypted msgIdx, _) => some (encrypted, msgIdx)
  | _ => none

/-- The frame that has entered the chain hash. -/
def hashedFrame (entry : RatchetOp × RatchetOutput) : Option Bytes :=
  ((sentMessage entry).or (receivedMessage entry)).map RatchetMessage.frame

def sent (trace : RatchetTrace) : List RatchetMessage := trace.filterMap sentMessage

def received (trace : RatchetTrace) : List RatchetMessage := trace.filterMap receivedMessage

def presented (trace : RatchetTrace) : List (Bytes × ℕ) := trace.filterMap presentedFrame

def transcript (trace : RatchetTrace) : List Bytes := trace.filterMap hashedFrame

/-- An encryption adds its message to what was sent. -/
theorem sent_encrypt (nonce : Vector UInt8 12) (plaintext frame : Bytes) (msgIdx : ℕ)
    (hash : Bytes32) (trace : RatchetTrace) :
    sent ((.encrypt nonce plaintext, .encrypted frame msgIdx hash) :: trace) =
      ⟨plaintext, frame, msgIdx⟩ :: trace.sent :=
  rfl

/-- An accepted frame adds its message to what was received. -/
theorem received_decrypt (encrypted plaintext : Bytes) (msgIdx : ℕ) (hash : Bytes32)
    (trace : RatchetTrace) :
    received ((.decrypt encrypted msgIdx, .decrypted (some (plaintext, hash))) :: trace) =
      ⟨plaintext, encrypted, msgIdx⟩ :: trace.received :=
  rfl

/-- A frame counts as presented, whether it is accepted or not. -/
theorem presented_decrypt (encrypted : Bytes) (msgIdx : ℕ) (output : RatchetOutput)
    (trace : RatchetTrace) :
    presented ((.decrypt encrypted msgIdx, output) :: trace) =
      (encrypted, msgIdx) :: trace.presented :=
  rfl

end RatchetTrace

open RatchetTrace

variable {prim : Primitives} {aead : Aead}

/-! ## What a call can do -/

/-- The state after a frame has been sent. -/
def RatchetState.afterSent (prim : Primitives) (state : RatchetState) (frame : Bytes) :
    RatchetState :=
  { state with
    sendIdx := nextSeq state.sendIdx
    sendChain := advanceChain prim state.sendChain
    prevHash := chainHash prim state.prevHash frame }

/-- The state after a frame has been accepted. -/
def RatchetState.afterReceived (prim : Primitives) (state : RatchetState) (encrypted : Bytes)
    (msgIdx : ℕ) : RatchetState :=
  { state with
    expectedRecvIdx := nextSeq msgIdx
    recvChain := advanceChain prim state.recvChain
    prevHash := chainHash prim state.prevHash encrypted
    recvIdx := msgIdx }

/-- What a call does after the handshake: it sends, accepts or refuses a message, or it leaves
everything alone that messages depend on. -/
inductive Effect (prim : Primitives) (aead : Aead) (state : RatchetState) :
    RatchetOp → RatchetOutput → RatchetState → Prop
  | sent {nonce : Vector UInt8 12} {plaintext frame : Bytes}
      (h : encryptE2e aead nonce plaintext
        (messageKey prim state.sendChain (nextSeq state.sendIdx)) = some frame) :
      Effect prim aead state (.encrypt nonce plaintext)
        (.encrypted frame (nextSeq state.sendIdx) (chainHash prim state.prevHash frame))
        (state.afterSent prim frame)
  | received {encrypted plaintext : Bytes} {msgIdx : ℕ} (hwindow : state.expectedRecvIdx ≤ msgIdx)
      (h : decryptE2e aead encrypted (messageKey prim state.recvChain msgIdx) = some plaintext) :
      Effect prim aead state (.decrypt encrypted msgIdx)
        (.decrypted (some (plaintext, chainHash prim state.prevHash encrypted)))
        (state.afterReceived prim encrypted msgIdx)
  | refused {encrypted : Bytes} {msgIdx : ℕ}
      (h : msgIdx < state.expectedRecvIdx ∨
        decryptE2e aead encrypted (messageKey prim state.recvChain msgIdx) = none) :
      Effect prim aead state (.decrypt encrypted msgIdx) (.decrypted none) state
  | handshake {peerPublic : Bytes32} :
      Effect prim aead state (.completeHandshake peerPublic) .unit state
  | rekeyed {newPrivate peerNewPublic : Bytes32} (dhPublic rootKey : Bytes32) :
      Effect prim aead state (.dhRatchetAdvance newPrivate peerNewPublic) .unit
        { state with dhPrivate := newPrivate, dhPublic := dhPublic, rootKey := rootKey }

/-- The frame is the one that `encrypt_e2e` of `crypto.rs` makes under the key of the message. -/
theorem RatchetState.encrypt_eq (state : RatchetState) (nonce : Vector UInt8 12)
    (plaintext : Bytes) :
    state.encrypt prim aead nonce plaintext =
      (encryptE2e aead nonce plaintext
        (messageKey prim state.sendChain (nextSeq state.sendIdx))).map fun frame =>
          ((frame, nextSeq state.sendIdx, chainHash prim state.prevHash frame),
            state.afterSent prim frame) := by
  rw [RatchetState.encrypt, encryptE2e]
  cases aead.encrypt (messageKey prim state.sendChain (nextSeq state.sendIdx)) nonce plaintext <;>
    rfl

/-- An encryption that returns has sent its message. -/
theorem Effect.of_encrypt {state next : RatchetState} {nonce : Vector UInt8 12}
    {plaintext : Bytes} {output : RatchetOutput}
    (h : state.step prim aead (.encrypt nonce plaintext) = some (output, next)) :
    Effect prim aead state (.encrypt nonce plaintext) output next := by
  rw [RatchetState.step, RatchetState.encrypt_eq, Option.map_map, Option.map_eq_some_iff] at h
  obtain ⟨frame, hframe, hresult⟩ := h
  cases hresult
  exact .sent hframe

/-- A decryption accepts a frame that lies in the window and opens, and changes nothing at any
other. -/
theorem Effect.of_decrypt {state next : RatchetState} {encrypted : Bytes} {msgIdx : ℕ}
    {output : RatchetOutput}
    (h : state.step prim aead (.decrypt encrypted msgIdx) = some (output, next)) :
    Effect prim aead state (.decrypt encrypted msgIdx) output next := by
  rw [RatchetState.step, RatchetState.decrypt] at h
  by_cases hlen : encrypted.length < 28
  · rw [if_pos hlen] at h
    cases h
    exact .refused (.inr (if_pos hlen))
  rw [if_neg hlen] at h
  by_cases hwindow : msgIdx < state.expectedRecvIdx
  · rw [if_pos hwindow] at h
    cases h
    exact .refused (.inl hwindow)
  rw [if_neg hwindow] at h
  -- the frame is long enough to be opened
  have hdecrypt : decryptE2e aead encrypted (messageKey prim state.recvChain msgIdx) =
      aead.decrypt (messageKey prim state.recvChain msgIdx) (encrypted.take 12)
        (encrypted.drop 12) := if_neg hlen
  dsimp only at h
  split at h
  next hnone =>
    cases h
    exact .refused (.inr (hdecrypt.trans hnone))
  next plaintext hsome =>
    cases h
    exact .received (not_lt.mp hwindow) (hdecrypt.trans hsome)

/-- Every call after the handshake has one of the effects. -/
theorem Effect.of_step {state next : RatchetState} {op : RatchetOp} {output : RatchetOutput}
    (hdone : state.handshakeDone = true)
    (h : state.step prim aead op = some (output, next)) :
    Effect prim aead state op output next := by
  cases op with
  | completeHandshake peerPublic =>
    rw [RatchetState.step, RatchetState.completeHandshake, if_pos hdone] at h
    cases h
    exact .handshake
  | encrypt nonce plaintext => exact .of_encrypt h
  | decrypt encrypted msgIdx => exact .of_decrypt h
  | dhRatchetAdvance newPrivate peerNewPublic =>
    cases h
    exact .rekeyed _ _

/-- A handshake is never undone. -/
theorem Effect.handshakeDone {state next : RatchetState} {op : RatchetOp} {output : RatchetOutput}
    (h : Effect prim aead state op output next) : next.handshakeDone = state.handshakeDone := by
  cases h <;> rfl

/-- A run after the handshake, as the effects of its calls. -/
inductive Runs (prim : Primitives) (aead : Aead) :
    RatchetState → List RatchetOp → RatchetTrace → RatchetState → Prop
  | nil {state : RatchetState} : Runs prim aead state [] [] state
  | cons {state next last : RatchetState} {op : RatchetOp} {ops : List RatchetOp}
      {output : RatchetOutput} {trace : RatchetTrace}
      (hstep : state.step prim aead op = some (output, next))
      (heffect : Effect prim aead state op output next)
      (hrest : Runs prim aead next ops trace last) :
      Runs prim aead state (op :: ops) ((op, output) :: trace) last

/-- The calls of a run after the handshake have effects, one by one. -/
theorem runs_of_run {state last : RatchetState} {ops : List RatchetOp} {trace : RatchetTrace}
    (hdone : state.handshakeDone = true) (h : state.run prim aead ops = some (trace, last)) :
    Runs prim aead state ops trace last := by
  induction ops generalizing state trace with
  | nil =>
    cases h
    exact .nil
  | cons op ops ih =>
    rw [RatchetState.run] at h
    split at h
    · cases h
    next output next hstep =>
      obtain ⟨⟨rest, last'⟩, hrest, hresult⟩ := Option.map_eq_some_iff.mp h
      cases hresult
      have heffect := Effect.of_step hdone hstep
      exact .cons hstep heffect (ih (heffect.handshakeDone.trans hdone) hrest)

/-! ## Keys and positions -/

/-- The message before it has a plaintext: what the network carries. -/
def RatchetMessage.wire (m : RatchetMessage) : Bytes × ℕ := (m.frame, m.msgIdx)

/-- The key of the message with number `i`, counted from 0. -/
def chainMessageKey (prim : Primitives) (root : Bytes32) (i : ℕ) : Bytes32 :=
  messageKey prim ((advanceChain prim)^[i] root) (i + 1)

/-- What is sent next is encrypted under the keys that follow from the sending chain. -/
theorem Runs.getElem?_encryptCalls {state last : RatchetState} {ops : List RatchetOp}
    {trace : RatchetTrace} (h : Runs prim aead state ops trace last)
    (hcount : state.sendIdx + trace.sent.length < 2 ^ 64) {i : ℕ} {call : EncryptCall}
    (hcall : (state.encryptCalls prim aead ops)[i]? = some call) :
    ∃ m, trace.sent[i]? = some m ∧ m.msgIdx = state.sendIdx + i + 1 ∧ m.plaintext = call.plain ∧
      call.key = messageKey prim ((advanceChain prim)^[i] state.sendChain) m.msgIdx ∧
      encryptE2e aead call.nonce call.plain call.key = some m.frame := by
  induction h generalizing i with
  | nil => cases hcall
  | @cons state next last op ops output trace hstep heffect hrest ih =>
    rw [RatchetState.encryptCalls, hstep] at hcall
    cases heffect with
    | @sent nonce plaintext frame hframe =>
      rw [sent_encrypt, List.length_cons] at hcount
      rw [sent_encrypt]
      have hnext : nextSeq state.sendIdx = state.sendIdx + 1 := nextSeq_of_lt (by omega)
      have hnext' : (state.afterSent prim frame).sendIdx = state.sendIdx + 1 := hnext
      cases i with
      | zero =>
        cases hcall
        exact ⟨_, rfl, hnext, rfl, rfl, hframe⟩
      | succ i =>
        obtain ⟨m, hm, hidx, hplain, hkey, henc⟩ := ih (by omega) hcall
        exact ⟨m, hm, by omega, hplain, hkey, henc⟩
    | received => exact ih hcount hcall
    | refused => exact ih hcount hcall
    | handshake => exact ih hcount hcall
    | rekeyed => exact ih hcount hcall

/-- There are as many calls of the cipher as messages sent. -/
theorem Runs.length_encryptCalls {state last : RatchetState} {ops : List RatchetOp}
    {trace : RatchetTrace} (h : Runs prim aead state ops trace last) :
    (state.encryptCalls prim aead ops).length = trace.sent.length := by
  induction h with
  | nil => rfl
  | @cons state next last op ops output trace hstep heffect hrest ih =>
    rw [RatchetState.encryptCalls, hstep]
    cases heffect with
    | sent => exact congrArg (· + 1) ih
    | received => exact ih
    | refused => exact ih
    | handshake => exact ih
    | rekeyed => exact ih

/-- What is accepted opens under the keys that follow from the receiving chain. -/
theorem Runs.getElem?_received {state last : RatchetState} {ops : List RatchetOp}
    {trace : RatchetTrace} (h : Runs prim aead state ops trace last) {i : ℕ} {m : RatchetMessage}
    (hm : trace.received[i]? = some m) :
    i < trace.presented.length ∧ m.wire ∈ trace.presented ∧
      decryptE2e aead m.frame
        (messageKey prim ((advanceChain prim)^[i] state.recvChain) m.msgIdx) =
          some m.plaintext := by
  induction h generalizing i with
  | nil => cases hm
  | @cons state next last op ops output trace hstep heffect hrest ih =>
    cases heffect with
    | sent => exact ih hm
    | @received encrypted plaintext msgIdx hwindow hopen =>
      rw [presented_decrypt, List.length_cons]
      cases i with
      | zero =>
        cases hm
        exact ⟨Nat.succ_pos _, List.mem_cons_self, hopen⟩
      | succ i =>
        obtain ⟨hlt, hmem, hopen⟩ := ih hm
        exact ⟨Nat.succ_lt_succ hlt, List.mem_cons_of_mem _ hmem, hopen⟩
    | refused =>
      obtain ⟨hlt, hmem, hopen⟩ := ih hm
      exact ⟨Nat.lt_succ_of_lt hlt, List.mem_cons_of_mem _ hmem, hopen⟩
    | handshake => exact ih hm
    | rekeyed => exact ih hm

/-! ## The handshake -/

/-- The state right after a handshake that agreed on `root`. -/
structure RatchetState.Fresh (root : Bytes32) (state : RatchetState) : Prop where
  handshakeDone : state.handshakeDone = true
  sendChain : state.sendChain = root
  recvChain : state.recvChain = root
  sendIdx : state.sendIdx = 0
  expectedRecvIdx : state.expectedRecvIdx = 1
  prevHash : state.prevHash = .replicate 32 0

/-- The initiator comes out of the handshake fresh. -/
theorem fresh_handshake_fst (alicePrivate bobPrivate : Bytes32) :
    (ratchetHandshake prim alicePrivate bobPrivate).1.Fresh
      (handshakeRoot prim alicePrivate bobPrivate) :=
  ⟨rfl, rfl, rfl, rfl, rfl, rfl⟩

/-- Both sides have the same root key, since the shared secret does not depend on who computes
it. -/
theorem fresh_handshake_snd {alicePrivate bobPrivate : Bytes32}
    (hshared : prim.diffieHellman alicePrivate (prim.x25519Public bobPrivate) =
      prim.diffieHellman bobPrivate (prim.x25519Public alicePrivate)) :
    (ratchetHandshake prim alicePrivate bobPrivate).2.Fresh
      (handshakeRoot prim alicePrivate bobPrivate) := by
  have hroot : (ratchetHandshake prim alicePrivate bobPrivate).2.rootKey =
      handshakeRoot prim alicePrivate bobPrivate := by
    rw [handshakeRoot, hshared]
    rfl
  exact ⟨rfl, hroot, hroot, rfl, rfl, rfl⟩

/-! ## What a chain key reveals -/

/-- Primitives for evaluating the ratchet on fixed inputs: a derived key begins with the first byte
of its label, and a hash is a remainder of its input. -/
def sampleRatchetPrimitives : Primitives where
  __ := Primitives.const
  sha256 b := ⟨(beBytes 32 (ofBeBytes b % (2 ^ 255 - 19))).toArray, by simp⟩
  hkdf _ prk info :=
    ⟨((info.take 1 ++ prk ++ List.replicate 32 0).take 32).toArray, by simp; omega⟩

/-- The two sides of a handshake with these primitives. -/
def sampleSides : RatchetState × RatchetState :=
  ratchetHandshake sampleRatchetPrimitives (.replicate 32 1) (.replicate 32 2)

/-- The DH ratchet is advanced between two messages. -/
def sampleSends : List RatchetOp :=
  [.encrypt (.replicate 12 0) [7], .dhRatchetAdvance (.replicate 32 3) (.replicate 32 4),
    .encrypt (.replicate 12 0) [8, 9]]

/-- The calls of a run with these primitives, with their results. -/
def sampleTrace (state : RatchetState) (ops : List RatchetOp) : RatchetTrace :=
  ((state.run sampleRatchetPrimitives sampleAead ops).map Prod.fst).getD []

/-- The state after a run with these primitives. -/
def sampleLast (state : RatchetState) (ops : List RatchetOp) : RatchetState :=
  ((state.run sampleRatchetPrimitives sampleAead ops).map Prod.snd).getD state

end ChronoShift
