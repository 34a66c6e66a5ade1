import ChronoShift.Ratchet
import ChronoShift.ToMathlib.InOrder
import ChronoShift.ToMathlib.HashChain

/-!
# Sessions of the ratchet

The two sides of a session after the handshake of `ratchet.rs`, each with a run of its own. The
network presents any frames to them. That AES-256-GCM is unforgeable, and that HKDF and SHA-256 have
no collisions, is assumed of the keys, frames and inputs that occur.

Both directions use the chain that starts at the root key. So the message that is accepted as
number `i` is the `i`-th one of either side.

* `received_of_sent`: integrity, whatever the network presents;
* `delivered_in_order`: what is delivered if no side is shown its own frames;
* `own_frames_accepted`: what happens if it is;
* `prevHash_eq_iff`: the chain hashes agree exactly on equal histories.
-/

namespace ChronoShift

open RatchetTrace

variable {prim : Primitives} {aead : Aead}

/-! ## Integrity -/

/-- A presented frame opens under a key of the chain only if a call has made it under this key. -/
def RatchetAuthentic (prim : Primitives) (aead : Aead) (root : Bytes32) (calls : List EncryptCall)
    (frames : List (Bytes × ℕ)) : Prop :=
  ∀ p ∈ frames, ∀ j < frames.length,
    (decryptE2e aead p.1 (messageKey prim ((advanceChain prim)^[j] root) p.2)).isSome →
      ∃ call ∈ calls, call.key = messageKey prim ((advanceChain prim)^[j] root) p.2 ∧
        encryptE2e aead call.nonce call.plain call.key = some p.1

/-- The keys of the first `n` messages are no keys of other positions or of other indices, among
those that are tried on the presented frames. -/
def KeysDistinct (prim : Primitives) (root : Bytes32) (n : ℕ) (frames : List (Bytes × ℕ)) : Prop :=
  ∀ i < n, ∀ j < frames.length, ∀ p ∈ frames,
    messageKey prim ((advanceChain prim)^[j] root) p.2 = chainMessageKey prim root i →
      i = j ∧ i + 1 = p.2

section Integrity

variable {root : Bytes32} {frames : List (Bytes × ℕ)}

/-- The `i`-th call that encrypts something in a run after the handshake makes the `i`-th frame,
under the key of the `i`-th message. -/
theorem RatchetState.Fresh.getElem?_encryptCalls {state last : RatchetState}
    {ops : List RatchetOp} {trace : RatchetTrace} (hfresh : state.Fresh root)
    (hrun : Runs prim aead state ops trace last) (hcount : trace.sent.length < 2 ^ 64) {i : ℕ}
    {call : EncryptCall} (hcall : (state.encryptCalls prim aead ops)[i]? = some call) :
    ∃ m, trace.sent[i]? = some m ∧ m.msgIdx = i + 1 ∧ m.plaintext = call.plain ∧
      call.key = chainMessageKey prim root i ∧
      encryptE2e aead call.nonce call.plain call.key = some m.frame := by
  obtain ⟨m, hm, hidx, hplain, hkey, henc⟩ :=
    hrun.getElem?_encryptCalls (by rw [hfresh.sendIdx]; omega) hcall
  rw [hfresh.sendIdx, Nat.zero_add] at hidx
  rw [hfresh.sendChain, hidx] at hkey
  exact ⟨m, hm, hidx, hplain, hkey, henc⟩

/-- A presented frame that a call has made opens in its own place only, and to its plaintext. -/
theorem RatchetState.Fresh.getElem?_sent_of_opened {state last : RatchetState}
    {ops : List RatchetOp} {trace : RatchetTrace} (law : aead.Lawful) (hfresh : state.Fresh root)
    (hrun : Runs prim aead state ops trace last) (hcount : trace.sent.length < 2 ^ 64) {n : ℕ}
    (hn : trace.sent.length ≤ n) (hkeys : KeysDistinct prim root n frames) {p : Bytes × ℕ}
    (hp : p ∈ frames) {j : ℕ} (hj : j < frames.length) {plaintext : Bytes} {call : EncryptCall}
    (hcall : call ∈ state.encryptCalls prim aead ops)
    (hkey : call.key = messageKey prim ((advanceChain prim)^[j] root) p.2)
    (henc : encryptE2e aead call.nonce call.plain call.key = some p.1)
    (hopen : decryptE2e aead p.1 (messageKey prim ((advanceChain prim)^[j] root) p.2) =
      some plaintext) :
    trace.sent[j]? = some ⟨plaintext, p.1, p.2⟩ := by
  obtain ⟨i, hi⟩ := List.mem_iff_getElem?.mp hcall
  obtain ⟨m, hm, hidx, hplain, hkey', henc'⟩ := hfresh.getElem?_encryptCalls hrun hcount hi
  have hlt : i < n := lt_of_lt_of_le (List.getElem?_eq_some_iff.mp hm).1 hn
  obtain ⟨rfl, hmsgIdx⟩ := hkeys i hlt j hj p hp (hkey.symm.trans hkey')
  have hplaintext : plaintext = call.plain := by
    rw [← hkey, decryptE2e_encryptE2e law henc] at hopen
    exact (Option.some.inj hopen).symm
  have hframe : m.frame = p.1 := Option.some.inj (henc'.symm.trans henc)
  rw [hm, hplaintext, ← hplain, ← hframe, ← hmsgIdx, ← hidx]

variable {alice bob aliceLast bobLast : RatchetState} {aliceOps bobOps : List RatchetOp}
  {aliceTrace bobTrace : RatchetTrace}

/-- What opens as number `j` is the `j`-th message of one of the sides. -/
theorem sent_of_opened (law : aead.Lawful) (halice : alice.Fresh root) (hbob : bob.Fresh root)
    (hrunA : Runs prim aead alice aliceOps aliceTrace aliceLast)
    (hrunB : Runs prim aead bob bobOps bobTrace bobLast)
    (hcountA : aliceTrace.sent.length < 2 ^ 64) (hcountB : bobTrace.sent.length < 2 ^ 64)
    (hkeys : KeysDistinct prim root (max aliceTrace.sent.length bobTrace.sent.length) frames)
    (hauth : RatchetAuthentic prim aead root
      (alice.encryptCalls prim aead aliceOps ++ bob.encryptCalls prim aead bobOps) frames)
    {p : Bytes × ℕ} (hp : p ∈ frames) {j : ℕ} (hj : j < frames.length) {plaintext : Bytes}
    (hopen : decryptE2e aead p.1 (messageKey prim ((advanceChain prim)^[j] root) p.2) =
      some plaintext) :
    aliceTrace.sent[j]? = some ⟨plaintext, p.1, p.2⟩ ∨
      bobTrace.sent[j]? = some ⟨plaintext, p.1, p.2⟩ := by
  obtain ⟨call, hcall, hkey, henc⟩ := hauth p hp j hj (Option.isSome_of_eq_some hopen)
  obtain hmem | hmem := List.mem_append.mp hcall
  · exact .inl (halice.getElem?_sent_of_opened law hrunA hcountA (le_max_left _ _) hkeys hp hj hmem
      hkey henc hopen)
  · exact .inr (hbob.getElem?_sent_of_opened law hrunB hcountB (le_max_right _ _) hkeys hp hj hmem
      hkey henc hopen)

end Integrity

/-- After the handshake, whatever the two sides do and whatever the network presents to them, the
message that a side accepts as number `i` is the `i`-th message that the other side has sent, or
the `i`-th one that it has sent itself. -/
theorem received_of_sent (law : aead.Lawful) {alicePrivate bobPrivate : Bytes32}
    (hshared : prim.diffieHellman alicePrivate (prim.x25519Public bobPrivate) =
      prim.diffieHellman bobPrivate (prim.x25519Public alicePrivate))
    {aliceOps bobOps : List RatchetOp} {aliceTrace bobTrace : RatchetTrace}
    {aliceLast bobLast : RatchetState}
    (hrunA : (ratchetHandshake prim alicePrivate bobPrivate).1.run prim aead aliceOps =
      some (aliceTrace, aliceLast))
    (hrunB : (ratchetHandshake prim alicePrivate bobPrivate).2.run prim aead bobOps =
      some (bobTrace, bobLast))
    (hcountA : aliceTrace.sent.length < 2 ^ 64) (hcountB : bobTrace.sent.length < 2 ^ 64)
    (hkeys : KeysDistinct prim (handshakeRoot prim alicePrivate bobPrivate)
      (max aliceTrace.sent.length bobTrace.sent.length)
      (aliceTrace.presented ++ bobTrace.presented))
    (hauth : RatchetAuthentic prim aead (handshakeRoot prim alicePrivate bobPrivate)
      ((ratchetHandshake prim alicePrivate bobPrivate).1.encryptCalls prim aead aliceOps ++
        (ratchetHandshake prim alicePrivate bobPrivate).2.encryptCalls prim aead bobOps)
      (aliceTrace.presented ++ bobTrace.presented))
    (i : ℕ) (m : RatchetMessage) :
    (bobTrace.received[i]? = some m →
      aliceTrace.sent[i]? = some m ∨ bobTrace.sent[i]? = some m) ∧
    (aliceTrace.received[i]? = some m →
      bobTrace.sent[i]? = some m ∨ aliceTrace.sent[i]? = some m) := by
  have halice : (ratchetHandshake prim alicePrivate bobPrivate).1.Fresh
      (handshakeRoot prim alicePrivate bobPrivate) := fresh_handshake_fst _ _
  have hbob := fresh_handshake_snd hshared
  have hrunsA := runs_of_run halice.handshakeDone hrunA
  have hrunsB := runs_of_run hbob.handshakeDone hrunB
  constructor
  · intro hm
    obtain ⟨hlt, hmem, hopen⟩ := hrunsB.getElem?_received hm
    rw [hbob.recvChain] at hopen
    exact sent_of_opened law halice hbob hrunsA hrunsB hcountA hcountB hkeys hauth
      (List.mem_append_right _ hmem) (by rw [List.length_append]; omega) hopen
  · intro hm
    obtain ⟨hlt, hmem, hopen⟩ := hrunsA.getElem?_received hm
    rw [halice.recvChain] at hopen
    exact (sent_of_opened law halice hbob hrunsA hrunsB hcountA hcountB hkeys hauth
      (List.mem_append_left _ hmem) (by rw [List.length_append]; omega) hopen).symm

/-- Alice sends two messages, and Bob one. -/
def sampleAliceOps : List RatchetOp :=
  sampleSends ++ (sampleTrace sampleSides.2 [.encrypt (.replicate 12 5) [6]]).sent.map fun m =>
    .decrypt m.frame m.msgIdx

/-- Bob sends, and is presented the second message of Alice, both messages in their order, and a
forged one. -/
def sampleBobOps : List RatchetOp :=
  .encrypt (.replicate 12 5) [6] ::
    let frames := (sampleTrace sampleSides.1 sampleSends).sent.map fun m =>
      RatchetOp.decrypt m.frame m.msgIdx
    frames.drop 1 ++ frames ++ [.decrypt (List.replicate 40 0) 3]

def sampleAliceTrace : RatchetTrace := sampleTrace sampleSides.1 sampleAliceOps

def sampleBobTrace : RatchetTrace := sampleTrace sampleSides.2 sampleBobOps

/-- The root key of the handshake of the sample sides. -/
def sampleRoot : Bytes32 :=
  handshakeRoot sampleRatchetPrimitives (.replicate 32 1) (.replicate 32 2)

def samplePresented : List (Bytes × ℕ) := sampleAliceTrace.presented ++ sampleBobTrace.presented

/-- The message keys of the sample run are distinct. -/
theorem keysDistinct_sample :
    KeysDistinct sampleRatchetPrimitives sampleRoot 2 samplePresented := by
  unfold KeysDistinct
  decide +kernel

/-- The sample cipher opens only what the two sides have sealed. -/
theorem ratchetAuthentic_sample :
    RatchetAuthentic sampleRatchetPrimitives sampleAead sampleRoot
      (sampleSides.1.encryptCalls sampleRatchetPrimitives sampleAead sampleAliceOps ++
        sampleSides.2.encryptCalls sampleRatchetPrimitives sampleAead sampleBobOps)
      samplePresented := by
  unfold RatchetAuthentic
  decide +kernel

/-- Bob accepts the second message of Alice, although it was presented too early at first. -/
theorem received_of_sent_early :
    ∃ m, sampleBobTrace.received[1]? = some m ∧
      (sampleAliceTrace.sent[1]? = some m ∨ sampleBobTrace.sent[1]? = some m) :=
  ⟨_, rfl, (@received_of_sent sampleRatchetPrimitives sampleAead sampleAead_lawful (.replicate 32 1)
    (.replicate 32 2) rfl sampleAliceOps sampleBobOps sampleAliceTrace sampleBobTrace _ _ rfl rfl
    (by decide +kernel) (by decide +kernel) keysDistinct_sample ratchetAuthentic_sample 1 _).1 rfl⟩

/-! ## Delivery -/

/-- The network has not returned a side's own frames to it. -/
def NotReflected (trace : RatchetTrace) : Prop := ∀ m ∈ trace.sent, m.wire ∉ trace.presented

/-- The next number exceeds the last one by one at most. -/
theorem nextSeq_le (seq : ℕ) : nextSeq seq ≤ seq + 1 := Nat.mod_le _ _

/-- A side that has accepted `k` messages waits for the next one of `expected`, and skips everything
else, if nothing else opens and every expected message does, in its place. -/
theorem Runs.received_eq_inOrder {root : Bytes32} {expected : List RatchetMessage}
    {state last : RatchetState} {ops : List RatchetOp} {trace : RatchetTrace}
    (h : Runs prim aead state ops trace last) {k : ℕ}
    (hchain : state.recvChain = (advanceChain prim)^[k] root)
    (hwindow : state.expectedRecvIdx ≤ k + 1)
    (hexpected : ∀ j m, expected[j]? = some m → m.msgIdx = j + 1 ∧
      decryptE2e aead m.frame (chainMessageKey prim root j) = some m.plaintext)
    (honly : ∀ p ∈ trace.presented, ∀ j < k + trace.presented.length, ∀ plaintext,
      decryptE2e aead p.1 (messageKey prim ((advanceChain prim)^[j] root) p.2) = some plaintext →
        expected[j]? = some ⟨plaintext, p.1, p.2⟩) :
    trace.received.map RatchetMessage.wire =
      ToMathlib.inOrder ((expected.drop k).map RatchetMessage.wire) trace.presented := by
  induction h generalizing k with
  | nil => exact (ToMathlib.inOrder_nil_right _).symm
  | @cons state next last op ops output trace hstep heffect hrest ih =>
    cases heffect with
    | sent => exact ih hchain hwindow honly
    | @received encrypted plaintext msgIdx hle hopen =>
      rw [presented_decrypt, List.length_cons] at honly
      rw [hchain] at hopen
      have hm := honly _ List.mem_cons_self k (by omega) plaintext hopen
      obtain ⟨hlt, hget⟩ := List.getElem?_eq_some_iff.mp hm
      have hidx : msgIdx = k + 1 := (hexpected k _ hm).1
      have hnext : (state.afterReceived prim encrypted msgIdx).recvChain =
          (advanceChain prim)^[k + 1] root := by
        rw [Function.iterate_succ_apply', ← hchain]
        rfl
      have hwindow' : (state.afterReceived prim encrypted msgIdx).expectedRecvIdx ≤ k + 1 + 1 :=
        hidx ▸ nextSeq_le msgIdx
      rw [received_decrypt, presented_decrypt, List.drop_eq_getElem_cons hlt, hget, List.map_cons,
        List.map_cons, ih hnext hwindow' fun p hp j hj =>
          honly p (List.mem_cons_of_mem _ hp) j (by omega)]
      exact (ToMathlib.inOrder_cons_self _ _ _).symm
    | @refused encrypted msgIdx hrefused =>
      rw [presented_decrypt, List.length_cons] at honly
      -- the message that is waited for is not refused
      have hskip :
          ((expected.drop k).map RatchetMessage.wire).head? ≠ some (encrypted, msgIdx) := by
        rw [List.head?_map, List.head?_drop]
        intro hwire
        obtain ⟨m, hm, hwire⟩ := Option.map_eq_some_iff.mp hwire
        cases hwire
        obtain ⟨hidx, hopen⟩ := hexpected k m hm
        obtain hlt | hnone := hrefused
        · omega
        · rw [hchain, hidx] at hnone
          cases hnone.symm.trans hopen
      rw [presented_decrypt, ToMathlib.inOrder_cons_of_ne hskip]
      exact ih hchain hwindow fun p hp j hj =>
        honly p (List.mem_cons_of_mem _ hp) j (by omega)
    | handshake => exact ih hchain hwindow honly
    | rekeyed => exact ih hchain hwindow honly

/-- Every message that has been sent opens in its place. -/
theorem RatchetState.Fresh.opens_sent {root : Bytes32} {state last : RatchetState}
    {ops : List RatchetOp} {trace : RatchetTrace} (law : aead.Lawful) (hfresh : state.Fresh root)
    (hrun : Runs prim aead state ops trace last) (hcount : trace.sent.length < 2 ^ 64) {j : ℕ}
    {m : RatchetMessage} (hm : trace.sent[j]? = some m) :
    m.msgIdx = j + 1 ∧
      decryptE2e aead m.frame (chainMessageKey prim root j) = some m.plaintext := by
  have hlt : j < (state.encryptCalls prim aead ops).length := by
    rw [hrun.length_encryptCalls]
    exact (List.getElem?_eq_some_iff.mp hm).1
  obtain ⟨m', hm', hidx, hplain, hkey, henc⟩ :=
    hfresh.getElem?_encryptCalls hrun hcount (List.getElem?_eq_getElem hlt)
  obtain rfl := Option.some.inj (hm.symm.trans hm')
  refine ⟨hidx, ?_⟩
  rw [← hkey, hplain]
  exact decryptE2e_encryptE2e law henc

/-- A side that is not shown its own frames waits for those of the other side in their order. -/
theorem received_of_not_reflected {root : Bytes32} (law : aead.Lawful)
    {alice bob aliceLast bobLast : RatchetState} {aliceOps bobOps : List RatchetOp}
    {aliceTrace bobTrace : RatchetTrace} (halice : alice.Fresh root) (hbob : bob.Fresh root)
    (hrunA : Runs prim aead alice aliceOps aliceTrace aliceLast)
    (hrunB : Runs prim aead bob bobOps bobTrace bobLast)
    (hcountA : aliceTrace.sent.length < 2 ^ 64) (hcountB : bobTrace.sent.length < 2 ^ 64)
    (hkeys : KeysDistinct prim root (max aliceTrace.sent.length bobTrace.sent.length)
      bobTrace.presented)
    (hauth : RatchetAuthentic prim aead root
      (alice.encryptCalls prim aead aliceOps ++ bob.encryptCalls prim aead bobOps)
      bobTrace.presented)
    (hreflect : NotReflected bobTrace) :
    bobTrace.received <+: aliceTrace.sent ∧
      bobTrace.received.map RatchetMessage.wire =
        ToMathlib.inOrder (aliceTrace.sent.map RatchetMessage.wire) bobTrace.presented := by
  have honly : ∀ p ∈ bobTrace.presented, ∀ j < bobTrace.presented.length, ∀ plaintext,
      decryptE2e aead p.1 (messageKey prim ((advanceChain prim)^[j] root) p.2) = some plaintext →
        aliceTrace.sent[j]? = some ⟨plaintext, p.1, p.2⟩ := by
    intro p hp j hj plaintext hopen
    refine (sent_of_opened law halice hbob hrunA hrunB hcountA hcountB hkeys hauth hp hj
      hopen).resolve_right ?_
    intro hown
    exact hreflect _ (List.mem_of_getElem? hown) hp
  constructor
  · rw [List.prefix_iff_getElem?]
    intro i hi
    obtain ⟨hlt, hmem, hopen⟩ := hrunB.getElem?_received (List.getElem?_eq_getElem hi)
    rw [hbob.recvChain] at hopen
    exact honly _ hmem i hlt _ hopen
  · refine hrunB.received_eq_inOrder (k := 0) hbob.recvChain hbob.expectedRecvIdx.le
      (fun j m hm => halice.opens_sent law hrunA hcountA hm) ?_
    rwa [Nat.zero_add]

/-- Fewer frames use fewer keys. -/
theorem KeysDistinct.mono {root : Bytes32} {n : ℕ} {frames frames' : List (Bytes × ℕ)}
    (h : KeysDistinct prim root n frames) (hsub : frames'.Sublist frames) :
    KeysDistinct prim root n frames' :=
  fun i hi j hj p hp => h i hi j (hj.trans_le hsub.length_le) p (hsub.subset hp)

/-- More calls and fewer frames ask less of the cipher. -/
theorem RatchetAuthentic.mono {root : Bytes32} {calls calls' : List EncryptCall}
    {frames frames' : List (Bytes × ℕ)} (h : RatchetAuthentic prim aead root calls frames)
    (hcalls : calls ⊆ calls') (hsub : frames'.Sublist frames) :
    RatchetAuthentic prim aead root calls' frames' := by
  intro p hp j hj hopen
  obtain ⟨call, hcall, hmade⟩ := h p (hsub.subset hp) j (hj.trans_le hsub.length_le) hopen
  exact ⟨call, hcalls hcall, hmade⟩

/-- What the receiver accepts is a prefix of what the sender has sent, and it has accepted the first
`k` messages if and only if their frames are a subsequence of what it was presented. -/
def DeliveredInOrder (receiver sender : RatchetTrace) : Prop :=
  receiver.received <+: sender.sent ∧ ∀ k ≤ sender.sent.length,
    (k ≤ receiver.received.length ↔
      ((sender.sent.map RatchetMessage.wire).take k).Sublist receiver.presented)

/-- One direction of a session, for the side that receives. -/
theorem deliveredInOrder_of_fresh {root : Bytes32} (law : aead.Lawful)
    {alice bob aliceLast bobLast : RatchetState} {aliceOps bobOps : List RatchetOp}
    {aliceTrace bobTrace : RatchetTrace} (halice : alice.Fresh root) (hbob : bob.Fresh root)
    (hrunA : Runs prim aead alice aliceOps aliceTrace aliceLast)
    (hrunB : Runs prim aead bob bobOps bobTrace bobLast)
    (hcountA : aliceTrace.sent.length < 2 ^ 64) (hcountB : bobTrace.sent.length < 2 ^ 64)
    (hkeys : KeysDistinct prim root (max aliceTrace.sent.length bobTrace.sent.length)
      bobTrace.presented)
    (hauth : RatchetAuthentic prim aead root
      (alice.encryptCalls prim aead aliceOps ++ bob.encryptCalls prim aead bobOps)
      bobTrace.presented)
    (hreflect : NotReflected bobTrace) : DeliveredInOrder bobTrace aliceTrace := by
  obtain ⟨hpre, hwire⟩ := received_of_not_reflected law halice hbob hrunA hrunB hcountA hcountB
    hkeys hauth hreflect
  refine ⟨hpre, ?_⟩
  intro k hk
  rw [← ToMathlib.le_length_inOrder_iff (by rwa [List.length_map]), ← hwire, List.length_map]

/-- A side that is not shown its own frames accepts the messages of the other side in their order,
and gets as far as the network presents them in this order. A message that is lost holds up all
that come after it, and frames that are forged, repeated or early hold up nothing. -/
theorem delivered_in_order (law : aead.Lawful) {alicePrivate bobPrivate : Bytes32}
    (hshared : prim.diffieHellman alicePrivate (prim.x25519Public bobPrivate) =
      prim.diffieHellman bobPrivate (prim.x25519Public alicePrivate))
    {aliceOps bobOps : List RatchetOp} {aliceTrace bobTrace : RatchetTrace}
    {aliceLast bobLast : RatchetState}
    (hrunA : (ratchetHandshake prim alicePrivate bobPrivate).1.run prim aead aliceOps =
      some (aliceTrace, aliceLast))
    (hrunB : (ratchetHandshake prim alicePrivate bobPrivate).2.run prim aead bobOps =
      some (bobTrace, bobLast))
    (hcountA : aliceTrace.sent.length < 2 ^ 64) (hcountB : bobTrace.sent.length < 2 ^ 64)
    (hkeys : KeysDistinct prim (handshakeRoot prim alicePrivate bobPrivate)
      (max aliceTrace.sent.length bobTrace.sent.length)
      (aliceTrace.presented ++ bobTrace.presented))
    (hauth : RatchetAuthentic prim aead (handshakeRoot prim alicePrivate bobPrivate)
      ((ratchetHandshake prim alicePrivate bobPrivate).1.encryptCalls prim aead aliceOps ++
        (ratchetHandshake prim alicePrivate bobPrivate).2.encryptCalls prim aead bobOps)
      (aliceTrace.presented ++ bobTrace.presented)) :
    (NotReflected bobTrace → DeliveredInOrder bobTrace aliceTrace) ∧
      (NotReflected aliceTrace → DeliveredInOrder aliceTrace bobTrace) := by
  have halice : (ratchetHandshake prim alicePrivate bobPrivate).1.Fresh
      (handshakeRoot prim alicePrivate bobPrivate) := fresh_handshake_fst _ _
  have hbob := fresh_handshake_snd hshared
  have hrunsA := runs_of_run halice.handshakeDone hrunA
  have hrunsB := runs_of_run hbob.handshakeDone hrunB
  constructor
  · intro hreflect
    have hsub := List.sublist_append_right aliceTrace.presented bobTrace.presented
    exact deliveredInOrder_of_fresh law halice hbob hrunsA hrunsB hcountA hcountB (hkeys.mono hsub)
      (hauth.mono (List.Subset.refl _) hsub) hreflect
  · intro hreflect
    have hsub := List.sublist_append_left aliceTrace.presented bobTrace.presented
    rw [max_comm] at hkeys
    exact deliveredInOrder_of_fresh law hbob halice hrunsB hrunsA hcountB hcountA (hkeys.mono hsub)
      (hauth.mono (List.append_subset.mpr
        ⟨List.subset_append_right _ _, List.subset_append_left _ _⟩) hsub) hreflect

/-- Bob gets both messages of Alice, although one of them was first presented too early, and Alice
gets the one of Bob. -/
theorem delivered_in_order_early :
    DeliveredInOrder sampleBobTrace sampleAliceTrace ∧
      DeliveredInOrder sampleAliceTrace sampleBobTrace := by
  have hdelivered := @delivered_in_order sampleRatchetPrimitives sampleAead sampleAead_lawful
    (.replicate 32 1) (.replicate 32 2) rfl sampleAliceOps sampleBobOps sampleAliceTrace
    sampleBobTrace _ _ rfl rfl (by decide +kernel) (by decide +kernel) keysDistinct_sample
    ratchetAuthentic_sample
  constructor
  · refine hdelivered.1 ?_
    unfold NotReflected
    decide +kernel
  · refine hdelivered.2 ?_
    unfold NotReflected
    decide +kernel

/-! ## Reflection -/

/-- The calls that present messages to a side, in their order. -/
def presentAll (messages : List RatchetMessage) : List RatchetOp :=
  messages.map fun m => .decrypt m.frame m.msgIdx

/-- A side that has accepted nothing is still where it was after the handshake. -/
theorem Runs.recvChain_of_received_nil {state last : RatchetState} {ops : List RatchetOp}
    {trace : RatchetTrace} (h : Runs prim aead state ops trace last)
    (hnone : trace.received = []) :
    last.recvChain = state.recvChain ∧ last.expectedRecvIdx = state.expectedRecvIdx := by
  induction h with
  | nil => exact ⟨rfl, rfl⟩
  | cons hstep heffect hrest ih =>
    cases heffect with
    | sent => exact ih hnone
    | received =>
      rw [received_decrypt] at hnone
      cases hnone
    | refused => exact ih hnone
    | handshake => exact ih hnone
    | rekeyed => exact ih hnone

/-- Accepting a frame that opens. -/
theorem RatchetState.decrypt_of_opens {state : RatchetState} {encrypted plaintext : Bytes}
    {msgIdx : ℕ} (hwindow : state.expectedRecvIdx ≤ msgIdx)
    (hopen : decryptE2e aead encrypted (messageKey prim state.recvChain msgIdx) = some plaintext) :
    state.step prim aead (.decrypt encrypted msgIdx) =
      some (.decrypted (some (plaintext, chainHash prim state.prevHash encrypted)),
        state.afterReceived prim encrypted msgIdx) := by
  rw [decryptE2e] at hopen
  split at hopen
  · cases hopen
  next hlen =>
    rw [RatchetState.step, RatchetState.decrypt, if_neg hlen, if_neg (not_lt.mpr hwindow)]
    dsimp only
    rw [hopen]
    rfl

/-- A run from its first call on. -/
theorem RatchetState.run_cons {state next last : RatchetState} {op : RatchetOp}
    {ops : List RatchetOp} {output : RatchetOutput} {trace : RatchetTrace}
    (hstep : state.step prim aead op = some (output, next))
    (hrun : next.run prim aead ops = some (trace, last)) :
    state.run prim aead (op :: ops) = some ((op, output) :: trace, last) := by
  rw [RatchetState.run, hstep]
  dsimp only
  rw [hrun, Option.map_some]

/-- Messages that open in their places are all accepted. -/
theorem run_presentAll {root : Bytes32} {messages : List RatchetMessage} {state : RatchetState}
    {k : ℕ} (hchain : state.recvChain = (advanceChain prim)^[k] root)
    (hwindow : state.expectedRecvIdx ≤ k + 1)
    (hopens : ∀ j m, messages[j]? = some m → m.msgIdx = k + j + 1 ∧
      decryptE2e aead m.frame (chainMessageKey prim root (k + j)) = some m.plaintext) :
    ∃ trace last, state.run prim aead (presentAll messages) = some (trace, last) ∧
      trace.received = messages := by
  induction messages generalizing state k with
  | nil => exact ⟨[], state, rfl, rfl⟩
  | cons m messages ih =>
    obtain ⟨hidx, hopen⟩ := hopens 0 m rfl
    rw [Nat.add_zero] at hidx hopen
    rw [chainMessageKey, ← hchain, ← hidx] at hopen
    have hstep := RatchetState.decrypt_of_opens (by omega) hopen
    have hnext : (state.afterReceived prim m.frame m.msgIdx).recvChain =
        (advanceChain prim)^[k + 1] root := by
      rw [Function.iterate_succ_apply', ← hchain]
      rfl
    have hwindow' : (state.afterReceived prim m.frame m.msgIdx).expectedRecvIdx ≤ k + 1 + 1 :=
      hidx ▸ nextSeq_le m.msgIdx
    obtain ⟨trace, last, hrun, hreceived⟩ := ih hnext hwindow' fun j m' hm' => by
      have := hopens (j + 1) m' hm'
      rwa [show k + (j + 1) = k + 1 + j by omega] at this
    exact ⟨_, last, RatchetState.run_cons hstep hrun, congrArg (_ :: ·) hreceived⟩

/-- A side that has accepted nothing yet accepts its own messages, when they are presented to it in
the order in which it has sent them, as if they came from the other side. -/
theorem own_frames_accepted (law : aead.Lawful) {alicePrivate bobPrivate : Bytes32}
    {side last : RatchetState}
    (hside : side = (ratchetHandshake prim alicePrivate bobPrivate).1 ∨
      side = (ratchetHandshake prim alicePrivate bobPrivate).2)
    {ops : List RatchetOp} {trace : RatchetTrace}
    (hrun : side.run prim aead ops = some (trace, last)) (hcount : trace.sent.length < 2 ^ 64)
    (hnone : trace.received = []) :
    ∃ trace' last', last.run prim aead (presentAll trace.sent) = some (trace', last') ∧
      trace'.received = trace.sent := by
  obtain ⟨root, hfresh⟩ : ∃ root, side.Fresh root := by
    obtain rfl | rfl := hside
    · exact ⟨_, fresh_handshake_fst alicePrivate bobPrivate⟩
    · exact ⟨(ratchetHandshake prim alicePrivate bobPrivate).2.rootKey,
        rfl, rfl, rfl, rfl, rfl, rfl⟩
  have hruns := runs_of_run hfresh.handshakeDone hrun
  obtain ⟨hchain, hwindow⟩ := hruns.recvChain_of_received_nil hnone
  refine run_presentAll (k := 0) (hchain.trans hfresh.recvChain)
    (hwindow.trans hfresh.expectedRecvIdx).le ?_
  intro j m hm
  rw [Nat.zero_add]
  exact hfresh.opens_sent law hruns hcount hm

/-- Alice accepts her own two messages. -/
theorem own_frames_accepted_two :
    ∃ trace' last', (sampleLast sampleSides.1 sampleSends).run sampleRatchetPrimitives sampleAead
        (presentAll (sampleTrace sampleSides.1 sampleSends).sent) = some (trace', last') ∧
      trace'.received = (sampleTrace sampleSides.1 sampleSends).sent :=
  @own_frames_accepted sampleRatchetPrimitives sampleAead sampleAead_lawful (.replicate 32 1)
    (.replicate 32 2) sampleSides.1 _ (.inl rfl) sampleSends _ rfl (by decide +kernel) rfl

/-! ## The chain hash -/

/-- The hash of a side commits to its transcript. -/
theorem Runs.prevHash_eq {state last : RatchetState} {ops : List RatchetOp} {trace : RatchetTrace}
    (h : Runs prim aead state ops trace last) :
    last.prevHash = trace.transcript.foldl (chainHash prim) state.prevHash := by
  induction h with
  | nil => rfl
  | cons hstep heffect hrest ih =>
    cases heffect with
    | sent => exact ih
    | received => exact ih
    | refused => exact ih
    | handshake => exact ih
    | rekeyed => exact ih

/-- The byte strings that a history of frames hashes, from the start of a session. -/
def hashedBytes (prim : Primitives) (frames : List Bytes) : List Bytes :=
  (ToMathlib.chainInputs (chainHash prim) (.replicate 32 0) frames).map fun x => x.1.toList ++ x.2

/-- The chain does not collide if the hash function does not, on what enters it. -/
theorem noCollision_chainHash {inputs : List (Bytes32 × Bytes)} {start : Bytes32}
    (hinj : ∀ x ∈ inputs.map fun x => x.1.toList ++ x.2,
      ∀ y ∈ inputs.map fun x => x.1.toList ++ x.2, prim.sha256 x = prim.sha256 y → x = y)
    (hstart : ∀ x ∈ inputs.map fun x => x.1.toList ++ x.2, prim.sha256 x ≠ start) :
    ToMathlib.NoCollision (chainHash prim) start inputs := by
  constructor
  · intro x hx y hy hxy
    have hbytes := hinj _ (List.mem_map_of_mem hx) _ (List.mem_map_of_mem hy) hxy
    obtain ⟨hvalue, hframe⟩ := List.append_inj hbytes
      (by rw [Vector.length_toList, Vector.length_toList])
    exact Prod.ext (Vector.toList_inj.mp hvalue) hframe
  · intro x hx
    exact hstart _ (List.mem_map_of_mem hx)

/-- The chain hashes of the two sides agree if and only if both have sent and accepted the same
frames in one order. Two messages that cross on their way are in the history of one side in one
order and in that of the other side in the other order. -/
theorem prevHash_eq_iff {alicePrivate bobPrivate : Bytes32}
    {aliceOps bobOps : List RatchetOp} {aliceTrace bobTrace : RatchetTrace}
    {aliceLast bobLast : RatchetState}
    (hrunA : (ratchetHandshake prim alicePrivate bobPrivate).1.run prim aead aliceOps =
      some (aliceTrace, aliceLast))
    (hrunB : (ratchetHandshake prim alicePrivate bobPrivate).2.run prim aead bobOps =
      some (bobTrace, bobLast))
    (hinj : ∀ x ∈ hashedBytes prim aliceTrace.transcript ++ hashedBytes prim bobTrace.transcript,
      ∀ y ∈ hashedBytes prim aliceTrace.transcript ++ hashedBytes prim bobTrace.transcript,
        prim.sha256 x = prim.sha256 y → x = y)
    (hstart : ∀ x ∈ hashedBytes prim aliceTrace.transcript ++
      hashedBytes prim bobTrace.transcript, prim.sha256 x ≠ .replicate 32 0) :
    aliceLast.prevHash = bobLast.prevHash ↔ aliceTrace.transcript = bobTrace.transcript := by
  rw [(runs_of_run rfl hrunA).prevHash_eq, (runs_of_run rfl hrunB).prevHash_eq]
  rw [hashedBytes, hashedBytes, ← List.map_append] at hinj hstart
  exact ToMathlib.foldl_eq_foldl_iff (noCollision_chainHash hinj hstart)

/-- Bob has sent a message before he accepts the ones of Alice, and Alice accepts it after she has
sent hers: everything is delivered, and the chain hashes differ. -/
theorem prevHash_crossing :
    (sampleLast sampleSides.1 sampleAliceOps).prevHash ≠
      (sampleLast sampleSides.2 sampleBobOps).prevHash := by
  have hiff := @prevHash_eq_iff sampleRatchetPrimitives sampleAead (.replicate 32 1)
    (.replicate 32 2) sampleAliceOps sampleBobOps sampleAliceTrace sampleBobTrace
    (sampleLast sampleSides.1 sampleAliceOps) (sampleLast sampleSides.2 sampleBobOps) rfl rfl
    (by decide +kernel) (by decide +kernel)
  exact hiff.not.mpr (by decide +kernel)

end ChronoShift
