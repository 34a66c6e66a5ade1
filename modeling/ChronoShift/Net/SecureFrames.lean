import ChronoShift.Net.Session

/-!
# Secure frames

After the handshake every message travels in a frame: the length of the ciphertext, and the
ciphertext of a sequence number and the payload (`send_secure_frame` and `recv_secure_frame` of
`net/session.rs`, `encrypt_e2e` and `decrypt_e2e` of `crypto.rs`). The comparison of secrets,
`constant_time_eq` of `crypto.rs`, is here, too.

AES-256-GCM belongs to another crate and is a parameter. What is written to the stream is returned,
and what is read is the front of a byte string. Sequence numbers wrap around at `2 ^ 64`, as in a
release build.

* `recvSecureFrame_eq_ok`: what an accepted frame has passed;
* `accepted_sublist_sent`: what is accepted is a subsequence of what was sent;
* `recvFrames_sendFrames_iff`: whether everything that was sent is accepted.
-/

namespace ChronoShift

/-- AES-256-GCM under a key and a nonce. -/
structure Aead where
  encrypt : Bytes32 → Vector UInt8 12 → Bytes → Option Bytes
  decrypt : Bytes32 → Bytes → Bytes → Option Bytes

/-- What AES-256-GCM does on its own output: it opens, and the tag takes 16 bytes. -/
structure Aead.Lawful (aead : Aead) : Prop where
  decrypt_encrypt : ∀ {key nonce plain cipher}, aead.encrypt key nonce plain = some cipher →
    aead.decrypt key nonce.toList cipher = some plain
  length_encrypt : ∀ {key nonce plain cipher}, aead.encrypt key nonce plain = some cipher →
    cipher.length = plain.length + 16
  length_decrypt : ∀ {key nonce plain cipher}, aead.decrypt key nonce cipher = some plain →
    cipher.length = plain.length + 16

/-- Maximal length of the ciphertext that a receiver takes. -/
def maxFrame : ℕ := 65536

/-- The kinds of errors that end a connection. -/
inductive FrameErrorKind where
  | invalidData
  | unexpectedEof
  | other
  deriving DecidableEq

/-- An error of a stream, with its text. -/
structure FrameError where
  kind : FrameErrorKind
  text : String
  deriving DecidableEq

/-- `crypto::encrypt_e2e`; `nonce` is drawn at random. -/
def encryptE2e (aead : Aead) (nonce : Vector UInt8 12) (plaintext : Bytes) (key : Bytes32) :
    Option Bytes :=
  (aead.encrypt key nonce plaintext).map (nonce.toList ++ ·)

/-- `crypto::decrypt_e2e`. -/
def decryptE2e (aead : Aead) (encrypted : Bytes) (key : Bytes32) : Option Bytes :=
  if encrypted.length < 28 then none
  else aead.decrypt key (encrypted.take 12) (encrypted.drop 12)

/-- `crypto::constant_time_eq`. -/
def constantTimeEq (a b : Bytes) : Bool :=
  let diff := (a.zip b).foldl (fun diff p => diff ||| (p.1 ^^^ p.2)) 0
  diff = 0 && a.length = b.length

/-- The comparison has seen no difference if and only if there is none. -/
theorem foldl_diff_eq_zero {a b : Bytes} (hlen : a.length = b.length) (diff : UInt8) :
    (a.zip b).foldl (fun diff p => diff ||| (p.1 ^^^ p.2)) diff = 0 ↔ diff = 0 ∧ a = b := by
  induction a generalizing b diff with
  | nil =>
    obtain rfl := List.length_eq_zero_iff.mp hlen.symm
    exact (and_iff_left rfl).symm
  | cons x a ih =>
    obtain ⟨y, b, rfl⟩ := List.exists_cons_of_length_eq_add_one hlen.symm
    rw [List.zip_cons_cons, List.foldl_cons, ih (Nat.succ.inj hlen), UInt8.or_eq_zero_iff,
      UInt8.xor_eq_zero_iff, List.cons_eq_cons, and_assoc]

@[simp]
theorem constantTimeEq_iff {a b : Bytes} : constantTimeEq a b = true ↔ a = b := by
  rw [constantTimeEq, Bool.and_eq_true, decide_eq_true_eq, decide_eq_true_eq]
  constructor
  · rintro ⟨hdiff, hlen⟩
    exact ((foldl_diff_eq_zero hlen 0).mp hdiff).2
  · rintro rfl
    exact ⟨(foldl_diff_eq_zero rfl 0).mpr ⟨rfl, rfl⟩, rfl⟩

/-- `stream.read_exact` of `n` bytes: the bytes, and what is left of the stream. -/
def readExact (n : ℕ) (stream : Bytes) : Except FrameError (Bytes × Bytes) :=
  if n ≤ stream.length then .ok (stream.take n, stream.drop n)
  else .error ⟨.unexpectedEof, "early eof"⟩

/-- The sequence number after `seq`. -/
def nextSeq (seq : ℕ) : ℕ := (seq + 1) % 2 ^ 64

/-- Send one frame. Returns the bytes that are written, and the new sequence number. -/
def sendSecureFrame (aead : Aead) (nonce : Vector UInt8 12) (payload : Bytes) (key : Bytes32)
    (seq : ℕ) : Except FrameError Bytes × ℕ :=
  let seq := nextSeq seq
  match encryptE2e aead nonce (beBytes 8 seq ++ payload) key with
  | none => (.error ⟨.other, "encrypt failed"⟩, seq)
  | some enc => (.ok (beBytes 4 enc.length ++ enc), seq)

/-- Read the ciphertext of one frame. Returns it, and what is left of the stream; a stream that ends
too early is used up. -/
def readFrame (stream : Bytes) : Except FrameError Bytes × Bytes :=
  match readExact 4 stream with
  | .error e => (.error e, [])
  | .ok (lenBuf, rest) =>
    let len := ofBeBytes lenBuf
    if maxFrame < len then (.error ⟨.invalidData, "frame too large"⟩, rest)
    else
      match readExact len rest with
      | .error e => (.error e, [])
      | .ok (enc, rest) => (.ok enc, rest)

/-- Open the ciphertext of one frame; a sequence number that is not new is refused. -/
def openFrame (aead : Aead) (key : Bytes32) (lastSeq : ℕ) (enc : Bytes) :
    Except FrameError Bytes × ℕ :=
  match decryptE2e aead enc key with
  | none => (.error ⟨.invalidData, "decrypt/authenticate failed"⟩, lastSeq)
  | some plain =>
    if plain.length < 8 then (.error ⟨.invalidData, "short frame"⟩, lastSeq)
    else
      let seq := ofBeBytes (plain.take 8)
      if seq ≤ lastSeq then (.error ⟨.invalidData, "replayed frame"⟩, lastSeq)
      else (.ok (plain.drop 8), seq)

/-- Receive one frame. Returns its payload, the last sequence number, and what is left of the
stream. -/
def recvSecureFrame (aead : Aead) (key : Bytes32) (lastSeq : ℕ) (stream : Bytes) :
    Except FrameError Bytes × ℕ × Bytes :=
  match readFrame stream with
  | (.error e, rest) => (.error e, lastSeq, rest)
  | (.ok enc, rest) =>
    let (result, lastSeq) := openFrame aead key lastSeq enc
    (result, lastSeq, rest)

variable {aead : Aead} {key : Bytes32} {lastSeq : ℕ} {stream : Bytes}

/-! ## What the receiver accepts -/

theorem openFrame_eq_ok {enc payload : Bytes} {seq : ℕ}
    (h : openFrame aead key lastSeq enc = (.ok payload, seq)) :
    ∃ plain, decryptE2e aead enc key = some plain ∧ 8 ≤ plain.length ∧
      seq = ofBeBytes (plain.take 8) ∧ lastSeq < seq ∧ payload = plain.drop 8 := by
  rw [openFrame] at h
  split at h
  · cases h
  next plain hplain =>
    split at h
    · cases h
    next hlen =>
      dsimp only at h
      split at h
      · cases h
      next hseq =>
        cases h
        exact ⟨plain, hplain, not_lt.mp hlen, rfl, not_le.mp hseq, rfl⟩

theorem openFrame_eq_error {enc : Bytes} {e : FrameError} {seq : ℕ}
    (h : openFrame aead key lastSeq enc = (.error e, seq)) : seq = lastSeq := by
  rw [openFrame] at h
  split at h
  · cases h
    rfl
  · split at h
    · cases h
      rfl
    · dsimp only at h
      split at h
      · cases h
        rfl
      · cases h

/-- An accepted frame decrypts to a new sequence number and its payload. -/
theorem recvSecureFrame_eq_ok {payload rest : Bytes} {seq : ℕ}
    (h : recvSecureFrame aead key lastSeq stream = (.ok payload, seq, rest)) :
    ∃ enc plain, readFrame stream = (.ok enc, rest) ∧ decryptE2e aead enc key = some plain ∧
      8 ≤ plain.length ∧ seq = ofBeBytes (plain.take 8) ∧ lastSeq < seq ∧
      payload = plain.drop 8 := by
  rw [recvSecureFrame] at h
  split at h
  · cases h
  next enc rest' hread =>
    cases hopen : openFrame aead key lastSeq enc with
    | mk result seq' =>
      rw [hopen] at h
      cases h
      obtain ⟨plain, hplain⟩ := openFrame_eq_ok hopen
      exact ⟨enc, plain, hread, hplain⟩

/-- A refused frame leaves the last sequence number. -/
theorem recvSecureFrame_eq_error {e : FrameError} {seq : ℕ} {rest : Bytes}
    (h : recvSecureFrame aead key lastSeq stream = (.error e, seq, rest)) : seq = lastSeq := by
  rw [recvSecureFrame] at h
  split at h
  · cases h
    rfl
  next enc rest' hread =>
    cases hopen : openFrame aead key lastSeq enc with
    | mk result seq' =>
      rw [hopen] at h
      cases h
      exact openFrame_eq_error hopen

/-! ## Integrity -/

/-- One call of the sender: the nonce that it draws, and its payload. -/
structure SendCall where
  nonce : Vector UInt8 12
  payload : Bytes

/-- The arguments of a call of `encrypt_e2e`. -/
structure EncryptCall where
  key : Bytes32
  nonce : Vector UInt8 12
  plain : Bytes

/-- The payloads whose call has succeeded. -/
def sentPayloads (aead : Aead) (key : Bytes32) : ℕ → List SendCall → List Bytes
  | _, [] => []
  | seq, s :: sends =>
    match sendSecureFrame aead s.nonce s.payload key seq with
    | (.error _, seq) => sentPayloads aead key seq sends
    | (.ok _, seq) => s.payload :: sentPayloads aead key seq sends

/-- The calls of `encrypt_e2e` that a sender makes. -/
def encryptCalls (key : Bytes32) : ℕ → List SendCall → List EncryptCall
  | _, [] => []
  | seq, s :: sends =>
    ⟨key, s.nonce, beBytes 8 (nextSeq seq) ++ s.payload⟩ :: encryptCalls key (nextSeq seq) sends

/-- The payloads that successive calls accept, each on the bytes presented to it. -/
def accepted (aead : Aead) (key : Bytes32) : ℕ → List Bytes → List Bytes
  | _, [] => []
  | lastSeq, input :: inputs =>
    match recvSecureFrame aead key lastSeq input with
    | (.error _, lastSeq, _) => accepted aead key lastSeq inputs
    | (.ok payload, lastSeq, _) => payload :: accepted aead key lastSeq inputs

/-- A presented frame decrypts only if it is the output of one of the calls under the key. -/
def Authentic (aead : Aead) (key : Bytes32) (calls : List EncryptCall) (inputs : List Bytes) :
    Prop :=
  ∀ input ∈ inputs, ∀ enc, (readFrame input).1 = .ok enc → (decryptE2e aead enc key).isSome →
    ∃ call ∈ calls, call.key = key ∧ encryptE2e aead call.nonce call.plain key = some enc

/-- What was encrypted is decrypted. -/
theorem decryptE2e_encryptE2e (law : aead.Lawful) {nonce : Vector UInt8 12} {plain enc : Bytes}
    (h : encryptE2e aead nonce plain key = some enc) : decryptE2e aead enc key = some plain := by
  obtain ⟨cipher, hcipher, rfl⟩ := Option.map_eq_some_iff.mp h
  have hlen := law.length_encrypt hcipher
  have hnonce : nonce.toList.length = 12 := Vector.length_toList
  rw [decryptE2e, if_neg (by rw [List.length_append]; omega), List.take_left' hnonce,
    List.drop_left' hnonce]
  exact law.decrypt_encrypt hcipher

theorem nextSeq_of_lt {seq : ℕ} (h : seq + 1 < 2 ^ 64) : nextSeq seq = seq + 1 :=
  Nat.mod_eq_of_lt h

/-- The sequence number of a send is its position. -/
theorem exists_of_mem_encryptCalls {seq : ℕ} {sends : List SendCall} {call : EncryptCall}
    (hcount : seq + sends.length < 2 ^ 64) (h : call ∈ encryptCalls key seq sends) :
    ∃ pre s post, sends = pre ++ s :: post ∧
      call = ⟨key, s.nonce, beBytes 8 (seq + pre.length + 1) ++ s.payload⟩ := by
  induction sends generalizing seq with
  | nil => cases h
  | cons s sends ih =>
    rw [List.length_cons] at hcount
    have hnext : nextSeq seq = seq + 1 := nextSeq_of_lt (by omega)
    rw [encryptCalls, hnext] at h
    obtain rfl | hmem := List.mem_cons.mp h
    · exact ⟨[], s, sends, rfl, rfl⟩
    · obtain ⟨pre, s', post, rfl, rfl⟩ := ih (by omega) hmem
      refine ⟨s :: pre, s', post, rfl, ?_⟩
      rw [List.length_cons, show seq + 1 + pre.length + 1 = seq + (pre.length + 1) + 1 by omega]

theorem key_of_mem_encryptCalls {seq : ℕ} {sends : List SendCall} {call : EncryptCall}
    (h : call ∈ encryptCalls key seq sends) : call.key = key := by
  induction sends generalizing seq with
  | nil => cases h
  | cons s sends ih =>
    obtain rfl | hmem := List.mem_cons.mp h
    · rfl
    · exact ih hmem

/-- The payloads sent after `pre` follow those sent in `pre`. -/
theorem sentPayloads_append {seq : ℕ} {pre post : List SendCall}
    (hcount : seq + pre.length < 2 ^ 64) :
    sentPayloads aead key seq (pre ++ post) =
      sentPayloads aead key seq pre ++ sentPayloads aead key (seq + pre.length) post := by
  induction pre generalizing seq with
  | nil => rfl
  | cons s pre ih =>
    rw [List.length_cons] at hcount
    have hnext : nextSeq seq = seq + 1 := nextSeq_of_lt (by omega)
    have hrest : sentPayloads aead key (seq + 1) (pre ++ post) =
        sentPayloads aead key (seq + 1) pre ++
          sentPayloads aead key (seq + (s :: pre).length) post := by
      rw [List.length_cons, show seq + (pre.length + 1) = seq + 1 + pre.length by omega]
      exact ih (by omega)
    simp only [List.cons_append, sentPayloads, sendSecureFrame, hnext]
    split
    next heq =>
      split at heq <;> cases heq
      exact hrest
    next heq =>
      split at heq <;> cases heq
      rw [hrest]
      rfl

/-- A call that has encrypted its payload has sent it. -/
theorem sentPayloads_cons_of_encrypt {seq : ℕ} {s : SendCall} {post : List SendCall} {enc : Bytes}
    (hseq : seq + 1 < 2 ^ 64)
    (h : encryptE2e aead s.nonce (beBytes 8 (seq + 1) ++ s.payload) key = some enc) :
    sentPayloads aead key seq (s :: post) = s.payload :: sentPayloads aead key (seq + 1) post := by
  rw [sentPayloads, sendSecureFrame, nextSeq_of_lt hseq, h]

section Integrity

variable {otherKey : Bytes32} {sends reverse : List SendCall} {inputs : List Bytes}

/-- An accepted frame is one that was sent in this direction, with the number of its position. -/
theorem exists_sent_of_accepted (law : aead.Lawful) (hkeys : key ≠ otherKey)
    (hcount : sends.length < 2 ^ 64)
    (hauth : Authentic aead key (encryptCalls key 0 sends ++ encryptCalls otherKey 0 reverse)
      inputs) {input payload rest : Bytes} {seq : ℕ} (hinput : input ∈ inputs)
    (h : recvSecureFrame aead key lastSeq input = (.ok payload, seq, rest)) :
    ∃ pre s post enc, sends = pre ++ s :: post ∧ seq = pre.length + 1 ∧ lastSeq < seq ∧
      payload = s.payload ∧
      encryptE2e aead s.nonce (beBytes 8 seq ++ s.payload) key = some enc := by
  obtain ⟨enc, plain, hread, hplain, -, hseq, hlt, hpayload⟩ := recvSecureFrame_eq_ok h
  obtain ⟨call, hmem, hkey, hencrypt⟩ :=
    hauth input hinput enc (by rw [hread]) (by rw [hplain]; rfl)
  -- the frames of the other direction are encrypted under the other key
  have hother : call ∉ encryptCalls otherKey 0 reverse := by
    intro hmem'
    exact hkeys (hkey.symm.trans (key_of_mem_encryptCalls hmem'))
  obtain ⟨pre, s, post, hsends, rfl⟩ := exists_of_mem_encryptCalls (by omega)
    ((List.mem_append.mp hmem).resolve_right hother)
  have hdecrypt := decryptE2e_encryptE2e law hencrypt
  rw [hplain] at hdecrypt
  obtain rfl := Option.some.inj hdecrypt
  have hpos : pre.length + 1 < 2 ^ 64 := by
    rw [hsends, List.length_append, List.length_cons] at hcount
    omega
  have hnumber : seq = pre.length + 1 := by
    rw [hseq, List.take_left' (ToMathlib.length_beBytes _ _), ToMathlib.ofBeBytes_beBytes,
      Nat.zero_add]
    exact Nat.mod_eq_of_lt hpos
  refine ⟨pre, s, post, enc, hsends, hnumber, hlt, ?_, ?_⟩
  · rw [hpayload, List.drop_left' (ToMathlib.length_beBytes _ _)]
  · rw [hnumber, ← hencrypt, Nat.zero_add]

/-- From any point of the run on, what is accepted is a subsequence of what was sent after the last
accepted frame. -/
theorem accepted_sublist_drop (law : aead.Lawful) (hkeys : key ≠ otherKey)
    (hcount : sends.length < 2 ^ 64)
    (hauth : Authentic aead key (encryptCalls key 0 sends ++ encryptCalls otherKey 0 reverse)
      inputs) :
    (accepted aead key lastSeq inputs).Sublist
      (sentPayloads aead key lastSeq (sends.drop lastSeq)) := by
  induction inputs generalizing lastSeq with
  | nil => exact List.nil_sublist _
  | cons input inputs ih =>
    have hrest : Authentic aead key (encryptCalls key 0 sends ++ encryptCalls otherKey 0 reverse)
        inputs := fun input hinput => hauth input (List.mem_cons_of_mem _ hinput)
    rw [accepted]
    split
    -- a refused frame leaves the sequence number alone
    next e seq rest hrecv =>
      rw [recvSecureFrame_eq_error hrecv]
      exact ih hrest
    next payload seq rest hrecv =>
      obtain ⟨pre, s, post, enc, hsends, rfl, hlt, rfl, hencrypt⟩ :=
        exists_sent_of_accepted law hkeys hcount hauth List.mem_cons_self hrecv
      -- the accepted frame was sent after the last one, and the rest after it
      have hlen : sends.length = pre.length + (post.length + 1) := by
        rw [hsends, List.length_append, List.length_cons]
      have hpost : sends.drop (pre.length + 1) = post := by
        simp [hsends]
      have hdrop : sends.drop lastSeq = pre.drop lastSeq ++ s :: post := by
        rw [hsends, List.drop_append_of_le_length (by omega)]
      have hpos : lastSeq + (pre.drop lastSeq).length = pre.length := by
        rw [List.length_drop]
        omega
      have htail : (accepted aead key (pre.length + 1) inputs).Sublist
          (sentPayloads aead key (pre.length + 1) post) := hpost ▸ ih hrest
      rw [hdrop, sentPayloads_append (by omega), hpos,
        sentPayloads_cons_of_encrypt (by omega) hencrypt]
      exact (htail.cons_cons _).trans (List.sublist_append_right _ _)

/-- What successive calls accept is a subsequence of the payloads sent in this direction, in the
order of sending and without repetition, whatever frames are presented: frames of either direction,
in any order and any number of times, and frames that do not decrypt. -/
theorem accepted_sublist_sent (law : aead.Lawful) {key otherKey : Bytes32}
    (hkeys : key ≠ otherKey) (sends reverse : List SendCall) (hcount : sends.length < 2 ^ 64)
    {inputs : List Bytes}
    (hauth : Authentic aead key (encryptCalls key 0 sends ++ encryptCalls otherKey 0 reverse)
      inputs) :
    (accepted aead key 0 inputs).Sublist (sentPayloads aead key 0 sends) :=
  accepted_sublist_drop law hkeys hcount hauth

/-- A cipher that appends half of the key, for evaluating the model on fixed inputs. -/
def sampleAead : Aead where
  encrypt key _ plain := some (plain ++ key.toList.take 16)
  decrypt key _ cipher :=
    if 16 ≤ cipher.length ∧ cipher.drop (cipher.length - 16) = key.toList.take 16 then
      some (cipher.take (cipher.length - 16))
    else none

theorem sampleAead_lawful : sampleAead.Lawful := by
  have htag : ∀ key : Bytes32, (key.toList.take 16).length = 16 := by
    intro key
    rw [List.length_take, Vector.length_toList]
    rfl
  refine ⟨?_, ?_, ?_⟩
  · intro key nonce plain cipher h
    cases h
    simp [sampleAead, htag]
  · intro key nonce plain cipher h
    cases h
    rw [List.length_append, htag]
  · intro key nonce plain cipher h
    simp only [sampleAead] at h
    split at h
    next hlen =>
      cases h
      rw [List.length_take]
      omega
    next => cases h

/-- The key of one direction. -/
def sampleKey (b : UInt8) : Bytes32 := .replicate 32 b

/-- The frame of a payload, after `seq` others. -/
def sampleFrame (b : UInt8) (seq : ℕ) (payload : Bytes) : Bytes :=
  match sendSecureFrame sampleAead (.replicate 12 0) payload (sampleKey b) seq with
  | (.ok frame, _) => frame
  | (.error _, _) => []

/-- The second frame is presented first, then the first one, then a frame of the other
direction. -/
theorem accepted_sublist_reordered :
    (accepted sampleAead (sampleKey 1) 0
        [sampleFrame 1 1 [8], sampleFrame 1 0 [7], sampleFrame 2 0 [9]]).Sublist
      (sentPayloads sampleAead (sampleKey 1) 0
        [⟨.replicate 12 0, [7]⟩, ⟨.replicate 12 0, [8]⟩]) := by
  have hkeys : sampleKey 1 ≠ sampleKey 2 := by decide
  refine accepted_sublist_sent sampleAead_lawful hkeys _ [⟨.replicate 12 0, [9]⟩] (by decide) ?_
  intro input hinput enc hread hsome
  simp only [List.mem_cons, List.not_mem_nil, or_false] at hinput
  rcases hinput with rfl | rfl | rfl
  · exact ⟨_, List.mem_cons_of_mem _ List.mem_cons_self, rfl, congrArg some (Except.ok.inj hread)⟩
  · exact ⟨_, List.mem_cons_self, rfl, congrArg some (Except.ok.inj hread)⟩
  · cases hread
    cases hsome

end Integrity

/-! ## Completeness -/

/-- The bytes that successive calls write, if all of them succeed. -/
def sendFrames (aead : Aead) (key : Bytes32) : ℕ → List SendCall → Except FrameError Bytes
  | _, [] => .ok []
  | seq, s :: sends =>
    match sendSecureFrame aead s.nonce s.payload key seq with
    | (.error e, _) => .error e
    | (.ok frame, seq) => (sendFrames aead key seq sends).map (frame ++ ·)

/-- The results of `n` successive calls on one stream. -/
def recvFrames (aead : Aead) (key : Bytes32) : ℕ → ℕ → Bytes → List (Except FrameError Bytes)
  | 0, _, _ => []
  | n + 1, lastSeq, stream =>
    let (result, lastSeq, rest) := recvSecureFrame aead key lastSeq stream
    result :: recvFrames aead key n lastSeq rest

/-- The longest payload that fits in a frame: nonce, tag and sequence number take 36 bytes. -/
def maxPayload : ℕ := maxFrame - 36

theorem length_encryptE2e (law : aead.Lawful) {nonce : Vector UInt8 12} {plain enc : Bytes}
    (h : encryptE2e aead nonce plain key = some enc) : enc.length = plain.length + 28 := by
  obtain ⟨cipher, hcipher, rfl⟩ := Option.map_eq_some_iff.mp h
  rw [List.length_append, Vector.length_toList, law.length_encrypt hcipher]
  omega

theorem length_of_decryptE2e (law : aead.Lawful) {plain enc : Bytes}
    (h : decryptE2e aead enc key = some plain) : enc.length = plain.length + 28 := by
  rw [decryptE2e] at h
  split at h
  · cases h
  next hlen =>
    have hcipher := law.length_decrypt h
    rw [List.length_drop] at hcipher
    omega

/-- The ciphertext that is read has the announced length, which is bounded. -/
theorem length_of_readFrame {enc rest : Bytes} (h : readFrame stream = (.ok enc, rest)) :
    enc.length ≤ maxFrame := by
  rw [readFrame] at h
  split at h
  · cases h
  next lenBuf tail hlen =>
    dsimp only at h
    split at h
    · cases h
    next hmax =>
      rw [readExact] at h
      split at h
      · cases h
      next enc' rest' hread =>
        cases h
        split at hread
        · cases hread
          rw [List.length_take]
          omega
        · cases hread

/-- Whatever the stream holds, an accepted payload fits in a frame. -/
theorem length_of_recvSecureFrame (law : aead.Lawful) {payload rest : Bytes} {seq : ℕ}
    (h : recvSecureFrame aead key lastSeq stream = (.ok payload, seq, rest)) :
    payload.length ≤ maxPayload := by
  obtain ⟨enc, plain, hread, hplain, hlen, -, -, rfl⟩ := recvSecureFrame_eq_ok h
  have hframe := length_of_readFrame hread
  have henc := length_of_decryptE2e law hplain
  rw [List.length_drop, maxPayload]
  omega

/-- The length is read off the front of a frame. -/
theorem readExact_length_append (enc rest : Bytes) :
    readExact 4 (beBytes 4 enc.length ++ enc ++ rest) =
      .ok (beBytes 4 enc.length, enc ++ rest) := by
  rw [readExact, if_pos (by simp), List.append_assoc,
    List.take_left' (ToMathlib.length_beBytes _ _),
    List.drop_left' (ToMathlib.length_beBytes _ _)]

theorem ofBeBytes_length {enc : Bytes} (h : enc.length < 2 ^ 32) :
    ofBeBytes (beBytes 4 enc.length) = enc.length := by
  rw [ToMathlib.ofBeBytes_beBytes]
  exact Nat.mod_eq_of_lt h

/-- A frame within the bound is read back as it was written. -/
theorem readFrame_append {enc : Bytes} (h : enc.length ≤ maxFrame) (rest : Bytes) :
    readFrame (beBytes 4 enc.length ++ enc ++ rest) = (.ok enc, rest) := by
  have hbody : readExact enc.length (enc ++ rest) = .ok (enc, rest) := by
    rw [readExact, if_pos (by simp), List.take_left, List.drop_left]
  rw [readFrame, readExact_length_append]
  dsimp only
  rw [ofBeBytes_length (lt_of_le_of_lt h (by decide)), if_neg (not_lt.mpr h), hbody]

/-- What a successful call writes. -/
theorem sendSecureFrame_eq_ok {nonce : Vector UInt8 12} {payload frame : Bytes} {seq seq' : ℕ}
    (h : sendSecureFrame aead nonce payload key seq = (.ok frame, seq')) :
    seq' = nextSeq seq ∧ ∃ enc, encryptE2e aead nonce (beBytes 8 seq' ++ payload) key = some enc ∧
      frame = beBytes 4 enc.length ++ enc := by
  rw [sendSecureFrame] at h
  split at h
  · cases h
  next enc henc =>
    cases h
    exact ⟨rfl, enc, henc, rfl⟩

theorem nextSeq_lt (seq : ℕ) : nextSeq seq < 2 ^ 64 := Nat.mod_lt _ (by decide)

/-- A frame whose payload fits is accepted, unless its sequence number is not new. -/
theorem recvSecureFrame_sent (law : aead.Lawful) {nonce : Vector UInt8 12} {payload frame : Bytes}
    {seq seq' : ℕ} (h : sendSecureFrame aead nonce payload key seq = (.ok frame, seq'))
    (hfit : payload.length ≤ maxPayload) (rest : Bytes) :
    recvSecureFrame aead key lastSeq (frame ++ rest) =
      if seq' ≤ lastSeq then (.error ⟨.invalidData, "replayed frame"⟩, lastSeq, rest)
      else (.ok payload, seq', rest) := by
  obtain ⟨rfl, enc, henc, rfl⟩ := sendSecureFrame_eq_ok h
  have hlen : enc.length ≤ maxFrame := by
    have h36 : maxPayload = 65500 ∧ maxFrame = 65536 := ⟨rfl, rfl⟩
    rw [length_encryptE2e law henc, List.length_append, ToMathlib.length_beBytes]
    omega
  have hnumber : ofBeBytes (beBytes 8 (nextSeq seq)) = nextSeq seq := by
    rw [ToMathlib.ofBeBytes_beBytes]
    exact Nat.mod_eq_of_lt (nextSeq_lt seq)
  rw [recvSecureFrame, readFrame_append hlen]
  dsimp only
  rw [openFrame, decryptE2e_encryptE2e law henc]
  dsimp only
  rw [if_neg (by rw [List.length_append, ToMathlib.length_beBytes]; omega),
    List.take_left' (ToMathlib.length_beBytes _ _),
    List.drop_left' (ToMathlib.length_beBytes _ _), hnumber]
  split <;> rfl

/-- What all calls have written is what the first has, and then the others. -/
theorem sendFrames_cons_eq_ok {s : SendCall} {sends : List SendCall} {seq : ℕ}
    (h : sendFrames aead key seq (s :: sends) = .ok stream) :
    ∃ frame rest, sendSecureFrame aead s.nonce s.payload key seq = (.ok frame, nextSeq seq) ∧
      sendFrames aead key (nextSeq seq) sends = .ok rest ∧ stream = frame ++ rest := by
  rw [sendFrames] at h
  split at h
  · cases h
  next frame seq' hsend =>
    obtain ⟨rfl, -⟩ := sendSecureFrame_eq_ok hsend
    cases hrest : sendFrames aead key (nextSeq seq) sends with
    | error e =>
      rw [hrest] at h
      cases h
    | ok rest =>
      rw [hrest] at h
      cases h
      exact ⟨frame, rest, hsend, rfl, rfl⟩

/-- From any point of an intact stream on, the receiver returns what was sent if and only if every
payload fits and the sequence numbers do not wrap around. -/
theorem recvFrames_eq_iff (law : aead.Lawful) {sends : List SendCall} {seq : ℕ}
    (hseq : seq < 2 ^ 64) (hsend : sendFrames aead key seq sends = .ok stream) :
    recvFrames aead key sends.length seq stream = sends.map (fun s => .ok s.payload) ↔
      (∀ s ∈ sends, s.payload.length ≤ maxPayload) ∧ seq + sends.length < 2 ^ 64 := by
  induction sends generalizing seq stream with
  | nil => simpa [recvFrames] using hseq
  | cons s sends ih =>
    obtain ⟨frame, rest, hframe, hrest, rfl⟩ := sendFrames_cons_eq_ok hsend
    rw [List.length_cons, List.map_cons, List.forall_mem_cons, recvFrames]
    by_cases hfit : s.payload.length ≤ maxPayload
    · rw [recvSecureFrame_sent law hframe hfit]
      by_cases hwrap : seq + 1 < 2 ^ 64
      · have hnext := nextSeq_of_lt hwrap
        rw [hnext] at hrest
        rw [hnext, if_neg (by omega)]
        dsimp only
        rw [List.cons.injEq, ih hwrap hrest]
        constructor
        · rintro ⟨-, hall, hlt⟩
          exact ⟨⟨hfit, hall⟩, by omega⟩
        · rintro ⟨⟨-, hall⟩, hlt⟩
          exact ⟨rfl, hall, by omega⟩
      -- the number of the frame is 0 again
      · have hnext : nextSeq seq = 0 := by
          rw [nextSeq, show seq + 1 = 2 ^ 64 by omega, Nat.mod_self]
        rw [hnext, if_pos (Nat.zero_le _)]
        dsimp only
        constructor
        · intro h
          cases (List.cons.inj h).1
        · rintro ⟨-, hlt⟩
          omega
    -- whatever the receiver makes of the frame, it does not return a payload of this length
    · constructor
      · intro h
        cases hrecv : recvSecureFrame aead key seq (frame ++ rest) with
        | mk result tail =>
          rw [hrecv] at h
          obtain ⟨rfl, -⟩ := List.cons.inj h
          exact absurd (length_of_recvSecureFrame law hrecv) hfit
      · rintro ⟨⟨hle, -⟩, -⟩
        exact absurd hle hfit

/-- On the intact stream of everything that was sent, successive calls return exactly the payloads,
in order, if and only if no payload is longer than `maxPayload` and there are fewer than `2 ^ 64`
of them. -/
theorem recvFrames_sendFrames_iff (law : aead.Lawful) {sends : List SendCall}
    (hsend : sendFrames aead key 0 sends = .ok stream) :
    recvFrames aead key sends.length 0 stream = sends.map (fun s => .ok s.payload) ↔
      (∀ s ∈ sends, s.payload.length ≤ maxPayload) ∧ sends.length < 2 ^ 64 := by
  rw [recvFrames_eq_iff law (by decide) hsend, Nat.zero_add]

/-- Two short payloads are received as they were sent. -/
theorem recvFrames_two_payloads :
    recvFrames sampleAead (sampleKey 1) 2 0
        (sampleFrame 1 0 [7] ++ (sampleFrame 1 1 [8, 9] ++ [])) = [.ok [7], .ok [8, 9]] := by
  have hsend : sendFrames sampleAead (sampleKey 1) 0
      [⟨.replicate 12 0, [7]⟩, ⟨.replicate 12 0, [8, 9]⟩] =
        .ok (sampleFrame 1 0 [7] ++ (sampleFrame 1 1 [8, 9] ++ [])) := rfl
  refine (recvFrames_sendFrames_iff sampleAead_lawful hsend).mpr ⟨?_, by decide⟩
  intro s hs
  simp only [List.mem_cons, List.not_mem_nil, or_false] at hs
  rcases hs with rfl | rfl <;> decide

/-- A frame over the bound is refused. -/
theorem readFrame_too_large {enc : Bytes} (h : maxFrame < enc.length) (h32 : enc.length < 2 ^ 32)
    (rest : Bytes) :
    readFrame (beBytes 4 enc.length ++ enc ++ rest) =
      (.error ⟨.invalidData, "frame too large"⟩, enc ++ rest) := by
  rw [readFrame, readExact_length_append]
  dsimp only
  rw [ofBeBytes_length h32, if_pos h]

/-- The sender takes a payload of 65501 bytes, and the receiver refuses its frame. -/
theorem payload_sent_not_received :
    ∃ stream,
      sendFrames sampleAead (sampleKey 1) 0 [⟨.replicate 12 0, List.replicate 65501 0⟩] =
        .ok stream ∧
      recvFrames sampleAead (sampleKey 1) 1 0 stream =
        [.error ⟨.invalidData, "frame too large"⟩] := by
  obtain ⟨enc, henc⟩ : ∃ enc, encryptE2e sampleAead (.replicate 12 0)
      (beBytes 8 (nextSeq 0) ++ List.replicate 65501 0) (sampleKey 1) = some enc := ⟨_, rfl⟩
  have hlen : enc.length = 65537 := by
    rw [length_encryptE2e sampleAead_lawful henc, List.length_append, List.length_replicate,
      ToMathlib.length_beBytes]
  refine ⟨beBytes 4 enc.length ++ enc ++ [], ?_, ?_⟩
  · simp only [sendFrames, sendSecureFrame, henc]
    rfl
  · rw [recvFrames, recvSecureFrame, readFrame_too_large (by rw [hlen]; decide) (by omega)]
    rfl

end ChronoShift
