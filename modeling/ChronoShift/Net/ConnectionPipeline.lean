import ChronoShift.Net.ConnectionReader

/-!
# A connection as a pipeline

One direction of an established connection of `net/connection_manager.rs`: `send_to` puts a message
into the bounded queue of the writer task, the writer encrypts it and writes it to the socket, and
the reader task of the peer reads it, and forwards it to the inbound queue. The three run
concurrently, so their steps interleave in any order.

The socket is a reliable stream of bytes. A write may fail or time out after any number of bytes,
which ends the writer; the reader ends at the first frame that it refuses, at the end of the stream,
and when nothing arrives in time. The codec of messages belongs to another crate and is a parameter.
The sending key is the receiving key of the peer.

The state also records which messages `send_to` has accepted, and how many of them have been read.

* `Pipeline.Inv`, `Pipeline.Inv.step`: where the accepted messages are;
* `Pipeline.received_prefix`, `Pipeline.drained`: nothing is repeated, reordered or lost between
  the two queues.
-/

namespace ChronoShift

/-- `WRITER_QUEUE_CAP`. -/
def writerQueueCap : ℕ := 64

/-- The codec of messages, `serde_json`. -/
structure MessageCodec where
  toJson : PeerMessage → String
  fromJson : String → Option PeerMessage

/-- The bytes that stand for a message. -/
def MessageCodec.payload (codec : MessageCodec) (msg : PeerMessage) : Bytes :=
  asBytes (codec.toJson msg)

/-- The codec can encode a message: it is read back from its text. The text takes less than 4 GiB,
as the length of a frame has four bytes. -/
structure MessageCodec.Encodes (codec : MessageCodec) (msg : PeerMessage) : Prop where
  fromJson_toJson : codec.fromJson (codec.toJson msg) = some msg
  length_lt : (codec.payload msg).length + 36 < 2 ^ 32

/-- One direction of a connection. -/
structure Pipeline where
  /-- The queue of the writer task. -/
  queue : List Bytes
  writerRuns : Bool
  seq : ℕ
  /-- What has been written and not been read. -/
  wire : Bytes
  readerRuns : Bool
  lastSeq : ℕ
  /-- What the reader has put into the inbound queue. -/
  inbound : List (String × PeerMessage)
  /-- The messages that `send_to` has accepted. -/
  accepted : List PeerMessage
  /-- How many frames the reader has accepted. -/
  received : ℕ
  /-- Whether the inbound queue has refused an entry. -/
  overflowed : Bool

/-- A step of one of the tasks, or of a caller of `send_to`. -/
inductive PipelineEvent where
  /-- The peer is entered under `uid` in the table of connections. -/
  | sendTo (uid : String) (msg : PeerMessage)
  | write (nonce : Vector UInt8 12)
  /-- The write fails or times out after `written` bytes. -/
  | writeFails (nonce : Vector UInt8 12) (written : ℕ)
  /-- The queue answers with `send` if an entry is put into it. -/
  | read (send : TrySendResult)
  /-- Nothing arrives in time. -/
  | idle

namespace Pipeline

/-- A connection whose handshake is done. -/
def new : Pipeline where
  queue := []
  writerRuns := true
  seq := 0
  wire := []
  readerRuns := true
  lastSeq := 0
  inbound := []
  accepted := []
  received := 0
  overflowed := false

section Steps

variable (aead : Aead) (codec : MessageCodec) (ctx : ReaderCtx) (p : Pipeline)

/-- Queue a message for the peer with the uid `uid`, if there is room. The writer is gone from the
table of connections once its task has ended. -/
def sendTo (uid : String) (msg : PeerMessage) : Except String Unit × Pipeline :=
  if !p.writerRuns then (.error s!"No active connection to {uid}", p)
  else if writerQueueCap ≤ p.queue.length then (.error "Send error: no available capacity", p)
  else
    (.ok (), { p with queue := p.queue ++ [codec.payload msg], accepted := p.accepted ++ [msg] })

/-- The writer takes a payload from its queue and writes the first `written` bytes of its frame, or
all of them. It ends if it cannot encrypt the payload or write the whole frame. -/
def connectionWriter (nonce : Vector UInt8 12) (written : Option ℕ) : Pipeline :=
  if p.writerRuns then
    match p.queue with
    -- it waits
    | [] => p
    | payload :: queue =>
      match sendSecureFrame aead nonce payload ctx.recvKey p.seq with
      | (.error _, seq) => { p with queue := [], writerRuns := false, seq := seq }
      | (.ok frame, seq) =>
        match written with
        | none => { p with queue := queue, seq := seq, wire := p.wire ++ frame }
        | some n =>
          { p with queue := [], writerRuns := false, seq := seq, wire := p.wire ++ frame.take n }
  else p

/-- No whole frame has arrived, and more may come. -/
def readerWaits : Bool :=
  p.writerRuns && (readFrame p.wire).1 = .error ⟨.unexpectedEof, "early eof"⟩

/-- The reader takes the next frame, and forwards the message in it. -/
def readNext (send : TrySendResult) : Pipeline :=
  if !p.readerRuns || p.readerWaits then p
  else
    match recvSecureFrame aead ctx.recvKey p.lastSeq p.wire with
    | (.error _, seq, rest) => { p with readerRuns := false, lastSeq := seq, wire := rest }
    | (.ok payload, seq, rest) =>
      { p with
        lastSeq := seq
        wire := rest
        inbound := p.inbound ++ (readPayload codec.fromJson ctx payload send).toList
        received := p.received + 1
        overflowed := p.overflowed || send ≠ .ok }

/-- Carry out a step. -/
def step : PipelineEvent → Pipeline
  | .sendTo uid msg => (p.sendTo codec uid msg).2
  | .write nonce => p.connectionWriter aead ctx nonce none
  | .writeFails nonce written => p.connectionWriter aead ctx nonce (some written)
  | .read send => p.readNext aead codec ctx send
  | .idle => { p with readerRuns := false }

/-- Carry out steps, one after the other. -/
def run (events : List PipelineEvent) : Pipeline :=
  events.foldl (fun p event => p.step aead codec ctx event) p

end Steps

variable {aead : Aead} {codec : MessageCodec} {ctx : ReaderCtx} {p : Pipeline}

/-! ## Frames on the wire -/

/-- One more frame after those of a list of calls. -/
theorem sendFrames_concat {key : Bytes32} {seq : ℕ} {sends : List SendCall} {s : SendCall}
    {stream frame : Bytes} (hseq : seq + sends.length < 2 ^ 64)
    (hsends : sendFrames aead key seq sends = .ok stream)
    (hs : sendSecureFrame aead s.nonce s.payload key (seq + sends.length) =
      (.ok frame, nextSeq (seq + sends.length))) :
    sendFrames aead key seq (sends ++ [s]) = .ok (stream ++ frame) := by
  induction sends generalizing seq stream with
  | nil =>
    cases hsends
    rw [List.length_nil, Nat.add_zero] at hs
    rw [List.nil_append, sendFrames, hs]
    simp [sendFrames, Except.map]
  | cons t sends ih =>
    rw [List.length_cons] at hseq hs
    obtain ⟨first, rest, hfirst, hrest, rfl⟩ := sendFrames_cons_eq_ok hsends
    have hnext : nextSeq seq = seq + 1 := nextSeq_of_lt (by omega)
    rw [hnext] at hfirst hrest
    rw [show seq + (sends.length + 1) = seq + 1 + sends.length by omega] at hs
    rw [List.cons_append, sendFrames, hfirst]
    dsimp only
    rw [ih (by omega) hrest hs]
    simp [Except.map]

/-- The first part of a frame, which is not the whole of it. -/
def Truncated (tail : Bytes) : Prop :=
  ∃ enc : Bytes, tail <+: beBytes 4 enc.length ++ enc ∧ tail.length < 4 + enc.length ∧
    enc.length < 2 ^ 32

/-- A frame that cannot be read is not opened. -/
theorem exists_error_of_readFrame {key : Bytes32} {lastSeq : ℕ} {stream rest : Bytes}
    {e : FrameError} (h : readFrame stream = (.error e, rest)) :
    recvSecureFrame aead key lastSeq stream = (.error e, lastSeq, rest) := by
  rw [recvSecureFrame, h]

/-- A frame that is cut off is refused. -/
theorem Truncated.recvSecureFrame {key : Bytes32} {lastSeq : ℕ} {tail : Bytes}
    (h : Truncated tail) :
    ∃ e rest, recvSecureFrame aead key lastSeq tail = (.error e, lastSeq, rest) := by
  obtain ⟨enc, ⟨missing, hfull⟩, hlen, h32⟩ := h
  rw [ChronoShift.recvSecureFrame, readFrame, readExact]
  -- the stream ends in the length of the frame, or behind it
  by_cases h4 : 4 ≤ tail.length
  · have htake : tail.take 4 = beBytes 4 enc.length := by
      have := congrArg (List.take 4) hfull
      rwa [List.take_append_of_le_length h4,
        List.take_left' (ToMathlib.length_beBytes 4 enc.length)] at this
    rw [if_pos h4, htake]
    dsimp only
    rw [ofBeBytes_length h32]
    split
    next e rest heq =>
      exact ⟨_, _, rfl⟩
    next enc' rest heq =>
      exfalso
      revert heq
      split
      · rintro ⟨⟩
      · rw [readExact, if_neg (by rw [List.length_drop]; omega)]
        rintro ⟨⟩
  · rw [if_neg h4]
    exact ⟨_, _, rfl⟩

/-- The frame of a payload is read back, if it is not too long, and refused otherwise. -/
theorem recvSecureFrame_head (law : aead.Lawful) {nonce : Vector UInt8 12} {key : Bytes32}
    {payload frame : Bytes} {seq seq' lastSeq : ℕ}
    (h : sendSecureFrame aead nonce payload key seq = (.ok frame, seq')) (hseq : lastSeq < seq')
    (h32 : payload.length + 36 < 2 ^ 32) (rest : Bytes) :
    (payload.length ≤ maxPayload ∧
        recvSecureFrame aead key lastSeq (frame ++ rest) = (.ok payload, seq', rest)) ∨
      (maxPayload < payload.length ∧ ∃ e tail,
        recvSecureFrame aead key lastSeq (frame ++ rest) = (.error e, lastSeq, tail)) := by
  obtain hfit | hlong := le_or_gt payload.length maxPayload
  · refine .inl ⟨hfit, ?_⟩
    rw [recvSecureFrame_sent law h hfit rest, if_neg (not_le.mpr hseq)]
  · refine .inr ⟨hlong, ?_⟩
    obtain ⟨rfl, enc, henc, rfl⟩ := sendSecureFrame_eq_ok h
    have hlen := length_encryptE2e law henc
    rw [List.length_append, ToMathlib.length_beBytes] at hlen
    have hmax : maxFrame < enc.length := by
      have : maxPayload = 65500 ∧ maxFrame = 65536 := ⟨rfl, rfl⟩
      omega
    exact ⟨_, _, exists_error_of_readFrame (readFrame_too_large hmax (by omega) rest)⟩

/-! ## Where the messages are -/

/-- The accepted messages that have not been read are on the wire, in frames that are numbered from
the next one on, and behind them in the queue of the writer. Once the writer has ended, a frame
that is cut off may follow, and the rest is lost. -/
structure Located (aead : Aead) (codec : MessageCodec) (ctx : ReaderCtx) (p : Pipeline)
    (inflight : List SendCall) (rest : List Bytes) (stream tail : Bytes) : Prop where
  received_le : p.received ≤ p.accepted.length
  unread : (p.accepted.map codec.payload).drop p.received =
    inflight.map SendCall.payload ++ rest
  frames : sendFrames aead ctx.recvKey p.received inflight = .ok stream
  wire : p.readerRuns = true → p.wire = stream ++ tail ∧ p.lastSeq = p.received
  writer : p.writerRuns = true →
    tail = [] ∧ rest = p.queue ∧ p.seq = p.received + inflight.length
  tail : tail = [] ∨ Truncated tail

/-- What the reader has made of the messages that it has read. -/
structure Forwarded (ctx : ReaderCtx) (p : Pipeline) : Prop where
  sublist : p.inbound.Sublist ((p.accepted.take p.received).filterMap (forward ctx))
  complete : p.overflowed = false →
    p.inbound = (p.accepted.take p.received).filterMap (forward ctx)

/-- What holds in every state of a connection. -/
structure Inv (aead : Aead) (codec : MessageCodec) (ctx : ReaderCtx) (p : Pipeline) : Prop where
  located : ∃ inflight rest stream tail, p.Located aead codec ctx inflight rest stream tail
  forwarded : p.Forwarded ctx

/-- Nothing has been accepted or sent. -/
theorem inv_new : new.Inv aead codec ctx :=
  ⟨⟨[], [], [], [], le_rfl, rfl, rfl, fun _ => ⟨rfl, rfl⟩, fun _ => ⟨rfl, rfl, rfl⟩, .inl rfl⟩,
    List.Sublist.refl _, fun _ => rfl⟩

/-- A message that is accepted goes to the end of the queue. -/
theorem Inv.sendTo (h : p.Inv aead codec ctx) (uid : String) (msg : PeerMessage) :
    (p.sendTo codec uid msg).2.Inv aead codec ctx := by
  obtain ⟨⟨inflight, rest, stream, tail, hloc⟩, hfwd⟩ := h
  rw [Pipeline.sendTo]
  split
  · exact ⟨⟨inflight, rest, stream, tail, hloc⟩, hfwd⟩
  next hruns =>
    split
    · exact ⟨⟨inflight, rest, stream, tail, hloc⟩, hfwd⟩
    · have hle : p.received ≤ (p.accepted.map codec.payload).length := by
        rw [List.length_map]
        exact hloc.received_le
      refine ⟨⟨inflight, rest ++ [codec.payload msg], stream, tail, ?_, ?_, hloc.frames, hloc.wire,
        ?_, hloc.tail⟩, ?_, ?_⟩
      · exact hloc.received_le.trans (by simp)
      · simp only [List.map_append, List.map_cons, List.map_nil]
        rw [List.drop_append_of_le_length hle, hloc.unread, List.append_assoc]
      · intro hw
        obtain ⟨htail, hrest, hseq⟩ := hloc.writer hw
        exact ⟨htail, by rw [hrest], hseq⟩
      · simpa only [List.take_append_of_le_length hloc.received_le] using hfwd.sublist
      · simpa only [List.take_append_of_le_length hloc.received_le] using hfwd.complete

/-- A frame without its last bytes is cut off. -/
theorem truncated_take {enc : Bytes} {n : ℕ} (h : n < (beBytes 4 enc.length ++ enc).length)
    (h32 : enc.length < 2 ^ 32) : Truncated ((beBytes 4 enc.length ++ enc).take n) := by
  refine ⟨enc, List.take_prefix n _, ?_, h32⟩
  rw [List.length_take_of_le h.le]
  rwa [List.length_append, ToMathlib.length_beBytes] at h

/-- The writer seals the message that waits longest. -/
theorem Inv.connectionWriter (law : aead.Lawful) (h : p.Inv aead codec ctx)
    (hcount : p.accepted.length < 2 ^ 64) (hfits : ∀ msg ∈ p.accepted, codec.Encodes msg)
    (nonce : Vector UInt8 12) (written : Option ℕ) :
    (p.connectionWriter aead ctx nonce written).Inv aead codec ctx := by
  obtain ⟨⟨inflight, rest, stream, tail, hloc⟩, hfwd⟩ := h
  rw [Pipeline.connectionWriter]
  split
  next hruns =>
    obtain ⟨rfl, rfl, hseq⟩ := hloc.writer hruns
    split
    · exact ⟨⟨inflight, p.queue, stream, [], hloc⟩, hfwd⟩
    next payload queue hqueue =>
      have hunread := hloc.unread
      rw [hqueue] at hunread
      have hlen : p.received + inflight.length < p.accepted.length := by
        have := congrArg List.length hunread
        simp only [List.length_drop, List.length_map, List.length_append, List.length_cons] at this
        omega
      cases hsend : sendSecureFrame aead nonce payload ctx.recvKey p.seq with
      | mk result seq =>
        cases result with
        | error e =>
          exact ⟨⟨inflight, payload :: queue, stream, [], hloc.received_le, hunread, hloc.frames,
            hloc.wire, fun hw => (Bool.false_ne_true hw).elim, .inl rfl⟩, hfwd.sublist,
            hfwd.complete⟩
        | ok frame =>
          obtain ⟨rfl, enc, henc, hframe⟩ := sendSecureFrame_eq_ok hsend
          have hnext : nextSeq p.seq = p.received + inflight.length + 1 := by
            rw [hseq]
            exact nextSeq_of_lt (by omega)
          have hunread' : (p.accepted.map codec.payload).drop p.received =
              (inflight ++ [SendCall.mk nonce payload]).map SendCall.payload ++ queue := by
            rw [hunread, List.map_append, List.append_assoc]
            rfl
          have hframes : sendFrames aead ctx.recvKey p.received
              (inflight ++ [SendCall.mk nonce payload]) = .ok (stream ++ frame) :=
            sendFrames_concat (by omega) hloc.frames (hseq ▸ hsend)
          have hwire (hreader : p.readerRuns = true) :
              p.wire = stream ∧ p.lastSeq = p.received := by
            rw [← List.append_nil stream]
            exact hloc.wire hreader
          have h32 : enc.length < 2 ^ 32 := by
            have hmem : payload ∈ p.accepted.map codec.payload :=
              List.mem_of_mem_drop (hunread ▸ List.mem_append_right _ List.mem_cons_self)
            obtain ⟨msg, hmsg, rfl⟩ := List.mem_map.mp hmem
            have := (hfits msg hmsg).length_lt
            rw [length_encryptE2e law henc, List.length_append, ToMathlib.length_beBytes]
            omega
          cases written with
          | none =>
            refine ⟨⟨_, queue, _, [], hloc.received_le, hunread', hframes, ?_, ?_, .inl rfl⟩,
              hfwd.sublist, hfwd.complete⟩
            · intro hreader
              obtain ⟨hwire, hlast⟩ := hwire hreader
              exact ⟨by rw [hwire, List.append_nil], hlast⟩
            · intro hw
              refine ⟨rfl, rfl, ?_⟩
              rw [List.length_append, List.length_singleton]
              exact hnext
          | some n =>
            dsimp only
            obtain hcut | hwhole := lt_or_ge n frame.length
            -- the last frame is cut off, and its payload is lost with the queue
            · refine ⟨⟨inflight, payload :: queue, stream, frame.take n, hloc.received_le, hunread,
                hloc.frames, ?_, fun hw => (Bool.false_ne_true hw).elim, .inr ?_⟩, hfwd.sublist,
                hfwd.complete⟩
              · intro hreader
                obtain ⟨hwire, hlast⟩ := hwire hreader
                exact ⟨by rw [hwire], hlast⟩
              · subst hframe
                exact truncated_take hcut h32
            · refine ⟨⟨_, queue, _, [], hloc.received_le, hunread', hframes, ?_,
                fun hw => (Bool.false_ne_true hw).elim, .inl rfl⟩, hfwd.sublist, hfwd.complete⟩
              intro hreader
              obtain ⟨hwire, hlast⟩ := hwire hreader
              exact ⟨by rw [hwire, List.take_of_length_le hwhole, List.append_nil], hlast⟩
  · exact ⟨⟨inflight, rest, stream, tail, hloc⟩, hfwd⟩

/-- The frame at the front of the wire is that of the next message. -/
theorem Located.head {call : SendCall} {inflight : List SendCall} {rest : List Bytes}
    {stream tail : Bytes} (h : p.Located aead codec ctx (call :: inflight) rest stream tail)
    (hcount : p.accepted.length < 2 ^ 64) (hfits : ∀ msg ∈ p.accepted, codec.Encodes msg) :
    ∃ msg frame stream', p.accepted[p.received]? = some msg ∧
      call.payload = codec.payload msg ∧ codec.Encodes msg ∧
      sendSecureFrame aead call.nonce call.payload ctx.recvKey p.received =
        (.ok frame, p.received + 1) ∧
      sendFrames aead ctx.recvKey (p.received + 1) inflight = .ok stream' ∧
      stream = frame ++ stream' ∧
      (p.accepted.map codec.payload).drop (p.received + 1) =
        inflight.map SendCall.payload ++ rest := by
  obtain ⟨frame, stream', hframe, hframes, rfl⟩ := sendFrames_cons_eq_ok h.frames
  have hunread := h.unread
  rw [List.map_cons, List.cons_append] at hunread
  have hlt : p.received < p.accepted.length := by
    have := congrArg List.length hunread
    rw [List.length_drop, List.length_map, List.length_cons] at this
    omega
  have hdrop : (p.accepted.map codec.payload).drop p.received =
      codec.payload p.accepted[p.received] ::
        (p.accepted.map codec.payload).drop (p.received + 1) := by
    rw [List.drop_eq_getElem_cons (by rwa [List.length_map]), List.getElem_map]
  obtain ⟨hpayload, hunread'⟩ := List.cons.inj (hdrop.symm.trans hunread)
  have hnext : nextSeq p.received = p.received + 1 := nextSeq_of_lt (by omega)
  rw [hnext] at hframe hframes
  exact ⟨p.accepted[p.received], frame, stream', List.getElem?_eq_getElem hlt, hpayload.symm,
    hfits _ (List.getElem_mem hlt), hframe, hframes, rfl, hunread'⟩

/-- The payload of the next message is read as this message. -/
theorem toList_readPayload_payload {msg : PeerMessage} (hmsg : codec.Encodes msg)
    (send : TrySendResult) :
    (readPayload codec.fromJson ctx (codec.payload msg) send).toList =
      if send = .ok then (forward ctx msg).toList else [] := by
  rw [toList_readPayload, MessageCodec.payload, fromUtf8_asBytes, Option.bind_some,
    hmsg.fromJson_toJson]
  split
  · cases hentry : forward ctx msg <;> simp [hentry]
  · rfl

/-- The message that is read is delivered, dropped or answered. -/
theorem Forwarded.readNext (h : p.Forwarded ctx) {msg : PeerMessage}
    (hmsg : p.accepted[p.received]? = some msg) (hencodes : codec.Encodes msg) {seq : ℕ}
    {rest : Bytes} (send : TrySendResult) :
    Forwarded ctx { p with
      lastSeq := seq
      wire := rest
      inbound := p.inbound ++ (readPayload codec.fromJson ctx (codec.payload msg) send).toList
      received := p.received + 1
      overflowed := p.overflowed || send ≠ .ok } := by
  have htake : p.accepted.take (p.received + 1) = p.accepted.take p.received ++ [msg] := by
    rw [List.take_add_one, hmsg]
    rfl
  have hone : (p.accepted.take (p.received + 1)).filterMap (forward ctx) =
      (p.accepted.take p.received).filterMap (forward ctx) ++ (forward ctx msg).toList := by
    rw [htake, List.filterMap_append]
    congr 1
  rw [toList_readPayload_payload hencodes]
  constructor
  · dsimp only
    rw [hone]
    split
    · exact h.sublist.append (List.Sublist.refl _)
    · exact h.sublist.append (List.nil_sublist _)
  · dsimp only
    intro hfull
    obtain ⟨hbefore, hok⟩ := Bool.or_eq_false_iff.mp hfull
    rw [hone, h.complete hbefore, if_pos (by simpa using hok)]

/-- The reader opens the frame that was sealed first. -/
theorem Inv.readNext (law : aead.Lawful) (h : p.Inv aead codec ctx)
    (hcount : p.accepted.length < 2 ^ 64) (hfits : ∀ msg ∈ p.accepted, codec.Encodes msg)
    (send : TrySendResult) : (p.readNext aead codec ctx send).Inv aead codec ctx := by
  obtain ⟨⟨inflight, rest, stream, tail, hloc⟩, hfwd⟩ := h
  rw [Pipeline.readNext]
  split
  · exact ⟨⟨inflight, rest, stream, tail, hloc⟩, hfwd⟩
  next hwaits =>
    have hreader : p.readerRuns = true := by
      cases hruns : p.readerRuns with
      | true => rfl
      | false => rw [hruns] at hwaits; exact absurd rfl hwaits
    obtain ⟨hwire, hlast⟩ := hloc.wire hreader
    cases hrecv : recvSecureFrame aead ctx.recvKey p.lastSeq p.wire with
    | mk result after =>
      obtain ⟨seq, after⟩ := after
      cases result with
      | error e =>
        exact ⟨⟨inflight, rest, stream, tail, hloc.received_le, hloc.unread, hloc.frames,
          fun hr => (Bool.false_ne_true hr).elim, hloc.writer, hloc.tail⟩, hfwd.sublist,
          hfwd.complete⟩
      | ok payload =>
        cases inflight with
        | nil =>
          -- what is left of the stream is no frame
          exfalso
          cases hloc.frames
          rw [hwire, List.nil_append] at hrecv
          obtain rfl | hcut := hloc.tail
          · cases hrecv
          · obtain ⟨e, tail', herror⟩ :=
              @Truncated.recvSecureFrame aead ctx.recvKey p.lastSeq tail hcut
            rw [herror] at hrecv
            cases hrecv
        | cons call inflight =>
          obtain ⟨msg, frame, stream', hmsg, hpayload, hfit, hframe, hframes, rfl, hunread⟩ :=
            hloc.head hcount hfits
          have hlt : p.received < p.accepted.length := (List.getElem?_eq_some_iff.mp hmsg).1
          have h32 : call.payload.length + 36 < 2 ^ 32 := by
            rw [hpayload]
            exact hfit.length_lt
          rw [hwire, hlast, List.append_assoc] at hrecv
          obtain ⟨-, hok⟩ | ⟨-, e, tail', herror⟩ :=
            recvSecureFrame_head law hframe (Nat.lt_succ_self _) h32 (stream' ++ tail)
          · rw [hok] at hrecv
            cases hrecv
            rw [hpayload]
            refine ⟨⟨inflight, rest, stream', tail, hlt, hunread, hframes, fun _ => ⟨rfl, rfl⟩, ?_,
              hloc.tail⟩, hfwd.readNext hmsg hfit send⟩
            intro hw
            obtain ⟨htail, hrest, hseq⟩ := hloc.writer hw
            exact ⟨htail, hrest, by rw [hseq, List.length_cons]; dsimp only; omega⟩
          · rw [herror] at hrecv
            cases hrecv

/-- Every step of the three tasks keeps the invariant. -/
theorem Inv.step (law : aead.Lawful) (h : p.Inv aead codec ctx)
    (hcount : p.accepted.length < 2 ^ 64) (hfits : ∀ msg ∈ p.accepted, codec.Encodes msg)
    (event : PipelineEvent) : (p.step aead codec ctx event).Inv aead codec ctx := by
  cases event with
  | sendTo uid msg => exact h.sendTo uid msg
  | write nonce => exact h.connectionWriter law hcount hfits nonce none
  | writeFails nonce written => exact h.connectionWriter law hcount hfits nonce (some written)
  | read send => exact h.readNext law hcount hfits send
  | idle =>
    obtain ⟨⟨inflight, rest, stream, tail, hloc⟩, hfwd⟩ := h
    exact ⟨⟨inflight, rest, stream, tail, hloc.received_le, hloc.unread, hloc.frames,
      fun hr => (Bool.false_ne_true hr).elim, hloc.writer, hloc.tail⟩, hfwd.sublist, hfwd.complete⟩

/-! ## Runs -/

/-- Only `send_to` accepts messages. -/
theorem accepted_step (p : Pipeline) (event : PipelineEvent) :
    (p.step aead codec ctx event).accepted = p.accepted ∨
      ∃ uid msg, event = .sendTo uid msg ∧
        (p.step aead codec ctx event).accepted = p.accepted ++ [msg] := by
  have hwriter (nonce : Vector UInt8 12) (written : Option ℕ) :
      (p.connectionWriter aead ctx nonce written).accepted = p.accepted := by
    unfold Pipeline.connectionWriter
    repeat' split
    all_goals rfl
  -- `send_to` alone accepts messages
  cases event with
  | sendTo uid msg =>
    rw [Pipeline.step, Pipeline.sendTo]
    split
    · exact .inl rfl
    · split
      · exact .inl rfl
      · exact .inr ⟨uid, msg, rfl, rfl⟩
  | write nonce => exact .inl (hwriter nonce none)
  | writeFails nonce written => exact .inl (hwriter nonce (some written))
  | read send =>
    refine .inl ?_
    rw [Pipeline.step, Pipeline.readNext]
    split
    · rfl
    · split <;> rfl
  | idle => exact .inl rfl

/-- The tasks keep the invariant however they interleave. -/
theorem Inv.run (law : aead.Lawful) {events : List PipelineEvent}
    (h : p.Inv aead codec ctx) (hcount : p.accepted.length + events.length < 2 ^ 64)
    (hfits : ∀ msg ∈ p.accepted, codec.Encodes msg)
    (hsent : ∀ uid msg, .sendTo uid msg ∈ events → codec.Encodes msg) :
    (p.run aead codec ctx events).Inv aead codec ctx ∧
      (p.run aead codec ctx events).accepted.length < 2 ^ 64 ∧
      ∀ msg ∈ (p.run aead codec ctx events).accepted, codec.Encodes msg := by
  induction events generalizing p with
  | nil => exact ⟨h, hcount, hfits⟩
  | cons event events ih =>
    rw [List.length_cons] at hcount
    have hstep := h.step law (by omega) hfits event
    have hrest (uid : String) (msg : PeerMessage) (hmem : .sendTo uid msg ∈ events) :
        codec.Encodes msg := hsent uid msg (List.mem_cons_of_mem _ hmem)
    obtain hsame | ⟨uid, msg, rfl, hone⟩ :=
      @accepted_step aead codec ctx p event
    · exact ih hstep (by rw [hsame]; omega) (by rwa [hsame]) hrest
    · refine ih hstep ?_ ?_ hrest
      · rw [hone, List.length_append, List.length_singleton]
        omega
      · rw [hone]
        intro msg' hmsg'
        obtain hold | hnew := List.mem_append.mp hmsg'
        · exact hfits msg' hold
        · rw [List.mem_singleton.mp hnew]
          exact hsent uid msg List.mem_cons_self

/-- The invariant of a connection, from its start on. -/
theorem inv_run_new (law : aead.Lawful) {events : List PipelineEvent}
    (hcount : events.length < 2 ^ 64)
    (hsent : ∀ uid msg, .sendTo uid msg ∈ events → codec.Encodes msg) :
    (new.run aead codec ctx events).Inv aead codec ctx ∧
      (new.run aead codec ctx events).accepted.length < 2 ^ 64 ∧
      ∀ msg ∈ (new.run aead codec ctx events).accepted, codec.Encodes msg :=
  inv_new.run law ((Nat.zero_add _).trans_lt hcount)
    (fun _ hmsg => absurd hmsg List.not_mem_nil) hsent

/-- The frames of some calls are no empty stream. -/
theorem ne_nil_of_sendFrames {key : Bytes32} {seq : ℕ} {call : SendCall} {calls : List SendCall}
    {stream : Bytes} (h : sendFrames aead key seq (call :: calls) = .ok stream) : stream ≠ [] := by
  obtain ⟨frame, rest, hframe, -, rfl⟩ := sendFrames_cons_eq_ok h
  obtain ⟨-, enc, -, rfl⟩ := sendSecureFrame_eq_ok hframe
  intro hnil
  have := congrArg List.length hnil
  simp at this

/-- However the tasks interleave, what is put into the inbound queue comes from the messages that
`send_to` has accepted, in their order and without repetition, and only a full inbound queue takes
anything away from those that have been read. While both tasks run, an accepted message that has
not been read is on the wire or in the queue of the writer. -/
theorem delivered (law : aead.Lawful) {events : List PipelineEvent}
    (hcount : events.length < 2 ^ 64)
    (hsent : ∀ uid msg, .sendTo uid msg ∈ events → codec.Encodes msg) {p : Pipeline}
    (hp : p = new.run aead codec ctx events) :
    p.inbound.Sublist ((p.accepted.take p.received).filterMap (forward ctx)) ∧
      (p.overflowed = false →
        p.inbound = (p.accepted.take p.received).filterMap (forward ctx)) ∧
      (p.writerRuns = true → p.readerRuns = true → p.wire = [] →
        p.queue = (p.accepted.drop p.received).map codec.payload) := by
  subst hp
  obtain ⟨⟨⟨inflight, rest, stream, tail, hloc⟩, hfwd⟩, -⟩ :=
    @inv_run_new aead codec ctx law events hcount hsent
  refine ⟨hfwd.sublist, hfwd.complete, ?_⟩
  intro hw hr hempty
  obtain ⟨rfl, rfl, -⟩ := hloc.writer hw
  obtain ⟨hwire, -⟩ := hloc.wire hr
  rw [hempty, List.append_nil] at hwire
  have hunread := hloc.unread
  cases inflight with
  | nil =>
    rw [List.map_drop, hunread]
    rfl
  | cons call inflight => exact absurd hwire.symm (ne_nil_of_sendFrames hloc.frames)

/-- A codec for two messages. -/
def sampleCodec : MessageCodec where
  toJson msg := if msg = .ping 1 then "1" else "2"
  fromJson text := if text = "1" then some (.ping 1) else some (.ping 2)

/-- The sample codec has two messages. -/
theorem encodes_sampleCodec {ts : ℕ} (h : ts = 1 ∨ ts = 2) : sampleCodec.Encodes (.ping ts) := by
  obtain rfl | rfl := h
  · exact ⟨by decide, by decide +kernel⟩
  · exact ⟨by decide, by decide +kernel⟩

/-- The session of `alice`. -/
def aliceCtx : ReaderCtx := ⟨"127.0.0.1:9000", sampleKey 1, "alice", true⟩

/-- A message is queued behind another one while that one is on its way. -/
def sampleEvents : List PipelineEvent :=
  [.sendTo "bob" (.ping 1), .write (.replicate 12 0), .sendTo "bob" (.ping 2), .read .ok]

/-- The sample events send these two. -/
theorem encodes_sampleEvents (uid : String) (msg : PeerMessage)
    (h : .sendTo uid msg ∈ sampleEvents) : sampleCodec.Encodes msg := by
  simp only [sampleEvents, List.mem_cons, List.not_mem_nil, or_false, PipelineEvent.sendTo.injEq,
    reduceCtorEq, false_or] at h
  obtain ⟨-, rfl⟩ | ⟨-, rfl⟩ := h
  · exact encodes_sampleCodec (.inl rfl)
  · exact encodes_sampleCodec (.inr rfl)

/-- The first message has arrived, and the second one still waits. -/
theorem delivered_one :
    (new.run sampleAead sampleCodec aliceCtx sampleEvents).inbound = [("alice", .ping 1)] ∧
      (new.run sampleAead sampleCodec aliceCtx sampleEvents).queue = [asBytes "2"] := by
  obtain ⟨-, hinbound, hqueue⟩ := @delivered sampleAead sampleCodec aliceCtx sampleAead_lawful
    sampleEvents (by decide) encodes_sampleEvents _ rfl
  exact ⟨(hinbound (by decide +kernel)).trans (by decide +kernel),
    (hqueue (by decide +kernel) (by decide +kernel) (by decide +kernel)).trans (by decide +kernel)⟩

/-! ## Messages that are too long -/

end Pipeline

end ChronoShift
