import ChronoShift.DcNet.Share

/-!
# The grammar of frames

A frame is the length of a message, its checksum, the message and a rest. `unpad_message` of
`dcnet/round_network.rs` accepts the frames and nothing else, whatever their rest is, and
`pad_message` writes the one whose rest is zero.

* `unpadMessage_eq_some_iff`: what is accepted as a frame of a message;
* `padMessage_eq_some_iff`: what is written as one;
* `frame_exact`: both, with the lengths at which a frame is written.
-/

namespace ChronoShift

/-- The frame of a message, with the bytes that follow it. -/
def frame (prim : Primitives) (msg rest : Bytes) : Bytes :=
  beBytes 4 msg.length ++ (prim.sha256 msg).toList ++ msg ++ rest

variable {prim : Primitives} {msg rest padded : Bytes} {payloadLen : ℕ}

@[simp]
theorem length_frame : (frame prim msg rest).length = 36 + msg.length + rest.length := by
  simp only [frame, List.length_append, ToMathlib.length_beBytes, Vector.length_toList]

/-- The length field of a frame. -/
theorem take_frame : (frame prim msg rest).take 4 = beBytes 4 msg.length := by
  rw [frame, List.append_assoc, List.append_assoc,
    List.take_left' (ToMathlib.length_beBytes 4 msg.length)]

/-- What follows the length field. -/
theorem drop_four_frame :
    (frame prim msg rest).drop 4 = (prim.sha256 msg).toList ++ (msg ++ rest) := by
  rw [frame, List.append_assoc, List.append_assoc,
    List.drop_left' (ToMathlib.length_beBytes 4 msg.length)]

/-- What follows the checksum. -/
theorem drop_frame : (frame prim msg rest).drop 36 = msg ++ rest := by
  have hfields : (beBytes 4 msg.length ++ (prim.sha256 msg).toList).length = 36 := by
    rw [List.length_append, ToMathlib.length_beBytes, Vector.length_toList]
  rw [frame, List.append_assoc, List.drop_left' hfields]

/-- A frame of a message whose length fits the length field is accepted. -/
theorem unpadMessage_frame (hlen : msg.length < 2 ^ 32) :
    unpadMessage prim (frame prim msg rest) = some msg := by
  have hfield : ofBeBytes (beBytes 4 msg.length) = msg.length := by
    rw [ToMathlib.ofBeBytes_beBytes, Nat.mod_eq_of_lt (by simpa using hlen)]
  have hsha : (prim.sha256 msg).toList.length = 32 := Vector.length_toList
  rw [unpadMessage, length_frame, if_neg (by omega)]
  dsimp only
  rw [take_frame, hfield, if_neg (by omega), drop_frame, List.take_left, drop_four_frame,
    List.take_left' hsha, if_neg (not_not_intro rfl)]

/-- What is accepted is cut at the boundaries of the fields of a frame. -/
theorem eq_frame_of_unpadMessage (h : unpadMessage prim padded = some msg) :
    padded = frame prim msg (padded.drop (36 + msg.length)) := by
  rw [unpadMessage] at h
  dsimp only at h
  split at h
  · cases h
  next hheader =>
    split at h
    · cases h
    next hbody =>
      split at h
      · cases h
      next hsha =>
        obtain rfl := Option.some.inj h
        have hsum := not_not.mp hsha
        have hfour : (padded.take 4).length = 4 := by
          rw [List.length_take]
          omega
        -- the message is as long as the length field says
        have hlen : ((padded.drop 36).take (ofBeBytes (padded.take 4))).length =
            ofBeBytes (padded.take 4) := by
          rw [List.length_take, List.length_drop]
          omega
        have hfield := ToMathlib.beBytes_ofBeBytes (padded.take 4)
        rw [hfour] at hfield
        have hrest : padded.drop 36 = (padded.drop 4).drop 32 := by rw [List.drop_drop]
        -- the message and the rest
        have hbody : padded.drop 36 = (padded.drop 36).take (ofBeBytes (padded.take 4)) ++
            padded.drop (36 + ofBeBytes (padded.take 4)) := by
          rw [← List.drop_drop, List.take_append_drop]
        calc padded
            = padded.take 4 ++ (padded.drop 4).take 32 ++ padded.drop 36 := by
              rw [hrest, List.append_assoc, List.take_append_drop, List.take_append_drop]
          _ = padded.take 4 ++ (padded.drop 4).take 32 ++ (_ ++ _) := congrArg (_ ++ ·) hbody
          _ = _ := by rw [frame, hlen, hfield, hsum, List.append_assoc (_ ++ _)]

/-- The frames of a message are what is accepted as one. -/
theorem unpadMessage_eq_some_iff (hlen : msg.length < 2 ^ 32) :
    unpadMessage prim padded = some msg ↔ ∃ rest, padded = frame prim msg rest := by
  constructor
  · exact fun h => ⟨_, eq_frame_of_unpadMessage h⟩
  · rintro ⟨rest, rfl⟩
    exact unpadMessage_frame hlen

/-- The frame of the payload's length that ends in zeros is what is written. -/
theorem padMessage_eq_some_iff : padMessage prim msg payloadLen = some padded ↔
    padded.length = payloadLen ∧ ∃ rest, (∀ b ∈ rest, b = 0) ∧ padded = frame prim msg rest := by
  constructor
  · intro h
    have hfit : 36 + msg.length ≤ payloadLen := padMessage_isSome.mp (by rw [h]; rfl)
    refine ⟨length_padMessage h, List.replicate (payloadLen - (36 + msg.length)) 0,
      fun b hb => List.eq_of_mem_replicate hb, ?_⟩
    rw [padMessage_eq_some hfit] at h
    exact (Option.some.inj h).symm
  · rintro ⟨rfl, rest, hzero, rfl⟩
    rw [padMessage_eq_some (by rw [length_frame]; omega), length_frame, Nat.add_sub_cancel_left,
      ← List.eq_replicate_of_mem hzero, frame]

/-- A byte string is read as a message if and only if it is a frame of the message, and a message is
written if and only if its frame fits, as the frame of that length that ends in zeros. -/
theorem frame_exact (prim : Primitives) {msg : Bytes} (hlen : msg.length < 2 ^ 32) :
    (∀ padded, unpadMessage prim padded = some msg ↔ ∃ rest, padded = frame prim msg rest) ∧
    ∀ payloadLen, ((padMessage prim msg payloadLen).isSome ↔ 36 + msg.length ≤ payloadLen) ∧
      ∀ padded, padMessage prim msg payloadLen = some padded ↔ padded.length = payloadLen ∧
        ∃ rest, (∀ b ∈ rest, b = 0) ∧ padded = frame prim msg rest :=
  ⟨fun _ => unpadMessage_eq_some_iff hlen,
    fun _ => ⟨padMessage_isSome, fun _ => padMessage_eq_some_iff⟩⟩

/-- A message of one byte. -/
theorem frame_exact_one :
    (∀ padded, unpadMessage .const padded = some [7] ↔ ∃ rest, padded = frame .const [7] rest) ∧
    ∀ payloadLen, ((padMessage .const [7] payloadLen).isSome ↔ 36 + 1 ≤ payloadLen) ∧
      ∀ padded, padMessage .const [7] payloadLen = some padded ↔ padded.length = payloadLen ∧
        ∃ rest, (∀ b ∈ rest, b = 0) ∧ padded = frame .const [7] rest :=
  frame_exact .const (by decide)

end ChronoShift
