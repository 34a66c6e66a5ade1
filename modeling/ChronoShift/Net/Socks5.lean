import ChronoShift.Text
import ChronoShift.ToMathlib.Pieces

/-!
# The SOCKS5 client

`Socks5Stream::connect` of `network.rs`, once the proxy has taken the connection: the greeting and
its answer, the request for a domain, and the reply. The stream that is returned is handed to the
caller, who reads from it what the target sends.

The answer to the greeting is read until it is complete; the reply is what a single read returns.

* `Socks5.connect_reads_iff`: when the caller reads exactly what the target has sent, and what it
  reads otherwise.
-/

namespace ChronoShift

open ToMathlib

namespace Socks5

/-- The greeting: one method, without authentication. -/
def greeting : Bytes := [5, 1, 0]

/-- The request to connect to a domain. -/
def connectRequest (targetDomain : String) (targetPort : UInt16) : Bytes :=
  [5, 1, 0, 3, UInt8.ofNat (asBytes targetDomain).length] ++ asBytes targetDomain ++
    [(targetPort >>> 8).toUInt8, (targetPort &&& 0xff).toUInt8]

/-- `Socks5Stream::connect`, on what the proxy sends. Returns what is written, and the stream that
is left. -/
def connect (targetDomain : String) (targetPort : UInt16) (pieces : List Bytes) :
    Bytes × Except String (List Bytes) :=
  match readExact 2 pieces with
  | none => (greeting, .error "failed to fill whole buffer")
  | some (resp, pieces) =>
    if resp[0]? ≠ some 5 ∨ resp[1]? ≠ some 0 then (greeting, .error "SOCKS5 auth failed")
    else if 255 < (asBytes targetDomain).length then (greeting, .error "Domain too long")
    else
      let written := greeting ++ connectRequest targetDomain targetPort
      -- a single read, into a buffer of 262 bytes
      let (resp2, pieces) := readSome 262 pieces
      if resp2.length < 10 ∨ resp2[1]? ≠ some 0 then (written, .error "SOCKS5 connect failed")
      else (written, .ok pieces)

variable {targetDomain : String} {targetPort : UInt16} {auth pieces : List Bytes}
  {reply data : Bytes}

/-- After the answer to the greeting the reply is looked for in one read. -/
theorem connect_of_auth (hdomain : (asBytes targetDomain).length ≤ 255)
    (hauth : ∀ p ∈ auth, p ≠ []) (hpieces : ∀ p ∈ pieces, p ≠ [])
    (hanswer : auth.flatten = [5, 0]) :
    (connect targetDomain targetPort (auth ++ pieces)).2 =
      if (readSome 262 pieces).1.length < 10 ∨ (readSome 262 pieces).1[1]? ≠ some 0 then
        .error "SOCKS5 connect failed"
      else .ok (readSome 262 pieces).2 := by
  have hread := readExact_append hauth hpieces
  rw [hanswer] at hread
  rw [connect, show (2 : ℕ) = ([5, 0] : Bytes).length from rfl, hread]
  dsimp only
  rw [if_neg (by simp), if_neg (not_lt.mpr hdomain)]
  split <;> rfl

/-- The caller of a connection that is taken reads the end of the reply and then the data. -/
def ReadsReply (result : Except String (List Bytes)) (reply data : Bytes) : Prop :=
  ∃ rest missing, result = .ok rest ∧ missing ≠ [] ∧ missing <:+ reply ∧
    rest.flatten = missing ++ data

/-- The caller of a connection that is taken misses the beginning of the data. -/
def LosesData (result : Except String (List Bytes)) (data : Bytes) : Prop :=
  ∃ rest lost, result = .ok rest ∧ lost ≠ [] ∧ data = lost ++ rest.flatten

/-- The first read returns the beginning of the reply, the reply, or the reply and some data. -/
theorem connect_cases (hdomain : (asBytes targetDomain).length ≤ 255)
    (hauth : ∀ p ∈ auth, p ≠ []) (hpieces : ∀ p ∈ pieces, p ≠ [])
    (hanswer : auth.flatten = [5, 0]) (hsent : pieces.flatten = reply ++ data)
    (hwrong : ¬ (10 ≤ reply.length ∧ (readSome 262 pieces).1 = reply)) :
    (connect targetDomain targetPort (auth ++ pieces)).2 = .error "SOCKS5 connect failed" ∨
      ReadsReply (connect targetDomain targetPort (auth ++ pieces)).2 reply data ∨
      LosesData (connect targetDomain targetPort (auth ++ pieces)).2 data := by
  have hread := readSome_append 262 pieces
  rw [hsent] at hread
  rw [connect_of_auth hdomain hauth hpieces hanswer]
  split
  · exact Or.inl rfl
  next htaken =>
    have hlong : 10 ≤ (readSome 262 pieces).1.length := not_lt.mp fun h => htaken (Or.inl h)
    rcases List.append_eq_append_iff.mp hread with ⟨missing, hreply, hrest⟩ | ⟨lost, hfirst, hdata⟩
    · refine Or.inr (Or.inl ⟨_, missing, rfl, fun hnone => ?_, ⟨_, hreply.symm⟩, hrest⟩)
      rw [hnone, List.append_nil] at hreply
      exact hwrong ⟨hreply ▸ hlong, hreply.symm⟩
    · refine Or.inr (Or.inr ⟨_, lost, rfl, fun hnone => ?_, hdata⟩)
      rw [hnone, List.append_nil] at hfirst
      exact hwrong ⟨hfirst ▸ hlong, hfirst⟩

/-- For every domain of at most 255 bytes, every reply of the proxy that reports a success, and
every data that the target sends afterwards, cut into pieces anywhere: the connection is taken and
the caller reads exactly the data if and only if the reply has at least 10 bytes and the first read
returns it alone. Otherwise the connection is refused, or the caller reads the rest of the reply, or
misses the beginning of the data. -/
theorem connect_reads_iff (hdomain : (asBytes targetDomain).length ≤ 255)
    (hauth : ∀ p ∈ auth, p ≠ []) (hpieces : ∀ p ∈ pieces, p ≠ [])
    (hanswer : auth.flatten = [5, 0]) (hreply : reply[1]? = some 0)
    (hsent : pieces.flatten = reply ++ data) :
    ((∃ rest, (connect targetDomain targetPort (auth ++ pieces)).2 = .ok rest ∧
        rest.flatten = data) ↔
      10 ≤ reply.length ∧ ∃ p ∈ pieces.head?, p.take 262 = reply) ∧
    (¬ (10 ≤ reply.length ∧ ∃ p ∈ pieces.head?, p.take 262 = reply) →
      (connect targetDomain targetPort (auth ++ pieces)).2 = .error "SOCKS5 connect failed" ∨
        ReadsReply (connect targetDomain targetPort (auth ++ pieces)).2 reply data ∨
        LosesData (connect targetDomain targetPort (auth ++ pieces)).2 data) := by
  have hfirst : (∃ p ∈ pieces.head?, p.take 262 = reply) ↔ (readSome 262 pieces).1 = reply := by
    cases pieces with
    | nil =>
      refine iff_of_false (by simp) fun hnil => ?_
      rw [← hnil] at hreply
      cases hreply
    | cons p pieces => simp [readSome]
  rw [hfirst]
  refine ⟨?_, connect_cases hdomain hauth hpieces hanswer hsent⟩
  have hread := readSome_append 262 pieces
  rw [hsent] at hread
  rw [connect_of_auth hdomain hauth hpieces hanswer]
  constructor
  -- what is left is the data, so what was read is the reply
  · rintro ⟨rest, hok, rfl⟩
    split at hok
    next => cases hok
    next hlong =>
      cases hok
      have hall := List.append_cancel_right hread
      rw [hall] at hlong
      exact ⟨not_lt.mp fun hshort => hlong (.inl hshort), hall⟩
  · rintro ⟨hlong, hall⟩
    refine ⟨(readSome 262 pieces).2, if_neg ?_, ?_⟩
    · rw [hall]
      exact not_or.mpr ⟨not_lt.mpr hlong, not_not_intro hreply⟩
    · rw [hall] at hread
      exact List.append_cancel_left hread

/-- The reply for an IPv4 address. -/
def sampleReply : Bytes := [5, 0, 0, 1, 0, 0, 0, 0, 0, 0]

/-- What is left of a connection whose reply and data come in one piece. -/
def onePiece : Except String (List Bytes) :=
  (connect "a.onion" 80 ([[5], [0]] ++ [sampleReply ++ [104, 105]])).2

/-- Reply and data come in one piece: the data is not read. -/
theorem connect_misses_data :
    (¬ ∃ rest, onePiece = .ok rest ∧ rest.flatten = [104, 105]) ∧
      (onePiece = .error "SOCKS5 connect failed" ∨ ReadsReply onePiece sampleReply [104, 105] ∨
        LosesData onePiece [104, 105]) := by
  obtain ⟨hiff, hwrong⟩ := @connect_reads_iff "a.onion" 80 [[5], [0]]
    [sampleReply ++ [104, 105]] sampleReply [104, 105] (by decide) (by decide) (by decide) rfl rfl
    rfl
  exact ⟨(not_congr hiff).mpr (by decide), hwrong (by decide)⟩

end Socks5

end ChronoShift
