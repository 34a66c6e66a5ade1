import ChronoShift.Identity
import ChronoShift.ToMathlib.Lines

/-!
# The write-ahead log

The log of `storage.rs`: one line `[timestamp] json` for each operation, appended to `wal.log`,
and the snapshot `state.json` that a checkpoint writes before it truncates the log.

The texts are produced and read by `serde_json`, which is a parameter (`Serde`). What a result
needs of it is stated for the operations at hand, as `Serde.Writes` and the like. Texts that are
read are given by their bytes, and replay works on the bytes of the file: it stops at the first
line that is not UTF-8, and skips lines that do not parse.

* `replayLines_logOf_append`: complete lines are replayed, and then what follows them;
* `replayLog_logOf`: a log of complete lines is replayed in full.
-/

namespace ChronoShift

open ToMathlib

/-- A logged operation. -/
inductive WalOperation where
  | addFriend (uid addr : String) (trust : UInt8)
  | removeFriend (uid : String)
  | updateTrust (uid : String) (trust : UInt8)
  | createChannel (name : String)
  | joinChannel (channel uid : String)
  | leaveChannel (channel uid : String)
  | createNetwork (name admin : String)
  | addMember (network uid : String)
  | removeMember (network uid : String)
  | setUid (uid : String)
  | updateEdgeKey (uid keyHex : String)
  | sendMessage (sender receiver text : String)
  deriving DecidableEq

/-- One friend edge in a snapshot. -/
structure FriendRecord where
  uid : String
  addr : String
  trust : UInt8
  edgeKeyHex : Option String
  deriving DecidableEq

/-- One channel in a snapshot. -/
structure ChannelRecord where
  name : String
  topic : String
  participants : List String
  deriving DecidableEq

/-- A snapshot of the social state. -/
structure SocialSnapshot where
  uid : String
  friends : List FriendRecord
  channels : List ChannelRecord
  deriving DecidableEq

/-- `serde_json` at the types of the log. -/
structure Serde where
  /-- `to_string` of an operation. -/
  encodeOp : WalOperation → String
  /-- `from_str` of an operation, on the bytes of the text. -/
  decodeOp : Bytes → Option WalOperation
  /-- `to_string_pretty` of a snapshot. -/
  encodeSnapshot : SocialSnapshot → String
  /-- `from_str` of a snapshot. -/
  decodeSnapshot : String → Option SocialSnapshot

/-- The texts of finitely many operations and snapshots. -/
def Serde.ofTable (ops : List (WalOperation × String))
    (snapshots : List (SocialSnapshot × String)) : Serde where
  encodeOp op := ((ops.find? (·.1 = op)).map Prod.snd).getD ""
  decodeOp text := (ops.find? (asBytes ·.2 = text)).map Prod.fst
  encodeSnapshot snapshot := ((snapshots.find? (·.1 = snapshot)).map Prod.snd).getD ""
  decodeSnapshot text := (snapshots.find? (·.2 = text)).map Prod.fst

/-- Maximum size of a log that is replayed. -/
def maxWalBytes : ℕ := 64 * 1024 * 1024

/-- The files of the data directory. -/
structure DataDir where
  /-- The contents of `wal.log`. -/
  log : Bytes := []
  /-- The contents of `state.json`, if it exists. -/
  state : Option String := none

/-- The store: the files, and when the last checkpoint was. Clock readings are in milliseconds. -/
structure WalStore where
  dir : DataDir
  opsSinceCheckpoint : ℕ
  lastCheckpoint : ℕ
  checkpointOps : ℕ

/-- An operation with its timestamp. -/
def entryText (serde : Serde) (timestamp : ℕ) (op : WalOperation) : String :=
  "[" ++ toString timestamp ++ "] " ++ serde.encodeOp op

/-- The line of one operation. -/
def walLine (serde : Serde) (timestamp : ℕ) (op : WalOperation) : Bytes :=
  asBytes (entryText serde timestamp op ++ "\n")

/-- The text of a line without its newline; a carriage return before it goes too. -/
def lineText (line : Bytes × Bool) : Bytes :=
  if line.2 = true ∧ line.1.getLast? = some 13 then line.1.dropLast else line.1

/-- The operation on a line: what the text from the first brace on parses to. -/
def lineOp (serde : Serde) (text : Bytes) : Option WalOperation :=
  match text.dropWhile (· ≠ 123) with
  | [] => none
  | json => serde.decodeOp json

/-- The operations on the lines, up to the first line that is not UTF-8. -/
def replayLines (serde : Serde) : List (Bytes × Bool) → List WalOperation
  | [] => []
  | line :: lines =>
    match fromUtf8 (lineText line) with
    -- a decoding error ends the replay, while a line that does not parse is only skipped
    | none => []
    | some _ => (lineOp serde (lineText line)).toList ++ replayLines serde lines

/-- The operations of a log file. -/
def replayLog (serde : Serde) (log : Bytes) : List WalOperation :=
  -- an oversized log is not read at all, so only the snapshot is left
  if log.length > maxWalBytes then [] else replayLines serde (rawLines 10 log)

namespace WalStore

/-- Open the files of a directory. The log is appended to as it is. -/
def openAt (dir : DataDir) (checkpointOps now : ℕ) : WalStore := ⟨dir, 0, now, checkpointOps⟩

/-- Append one operation. -/
def append (serde : Serde) (w : WalStore) (timestamp : ℕ) (op : WalOperation) : WalStore :=
  { w with
    dir := { w.dir with log := w.dir.log ++ walLine serde timestamp op }
    opsSinceCheckpoint := w.opsSinceCheckpoint + 1 }

/-- Append operations one after the other. -/
def appendAll (serde : Serde) (w : WalStore) (entries : List (ℕ × WalOperation)) : WalStore :=
  entries.foldl (fun w e => w.append serde e.1 e.2) w

/-- Replay the log. -/
def replay (serde : Serde) (w : WalStore) : List WalOperation := replayLog serde w.dir.log

/-- Write a snapshot, then truncate the log. -/
def checkpoint (serde : Serde) (w : WalStore) (snapshot : SocialSnapshot) (now : ℕ) : WalStore :=
  { w with
    -- the log is cleared together with whatever it held that the snapshot does not
    dir := ⟨[], some (serde.encodeSnapshot snapshot)⟩
    opsSinceCheckpoint := 0
    lastCheckpoint := now }

/-- A checkpoint is due after `checkpointOps` operations or one minute. -/
def shouldCheckpoint (w : WalStore) (now : ℕ) : Bool :=
  w.checkpointOps ≤ w.opsSinceCheckpoint || 60000 ≤ now - w.lastCheckpoint

/-- The snapshot of the last checkpoint. -/
def loadState (serde : Serde) (w : WalStore) : Option SocialSnapshot :=
  w.dir.state.bind serde.decodeSnapshot

end WalStore

/-! ## What is assumed of the texts -/

namespace Serde

/-- The text of an operation starts with a brace, has no line breaks, and parses back. -/
structure Writes (serde : Serde) (op : WalOperation) : Prop where
  brace : (serde.encodeOp op).toList.head? = some '{'
  noBreak : ∀ b ∈ asBytes (serde.encodeOp op), b ≠ 10 ∧ b ≠ 13
  decode : serde.decodeOp (asBytes (serde.encodeOp op)) = some op

instance (serde : Serde) (op : WalOperation) : Decidable (serde.Writes op) :=
  decidable_of_iff ((serde.encodeOp op).toList.head? = some '{' ∧
      (asBytes (serde.encodeOp op)).all (fun b => b ≠ 10 ∧ b ≠ 13) = true ∧
      serde.decodeOp (asBytes (serde.encodeOp op)) = some op)
    ⟨fun h => ⟨h.1, by simpa using h.2.1, h.2.2⟩,
      fun h => ⟨h.brace, by simpa using h.noBreak, h.decode⟩⟩

/-- A text that stops before its end does not parse. -/
def RejectsPrefixes (serde : Serde) (op : WalOperation) : Prop :=
  ∀ text, text <+: asBytes (serde.encodeOp op) → text ≠ asBytes (serde.encodeOp op) →
    serde.decodeOp text = none

/-- A text that is followed by another line of the log does not parse. -/
def RejectsMerged (serde : Serde) (op : WalOperation) (timestamp : ℕ) (next : WalOperation) :
    Prop :=
  ∀ text, text <+: asBytes (serde.encodeOp op) → text ≠ [] →
    serde.decodeOp (text ++ asBytes (entryText serde timestamp next)) = none

end Serde

/-! ## Lines -/

section Lines

variable {serde : Serde} {op : WalOperation} {timestamp : ℕ}

/-- The timestamp in front of an operation. -/
def stamp (timestamp : ℕ) : List Char := '[' :: (toString timestamp).toList ++ [']', ' ']

/-- A timestamp is made of digits, brackets and a blank. -/
theorem mem_stamp {c : Char} (h : c ∈ stamp timestamp) :
    c.isDigit ∨ c = '[' ∨ c = ']' ∨ c = ' ' := by
  simp only [stamp, List.cons_append, List.mem_cons, List.mem_append, List.not_mem_nil,
    or_false] at h
  rcases h with h | h | h | h
  · exact Or.inr (Or.inl h)
  · have hdigits : c ∈ Nat.toDigits 10 timestamp := by simpa using h
    exact Or.inl (Nat.isDigit_of_mem_toDigits (by decide) (by decide) hdigits)
  · exact Or.inr (Or.inr (Or.inl h))
  · exact Or.inr (Or.inr (Or.inr h))

/-- A stamp has neither braces nor line breaks. -/
theorem stamp_ascii {c : Char} (h : c ∈ stamp timestamp) :
    c.toNat < 128 ∧ c.val.toUInt8 ≠ 123 ∧ c.val.toUInt8 ≠ 10 ∧ c.val.toUInt8 ≠ 13 := by
  rcases mem_stamp h with hd | rfl | rfl | rfl
  · have hc : 48 ≤ c.toNat ∧ c.toNat ≤ 57 := by
      simpa [Char.isDigit, UInt32.le_iff_toNat_le] using hd
    -- a digit is its own byte, between 48 and 57
    have hbyte : c.val.toUInt8.toNat = c.toNat := by
      rw [UInt32.toNat_toUInt8]
      exact Nat.mod_eq_of_lt (by omega : c.toNat < 2 ^ 8)
    refine ⟨by omega, ?_, ?_, ?_⟩ <;> intro heq <;> rw [heq] at hbyte <;> simp at hbyte <;> omega
  · decide
  · decide
  · decide

/-- The bytes of a timestamp. -/
def stampBytes (timestamp : ℕ) : Bytes := asBytes (String.ofList (stamp timestamp))

/-- The stamp comes first, and then the operation. -/
theorem asBytes_entryText : asBytes (entryText serde timestamp op) =
    stampBytes timestamp ++ asBytes (serde.encodeOp op) := by
  rw [stampBytes, ← asBytes_append, entryText]
  refine congrArg asBytes (String.toList_injective ?_)
  simp [stamp]

/-- A line is an entry with its line feed. -/
theorem walLine_eq :
    walLine serde timestamp op = asBytes (entryText serde timestamp op) ++ [10] := by
  have hbreak : ([10] : Bytes) = asBytes "\n" := by decide
  rw [walLine, asBytes_append, hbreak]

/-- The bytes of a stamp are neither braces nor line breaks. -/
theorem mem_stampBytes {b : UInt8} (h : b ∈ stampBytes timestamp) :
    b ≠ 123 ∧ b ≠ 10 ∧ b ≠ 13 := by
  rw [stampBytes, asBytes_ofList_ascii fun c hc => (stamp_ascii hc).1, List.mem_map] at h
  obtain ⟨c, hc, rfl⟩ := h
  exact (stamp_ascii hc).2

/-- A part of a timestamp in front of a text is a text. -/
theorem fromUtf8_stamp_append {p : Bytes} (hp : p <+: stampBytes timestamp) (s : String) :
    (fromUtf8 (p ++ asBytes s)).isSome = true := by
  obtain ⟨n, rfl⟩ : ∃ n, p = (stampBytes timestamp).take n :=
    ⟨p.length, (List.prefix_iff_eq_take.mp hp)⟩
  -- a timestamp has one byte per character, so a part of its bytes is a part of its text
  have hchars : (stampBytes timestamp).take n =
      asBytes (String.ofList ((stamp timestamp).take n)) := by
    rw [stampBytes, asBytes_ofList_ascii fun c hc => (stamp_ascii hc).1,
      asBytes_ofList_ascii fun c hc => (stamp_ascii (List.mem_of_mem_take hc)).1, List.map_take]
  rw [hchars, ← asBytes_append, fromUtf8_asBytes]
  rfl

/-- The text of an operation, from its brace on. -/
theorem Serde.Writes.exists_cons (h : serde.Writes op) :
    ∃ rest, asBytes (serde.encodeOp op) = 123 :: rest := by
  obtain ⟨l, hl⟩ : ∃ l, (serde.encodeOp op).toList = '{' :: l := by
    have hb := h.brace
    cases hlist : (serde.encodeOp op).toList with
    | nil => simp [hlist] at hb
    | cons c l =>
      rw [hlist, List.head?_cons, Option.some.injEq] at hb
      exact ⟨l, by rw [hb]⟩
  rw [asBytes_eq_flatMap, hl, List.flatMap_cons]
  exact ⟨_, rfl⟩

/-- Bytes without a brace in front of a line do not change what it parses to. -/
theorem lineOp_append {p text : Bytes} (hp : 123 ∉ p) :
    lineOp serde (p ++ text) = lineOp serde text := by
  have hdrop : (p ++ text).dropWhile (· ≠ 123) = text.dropWhile (· ≠ 123) :=
    List.dropWhile_append_of_pos fun b hb => by
      simpa using fun heq : b = 123 => hp (heq ▸ hb)
  rw [lineOp, lineOp, hdrop]

/-- From a brace on everything is decoded. -/
theorem lineOp_cons_brace (rest : Bytes) :
    lineOp serde (123 :: rest) = serde.decodeOp (123 :: rest) := by
  rw [lineOp, List.dropWhile_cons_of_neg (by simp)]

/-- Without a brace there is nothing to decode. -/
theorem lineOp_eq_none {p : Bytes} (hp : 123 ∉ p) : lineOp serde p = none := by
  have h := @lineOp_append serde p [] hp
  rw [List.append_nil] at h
  rw [h]
  rfl

/-- A line that ends with a complete operation has no carriage return to strip. -/
theorem lineText_append_entry (hw : serde.Writes op) (front : Bytes) :
    lineText (front ++ asBytes (entryText serde timestamp op), true) =
      front ++ asBytes (entryText serde timestamp op) := by
  obtain ⟨rest, hrest⟩ := hw.exists_cons
  rw [lineText, if_neg]
  rintro ⟨-, hcr⟩
  rw [asBytes_entryText, ← List.append_assoc, hrest,
    List.getLast?_append_of_ne_nil _ (by simp)] at hcr
  exact (hw.noBreak 13 (hrest ▸ List.mem_of_getLast? hcr)).2 rfl

/-- A line of text that parses is replayed. -/
theorem replayLines_cons_some {line : Bytes × Bool}
    (htext : (fromUtf8 (lineText line)).isSome = true)
    (hop : lineOp serde (lineText line) = some op) (lines : List (Bytes × Bool)) :
    replayLines serde (line :: lines) = op :: replayLines serde lines := by
  obtain ⟨s, hs⟩ := Option.isSome_iff_exists.mp htext
  rw [replayLines, hs, hop]
  rfl

/-- A complete line, possibly behind a part of another timestamp, is replayed. -/
theorem replayLines_entry (hw : serde.Writes op) {p : Bytes} {t : ℕ} (hp : p <+: stampBytes t)
    (lines : List (Bytes × Bool)) :
    replayLines serde ((p ++ asBytes (entryText serde timestamp op), true) :: lines) =
      op :: replayLines serde lines := by
  obtain ⟨rest, hrest⟩ := hw.exists_cons
  -- no timestamp has a brace, so the first brace is that of the operation
  have hop : lineOp serde (p ++ asBytes (entryText serde timestamp op)) = some op := by
    have hp' : 123 ∉ p := fun hmem => (mem_stampBytes (hp.subset hmem)).1 rfl
    have hs : 123 ∉ stampBytes timestamp := fun hmem => (mem_stampBytes hmem).1 rfl
    rw [lineOp_append hp', asBytes_entryText, lineOp_append hs, hrest, lineOp_cons_brace,
      ← hrest, hw.decode]
  have htext := fromUtf8_stamp_append hp (entryText serde timestamp op)
  rw [← lineText_append_entry hw p] at hop htext
  exact replayLines_cons_some htext hop lines

end Lines

/-! ## Replay -/

section Replay

variable {serde : Serde}

/-- The log file after operations have been appended to an empty one. -/
def logOf (serde : Serde) (entries : List (ℕ × WalOperation)) : Bytes :=
  entries.flatMap fun e => walLine serde e.1 e.2

/-- Several entries, one after the other. -/
theorem log_appendAll (w : WalStore) (entries : List (ℕ × WalOperation)) :
    (w.appendAll serde entries).dir = { w.dir with log := w.dir.log ++ logOf serde entries } := by
  induction entries generalizing w with
  | nil => simp [WalStore.appendAll, logOf]
  | cons e entries ih =>
    have h := ih (w.append serde e.1 e.2)
    rw [WalStore.appendAll] at h ⊢
    rw [List.foldl_cons, h]
    simp [WalStore.append, logOf]

/-- An entry is one line. -/
theorem entryText_noBreak {op : WalOperation} (hw : serde.Writes op) (timestamp : ℕ) :
    (10 : UInt8) ∉ asBytes (entryText serde timestamp op) := by
  rw [asBytes_entryText, List.mem_append, not_or]
  exact ⟨fun h => (mem_stampBytes h).2.1 rfl, fun h => (hw.noBreak 10 h).1 rfl⟩

/-- Complete lines are replayed, and then what follows them. -/
theorem replayLines_logOf_append {entries : List (ℕ × WalOperation)}
    (hw : ∀ e ∈ entries, serde.Writes e.2) (tail : Bytes) :
    replayLines serde (rawLines 10 (logOf serde entries ++ tail)) =
      entries.map Prod.snd ++ replayLines serde (rawLines 10 tail) := by
  induction entries with
  | nil => rfl
  | cons e entries ih =>
    have hline : logOf serde (e :: entries) ++ tail =
        asBytes (entryText serde e.1 e.2) ++ 10 :: (logOf serde entries ++ tail) := by
      simp [logOf, walLine_eq]
    have he := hw e List.mem_cons_self
    rw [hline, rawLines_append_cons (entryText_noBreak he e.1)]
    have hentry := @replayLines_entry serde e.2 e.1 he [] 0 List.nil_prefix
    rw [List.nil_append] at hentry
    rw [hentry, ih fun e' he' => hw e' (List.mem_cons_of_mem _ he')]
    rfl

/-- A log of complete lines is replayed in full. -/
theorem replayLog_logOf {entries : List (ℕ × WalOperation)}
    (hw : ∀ e ∈ entries, serde.Writes e.2)
    (hsize : (logOf serde entries).length ≤ maxWalBytes) :
    replayLog serde (logOf serde entries) = entries.map Prod.snd := by
  rw [replayLog, if_neg (not_lt.mpr hsize)]
  have h := replayLines_logOf_append hw []
  simpa [rawLines, replayLines] using h

end Replay

end ChronoShift
