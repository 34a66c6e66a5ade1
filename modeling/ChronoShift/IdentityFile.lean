import ChronoShift.Net.RelayNode
import ChronoShift.ToMathlib.CrashProgram

/-!
# The identity file

A node reads its identity from `keys/identity.json` when it starts, or generates one and writes it
(`load_or_generate` of `identity.rs`), and writes it again when it shuts down (`save`). Both write
the file in place: it is truncated when it is opened. A file operation may fail, and a crash may
come anywhere; a write may stop behind any byte.

What a crash leaves behind is what a failed operation leaves behind
(`exists_faults_of_crashPoint`), so a process run is given by the operations that fail in it. The
text of an identity is produced and read by `serde_json`, a parameter.

* `nextIdentity_eq`: a process run has the identity of the one before it, unless the file was cut
  off; then it has a new one;
* `uid_of_mem_identities`: without a file to begin with, no process run has a uid.
-/

namespace ChronoShift

open ToMathlib CrashProgram

/-- `serde_json` at the type of what a file holds. -/
structure FileSerde (α : Type*) where
  /-- `to_string_pretty`. -/
  encode : α → String
  /-- `from_str`. -/
  decode : String → Option α

namespace FileSerde

variable {α : Type*}

/-- What the start of a process makes of a file. -/
def read (serde : FileSerde α) (file : Option Bytes) : Option α :=
  (file.bind fromUtf8).bind serde.decode

/-- The text of `a` is read back, and no part of it that is cut off is taken for anything. -/
def Writes (serde : FileSerde α) (a : α) : Prop :=
  ∀ k ≤ (asBytes (serde.encode a)).length,
    serde.read (some ((asBytes (serde.encode a)).take k)) =
      if k = (asBytes (serde.encode a)).length then some a else none

end FileSerde

/-- The four fields of an identity are written. -/
abbrev IdentitySerde := FileSerde Identity

/-- The file operations of `write_private_file`. -/
inductive KeyFileOp where
  | openFile
  | writeFile
  | syncFile
  deriving DecidableEq

namespace Identity

/-- `write_private_file`, on the contents of the file, if it exists. -/
def writePrivateFile (contents : Bytes) : CrashProgram KeyFileOp (Option Bytes) Bool :=
  (perform .openFile (.atomic fun _ => some [])).andThen <|
    (perform .writeFile ⟨fun _ => some contents, fun k _ => some (contents.take k)⟩).andThen <|
      perform .syncFile (.atomic id)

/-- A new identity, from the random bytes and the reading of the clock. -/
def generate (prim : Primitives) (uid : String) (keyBytes : Bytes32) (now : UInt64) : Identity where
  uid := uid
  secretHex := hexEncode keyBytes.toList
  publicHex := hexEncode (prim.verifyingKey keyBytes).toList
  created := now.toNat

/-- `load_or_generate`: the identity, and what is written. -/
def loadOrGenerate (prim : Primitives) (serde : IdentitySerde) (uid : String) (keyBytes : Bytes32)
    (now : UInt64) (file : Option Bytes) :
    Identity × CrashProgram KeyFileOp (Option Bytes) Bool :=
  match serde.read file with
  | some id => (id, .done true)
  | none =>
    let id := generate prim uid keyBytes now
    -- whether the file can be written is not looked at
    (id, writePrivateFile (asBytes (serde.encode id)))

/-- `save`. -/
def save (serde : IdentitySerde) (id : Identity) : CrashProgram KeyFileOp (Option Bytes) Bool :=
  writePrivateFile (asBytes (serde.encode id))

end Identity

/-! ## One write -/

section Write

variable {faults : KeyFileOp → Option ℕ} {contents : Bytes} {file file' : Option Bytes}

/-- What a write leaves, with the operations that fail in it. -/
def writtenFile (faults : KeyFileOp → Option ℕ) (contents : Bytes) (file : Option Bytes) :
    Option Bytes :=
  if faults .openFile ≠ none then file
  else some (contents.take ((faults .writeFile).getD contents.length))

theorem run_writePrivateFile (faults : KeyFileOp → Option ℕ) (contents : Bytes)
    (file : Option Bytes) :
    ((Identity.writePrivateFile contents).run faults file).2 =
      writtenFile faults contents file := by
  rw [Identity.writePrivateFile, writtenFile, run_andThen, run_perform_atomic]
  by_cases hopen : faults .openFile = none
  · rw [if_pos hopen, if_neg (not_not_intro hopen), if_pos rfl, run_andThen]
    cases hwrite : faults .writeFile with
    | none =>
      cases hsync : faults .syncFile <;>
        simp [perform, run, hwrite, hsync, CrashOp.outcome, CrashOp.atomic]
    | some k => simp [perform, run, hwrite, CrashOp.outcome]
  · rw [if_neg hopen, if_pos hopen]
    rfl

/-- The write stops behind `k` bytes. -/
def writeStops (k : ℕ) : KeyFileOp → Option ℕ
  | .writeFile => some k
  | _ => none

/-- A crash in a write leaves what a failed operation leaves. -/
theorem exists_faults_of_crashPoint
    (h : CrashPoint faults (Identity.writePrivateFile contents) file file') :
    ∃ faults', ((Identity.writePrivateFile contents).run faults' file).2 = file' := by
  suffices h : file' = file ∨ ∃ k, file' = some (contents.take k) by
    rcases h with rfl | ⟨k, rfl⟩
    · exact ⟨fun _ => some 0, run_writePrivateFile _ _ _⟩
    · exact ⟨writeStops k, run_writePrivateFile _ _ _⟩
  refine Keeps.survives (I := fun f => f = file ∨ ∃ k, f = some (contents.take k)) ?_ (.inl rfl)
    file' h
  have hall : some contents = some (contents.take contents.length) := by rw [List.take_length]
  refine (keeps_perform_atomic _ fun f _ => .inr ⟨0, rfl⟩).andThen
    (Keeps.andThen ⟨fun f _ => ⟨.inr ⟨_, hall⟩, fun k => .inr ⟨k, rfl⟩⟩, fun _ => trivial⟩
      (keeps_perform_atomic _ fun f hf => hf))

/-- A write that has been begun does not stop before the last byte. -/
def Whole (faults : KeyFileOp → Option ℕ) (contents : Bytes) : Prop :=
  ∀ k ∈ faults .writeFile, contents.length ≤ k

instance (faults : KeyFileOp → Option ℕ) (contents : Bytes) : Decidable (Whole faults contents) :=
  inferInstanceAs (Decidable (∀ k ∈ faults .writeFile, contents.length ≤ k))

/-- What is read after a value has been written. -/
theorem FileSerde.read_writtenFile {α : Type*} {serde : FileSerde α} {a : α}
    (hwrites : serde.Writes a) (file : Option Bytes) :
    serde.read (writtenFile faults (asBytes (serde.encode a)) file) =
      if faults .openFile ≠ none then serde.read file
      else if Whole faults (asBytes (serde.encode a)) then some a
      else none := by
  rw [writtenFile]
  split
  next => rfl
  next =>
    have hall := hwrites _ le_rfl
    rw [List.take_length, if_pos rfl] at hall
    cases hwrite : faults .writeFile with
    | none =>
      have hwhole : Whole faults (asBytes (serde.encode a)) := by simp [Whole, hwrite]
      rw [Option.getD_none, List.take_length, hall, if_pos hwhole]
    | some k =>
      have hwhole : Whole faults (asBytes (serde.encode a)) ↔
          (asBytes (serde.encode a)).length ≤ k := by simp [Whole, hwrite]
      simp only [Option.getD_some, hwhole]
      split
      next hle => rw [List.take_of_length_le hle, hall]
      next hlt =>
        have hk : k < (asBytes (serde.encode a)).length := not_le.mp hlt
        rw [hwrites k hk.le, if_neg hk.ne]

end Write

/-! ## Process runs -/

/-- What a process run meets: what it draws if it generates an identity, and the operations that
fail while the identity is written when it starts, and when it shuts down, if it does. -/
structure ProcessRun where
  keyBytes : Bytes32
  now : UInt64
  start : KeyFileOp → Option ℕ
  shutdown : Option (KeyFileOp → Option ℕ)

namespace ProcessRun

variable (prim : Primitives) (serde : IdentitySerde)

/-- The identity of the process run. `AppState::new_with_port` passes no uid. -/
def identity (r : ProcessRun) (file : Option Bytes) : Identity :=
  (Identity.loadOrGenerate prim serde "" r.keyBytes r.now file).1

/-- The file while the process runs. -/
def started (r : ProcessRun) (file : Option Bytes) : Option Bytes :=
  ((Identity.loadOrGenerate prim serde "" r.keyBytes r.now file).2.run r.start file).2

/-- The file after the process run. -/
def fileAfter (r : ProcessRun) (file : Option Bytes) : Option Bytes :=
  match r.shutdown with
  | none => r.started prim serde file
  | some faults =>
    ((Identity.save serde (r.identity prim serde file)).run faults (r.started prim serde file)).2

/-- The identities of process runs on the same file, one after the other. -/
def identities : Option Bytes → List ProcessRun → List Identity
  | _, [] => []
  | file, r :: runs => r.identity prim serde file :: identities (r.fileAfter prim serde file) runs

/-- The text of the identity of the process run. -/
def text (r : ProcessRun) (file : Option Bytes) : Bytes :=
  asBytes (serde.encode (r.identity prim serde file))

/-- The identity is in the file while the process runs: it was there, or it has been written. -/
def InFile (r : ProcessRun) (file : Option Bytes) : Prop :=
  (serde.read file).isSome ∨
    r.start .openFile = none ∧ Whole r.start (r.text prim serde file)

instance (r : ProcessRun) (file : Option Bytes) : Decidable (r.InFile prim serde file) :=
  inferInstanceAs (Decidable (_ ∨ _))

/-- The process run leaves its identity in the file: it is written at the shutdown as a whole, or it
is in the file and not touched again. -/
def Leaves (r : ProcessRun) (file : Option Bytes) : Prop :=
  (∃ faults ∈ r.shutdown, faults .openFile = none ∧ Whole faults (r.text prim serde file)) ∨
    (∀ faults ∈ r.shutdown, faults .openFile ≠ none) ∧ r.InFile prim serde file

instance (r : ProcessRun) (file : Option Bytes) : Decidable (r.Leaves prim serde file) :=
  inferInstanceAs (Decidable (_ ∨ _))

/-- Every process run but the last leaves its identity. -/
def AllLeave : Option Bytes → List ProcessRun → Prop
  | file, r :: r' :: runs =>
    r.Leaves prim serde file ∧ AllLeave (r.fileAfter prim serde file) (r' :: runs)
  | _, _ => True

variable {prim serde} {r : ProcessRun} {file : Option Bytes}

theorem identity_of_read_eq_none (h : serde.read file = none) :
    r.identity prim serde file = .generate prim "" r.keyBytes r.now := by
  rw [identity, Identity.loadOrGenerate, h]

theorem identity_of_read_eq_some {id : Identity} (h : serde.read file = some id) :
    r.identity prim serde file = id := by
  rw [identity, Identity.loadOrGenerate, h]

/-- What is read while the process runs. -/
theorem read_started (hwrites : serde.Writes (r.identity prim serde file)) :
    serde.read (r.started prim serde file) =
      if r.InFile prim serde file then some (r.identity prim serde file) else none := by
  cases hread : serde.read file with
  | some id =>
    rw [if_pos (.inl (Option.isSome_iff_exists.mpr ⟨id, hread⟩)),
      identity_of_read_eq_some hread, started, Identity.loadOrGenerate, hread]
    exact hread
  | none =>
    simp only [InFile, text, hread, identity_of_read_eq_none hread] at hwrites ⊢
    have hstarted : r.started prim serde file = writtenFile r.start
        (asBytes (serde.encode (.generate prim "" r.keyBytes r.now))) file := by
      rw [started, Identity.loadOrGenerate, hread]
      exact run_writePrivateFile _ _ _
    rw [hstarted, FileSerde.read_writtenFile hwrites, hread]
    -- without an identity there, it is in the file if and only if it has been written
    by_cases hopen : r.start .openFile = none
    · simp [hopen]
    · simp [hopen]

/-- What is read after the process run. -/
theorem read_fileAfter (hwrites : serde.Writes (r.identity prim serde file)) :
    serde.read (r.fileAfter prim serde file) =
      if r.Leaves prim serde file then some (r.identity prim serde file) else none := by
  have hstarted := read_started hwrites
  rw [fileAfter]
  cases hshutdown : r.shutdown with
  | none => simpa [Leaves, hshutdown] using hstarted
  | some faults =>
    dsimp only
    rw [Identity.save, run_writePrivateFile, FileSerde.read_writtenFile hwrites]
    by_cases hopen : faults .openFile = none
    · simp [Leaves, hshutdown, hopen, text]
    · simpa [Leaves, hshutdown, hopen] using hstarted

/-- The next process run has the identity that is left, or a new one. -/
theorem nextIdentity_eq (hwrites : serde.Writes (r.identity prim serde file)) (r' : ProcessRun) :
    r'.identity prim serde (r.fileAfter prim serde file) =
      if r.Leaves prim serde file then r.identity prim serde file
      else .generate prim "" r'.keyBytes r'.now := by
  have hread := read_fileAfter hwrites
  split
  next hleaves => exact identity_of_read_eq_some (hread.trans (if_pos hleaves))
  next hleaves => exact identity_of_read_eq_none (hread.trans (if_neg hleaves))

/-- In every sequence of process runs, whatever operations fail and wherever the crashes come, all
of them have the same identity if and only if each of them but the last one leaves it in the file.
A crash that cuts off the file, at the first start or at a shutdown, makes a new node of the next
one. -/
theorem identities_eq_iff (r : ProcessRun) (runs : List ProcessRun) (file : Option Bytes)
    (hwrites : ∀ id ∈ identities prim serde file (r :: runs), serde.Writes id)
    (hfresh : ∀ r' ∈ runs, hexEncode r'.keyBytes.toList ≠ (r.identity prim serde file).secretHex) :
    (∀ id ∈ identities prim serde file (r :: runs), id = r.identity prim serde file) ↔
      AllLeave prim serde file (r :: runs) := by
  induction runs generalizing r file with
  | nil => exact iff_of_true (fun id hid => List.mem_singleton.mp hid) trivial
  | cons r' runs ih =>
    rw [identities, List.forall_mem_cons] at hwrites
    rw [identities, List.forall_mem_cons, and_iff_right rfl, AllLeave]
    obtain ⟨hkey, hfresh⟩ := List.forall_mem_cons.mp hfresh
    have hnext := nextIdentity_eq hwrites.1 r'
    by_cases hleaves : r.Leaves prim serde file
    · rw [if_pos hleaves] at hnext
      rw [and_iff_right hleaves, ← hnext]
      exact ih r' _ hwrites.2 (hnext ▸ hfresh)
    · -- the next process run has drawn a key of its own
      refine iff_of_false (fun hall => ?_) fun h => hleaves h.1
      have heq := hall _ (List.mem_cons_self ..)
      rw [hnext, if_neg hleaves] at heq
      exact hkey (congrArg Identity.secretHex heq)

/-- The identity has been generated without a uid. -/
def Anonymous (prim : Primitives) (id : Identity) : Prop :=
  ∃ keyBytes now, id = .generate prim "" keyBytes now

/-- Without an identity in the file to begin with, no process run has a uid. -/
theorem anonymous_of_mem_identities {runs : List ProcessRun}
    (hfile : serde.read file = none)
    (hwrites : ∀ id ∈ identities prim serde file runs, serde.Writes id) :
    ∀ id ∈ identities prim serde file runs, Anonymous prim id := by
  suffices h : (∀ id, serde.read file = some id → Anonymous prim id) →
      ∀ id ∈ identities prim serde file runs, Anonymous prim id from
    h fun id hid => by rw [hfile] at hid; cases hid
  clear hfile
  induction runs generalizing file with
  | nil => exact fun _ => List.forall_mem_nil _
  | cons r runs ih =>
    intro hread
    rw [identities, List.forall_mem_cons] at hwrites ⊢
    have hid : Anonymous prim (r.identity prim serde file) := by
      cases h : serde.read file with
      | none => exact ⟨_, _, identity_of_read_eq_none h⟩
      | some id => exact identity_of_read_eq_some h ▸ hread id h
    refine ⟨hid, ih hwrites.2 fun id h => ?_⟩
    rw [read_fileAfter hwrites.1] at h
    split at h
    · exact Option.some.inj h ▸ hid
    · cases h

end ProcessRun

/-! ## Sample identities -/

/-- The texts of finitely many values. -/
def FileSerde.ofList {α : Type*} (text : α → String) (values : List α) : FileSerde α where
  encode := text
  decode s := values.find? (text · = s)

theorem asBytes_of_fromUtf8 {b : Bytes} {s : String} (h : fromUtf8 b = some s) : asBytes s = b := by
  rw [fromUtf8, String.fromUTF8?] at h
  split at h
  next => rw [← Option.some.inj h]; rfl
  next => cases h

/-- Different texts of one length: none is a part of another. -/
theorem FileSerde.writes_ofList {α : Type*} {text : α → String} {values : List α} {a : α}
    (ha : a ∈ values)
    (h : ∀ a' ∈ values, (asBytes (text a')).length = (asBytes (text a)).length ∧
      (text a' = text a → a' = a)) :
    (FileSerde.ofList text values).Writes a := by
  intro k hk
  have hdecode (s : String) (a' : α) (hdec : (FileSerde.ofList text values).decode s = some a') :
      a' ∈ values ∧ text a' = s :=
    have hfind : values.find? (fun a => text a = s) = some a' := hdec
    ⟨List.mem_of_find?_eq_some hfind, by simpa using List.find?_some hfind⟩
  split
  next hall =>
    rw [hall, List.take_length, FileSerde.read, Option.bind_some, fromUtf8_asBytes,
      Option.bind_some]
    have hsome : (values.find? (fun a' => text a' = text a)).isSome :=
      List.find?_isSome.mpr ⟨a, ha, decide_eq_true rfl⟩
    obtain ⟨a', hfind⟩ := Option.isSome_iff_exists.mp hsome
    obtain ⟨hmem, htext⟩ := hdecode _ a' hfind
    rw [← (h a' hmem).2 htext]
    exact hfind ▸ congrArg (FileSerde.ofList text values).decode htext
  next hcut =>
    refine Option.eq_none_iff_forall_ne_some.mpr fun a' ha' => hcut ?_
    obtain ⟨s, hs, hdec⟩ := Option.bind_eq_some_iff.mp ha'
    obtain ⟨hmem, heq⟩ := hdecode s a' hdec
    -- a part that is cut off is shorter than every text
    have hlen := (h a' hmem).1
    rw [heq, asBytes_of_fromUtf8 hs, List.length_take] at hlen
    exact (min_eq_left hk).symm.trans hlen

/-- The text of an identity without characters to escape. -/
def identityText (id : Identity) : String :=
  "\x7b\n  \"created\": " ++ toString id.created ++ ",\n  \"public_hex\": \"" ++ id.publicHex ++
    "\",\n  \"secret_hex\": \"" ++ id.secretHex ++ "\",\n  \"uid\": \"" ++ id.uid ++ "\"\n\x7d"

namespace ProcessRun

/-- The identity that is generated from the byte `b`, ten seconds after the epoch. -/
def sampleIdentity (b : UInt8) : Identity := .generate .const "" (.replicate 32 b) 10

/-- The first process run, whose shutdown is cut off by a crash. -/
def cutOff : ProcessRun := ⟨.replicate 32 1, 10, fun _ => none, some (writeStops 20)⟩

/-- The second process run. -/
def afterwards : ProcessRun := ⟨.replicate 32 2, 10, fun _ => none, none⟩

/-- The second process run does not have the identity of the first one. -/
theorem identity_lost :
    let serde := FileSerde.ofList identityText [sampleIdentity 1, sampleIdentity 2]
    ¬ ∀ id ∈ identities .const serde none [cutOff, afterwards],
      id = cutOff.identity .const serde none := by
  intro serde
  have hids : identities .const serde none [cutOff, afterwards] =
      [sampleIdentity 1, sampleIdentity 2] := by decide +kernel
  have hwrites (b : UInt8) (hb : sampleIdentity b ∈ [sampleIdentity 1, sampleIdentity 2])
      (h : ∀ id' ∈ [sampleIdentity 1, sampleIdentity 2],
        (asBytes (identityText id')).length = (asBytes (identityText (sampleIdentity b))).length ∧
          (identityText id' = identityText (sampleIdentity b) → id' = sampleIdentity b)) :
      serde.Writes (sampleIdentity b) := FileSerde.writes_ofList hb h
  refine (not_congr (identities_eq_iff cutOff [afterwards] none ?_ ?_)).mpr fun hall => ?_
  · rw [hids]
    refine List.forall_mem_cons.mpr ⟨hwrites 1 (by decide) (by decide +kernel), ?_⟩
    exact List.forall_mem_singleton.mpr (hwrites 2 (by decide) (by decide +kernel))
  · decide +kernel
  · exact absurd hall.1 (by decide +kernel)

end ProcessRun

end ChronoShift
