import ChronoShift.Storage.Wal
import ChronoShift.ToMathlib.CrashProgram
import Mathlib.Logic.Function.Basic

/-!
# A checkpoint, file operation by file operation

`WalStore.checkpoint` takes the snapshot and the log as they are after the last file operation. This
is the way there (`storage.rs`): the snapshot is written to a temporary file, which is renamed over
`state.json`, and then the log is truncated. Any file operation may fail or be the last one before a
crash, and a write may stop behind any byte.

The log is safe in every execution. The snapshot is safe as long as the rename works. If it fails,
the old snapshot is removed before the rename is tried again, and if that fails too, the new one is
written over it.

* `Checkpoint.run_checkpoint`: without faults, the files are those of `WalStore.checkpoint`;
* `Checkpoint.log_kept`: the log is not truncated before the new snapshot is in place;
* `Checkpoint.snapshot_kept_iff`: the executions in which every crash leaves the old or the new
  snapshot.
-/

namespace ChronoShift

open ToMathlib CrashProgram

/-- The files that a checkpoint works on. -/
inductive DiskFile where
  | log
  | state
  | tmp
  deriving DecidableEq

/-- The contents of the files that exist. -/
abbrev Disk := DiskFile → Option Bytes

/-- The file operations of a checkpoint. None is carried out twice. -/
inductive FileOp where
  | openFile (file : DiskFile)
  | writeFile (file : DiskFile)
  | syncFile (file : DiskFile)
  | removeFile (file : DiskFile)
  | rename (again : Bool)
  | syncDir
  deriving DecidableEq

namespace Checkpoint

/-- Open a file for writing, which creates or truncates it. -/
def openTruncate (file : DiskFile) : CrashProgram FileOp Disk Bool :=
  perform (.openFile file) (.atomic fun d => Function.update d file (some []))

/-- Write a file that has just been truncated. -/
def writeAll (file : DiskFile) (contents : Bytes) : CrashProgram FileOp Disk Bool :=
  perform (.writeFile file) ⟨fun d => Function.update d file (some contents),
    fun k d => Function.update d file (some (contents.take k))⟩

/-- Wait until a file is on the disk. -/
def syncAll (file : DiskFile) : CrashProgram FileOp Disk Bool :=
  perform (.syncFile file) (.atomic id)

/-- Remove a file, if it exists. -/
def removeFile (file : DiskFile) : CrashProgram FileOp Disk Bool :=
  perform (.removeFile file) (.atomic fun d => Function.update d file none)

/-- The temporary file has become `state.json`. -/
def renamed (d : Disk) : Disk := Function.update (Function.update d .state (d .tmp)) .tmp none

/-- Rename the temporary file over `state.json`. -/
def rename (again : Bool) : CrashProgram FileOp Disk Bool :=
  perform (.rename again) (.atomic renamed)

/-- Write a file and wait until it is on the disk. -/
def writeSynced (file : DiskFile) (contents : Bytes) : CrashProgram FileOp Disk Bool :=
  (openTruncate file).andThen ((writeAll file contents).andThen (syncAll file))

/-- `write_private_file` of `identity.rs`. -/
def writePrivateFile (path : DiskFile) (contents : Bytes) : CrashProgram FileOp Disk Bool :=
  writeSynced path contents

/-- Write the snapshot to the temporary file. -/
def writeTmp (contents : Bytes) : CrashProgram FileOp Disk Bool := writeSynced .tmp contents

/-- Rename once more, now that the target has been removed, or else write directly. -/
def renameAgain (contents : Bytes) : CrashProgram FileOp Disk Bool :=
  (rename true).bind fun ok =>
    if ok then .done true
    else (writePrivateFile .state contents).andThen ((removeFile .tmp).bind fun _ => .done true)

/-- Replace `state.json`. -/
def replaceState (contents : Bytes) : CrashProgram FileOp Disk Bool :=
  (rename false).bind fun ok =>
    if ok then .done true
    -- whether there was anything to remove does not matter
    else (removeFile .state).bind fun _ => renameAgain contents

/-- Truncate the log. -/
def truncateLog : CrashProgram FileOp Disk Bool := (openTruncate .log).andThen (syncAll .log)

/-- Write a snapshot, then truncate the log. -/
def checkpoint (contents : Bytes) : CrashProgram FileOp Disk Bool :=
  (writeTmp contents).andThen ((replaceState contents).andThen
    -- the directory is synced as well as it goes
    ((perform .syncDir (.atomic id)).bind fun _ => truncateLog))

/-- The directory, as the program reads it. -/
def toDir (d : Disk) : DataDir := ⟨(d .log).getD [], (d .state).bind fromUtf8⟩

/-! ## What the parts do -/

variable {faults : FileOp → Option ℕ} {contents : Bytes} {d : Disk} {I : Disk → Prop}

/-- No operation on the file has failed. -/
def Written (faults : FileOp → Option ℕ) (file : DiskFile) : Prop :=
  faults (.openFile file) = none ∧ faults (.writeFile file) = none ∧
    faults (.syncFile file) = none

theorem keeps_writeSynced {file : DiskFile} (contents : Bytes)
    (hI : ∀ d x, I d → I (Function.update d file x)) : (writeSynced file contents).Keeps I :=
  (keeps_perform_atomic _ fun d hd => hI d _ hd).andThen <|
    Keeps.andThen ⟨fun d hd => ⟨hI d _ hd, fun _ => hI d _ hd⟩, fun _ => trivial⟩ <|
      keeps_perform_atomic _ fun _ hd => hd

/-- The file that is written, and whether this has worked. -/
theorem run_writeSynced (file : DiskFile) (contents : Bytes) (d : Disk) :
    (((writeSynced file contents).run faults d).1 = true ↔ Written faults file) ∧
      (Written faults file → ((writeSynced file contents).run faults d).2 =
        Function.update d file (some contents)) := by
  simp only [writeSynced, openTruncate, writeAll, syncAll, run_andThen, perform, run,
    Option.isNone_iff_eq_none, Written]
  by_cases hopen : faults (.openFile file) = none
  · by_cases hwrite : faults (.writeFile file) = none
    · by_cases hsync : faults (.syncFile file) = none
      · simp [hopen, hwrite, hsync, CrashOp.outcome, CrashOp.atomic]
      · simp [hopen, hwrite, hsync]
    · simp [hopen, hwrite]
  · simp [hopen]

/-- A program survives if and only if it does until the new snapshot is in place, and from there. -/
theorem survives_checkpoint (d : Disk) :
    Survives faults I (checkpoint contents) d ↔ Survives faults I (writeTmp contents) d ∧
      (Written faults .tmp →
        let written := Function.update d .tmp (some contents)
        Survives faults I (replaceState contents) written ∧
          (((replaceState contents).run faults written).1 = true →
            Survives faults I ((perform .syncDir (.atomic id)).bind fun _ => truncateLog)
              ((replaceState contents).run faults written).2)) := by
  obtain ⟨hok, hwritten⟩ := @run_writeSynced faults .tmp contents d
  rw [checkpoint, survives_andThen]
  refine and_congr_right fun _ => ?_
  rw [writeTmp, hok]
  refine imp_congr_right fun h => ?_
  rw [hwritten h, survives_andThen]

/-- The second attempt puts the new snapshot in place if it succeeds. -/
theorem state_of_run_renameAgain (htmp : d .tmp = some contents)
    (h : ((renameAgain contents).run faults d).1 = true) :
    ((renameAgain contents).run faults d).2 .state = some contents := by
  rw [renameAgain, run_bind, rename, run_perform_atomic] at h ⊢
  by_cases hrename : faults (.rename true) = none
  · rw [if_pos hrename]
    simpa [run, renamed] using htmp
  · rw [if_neg hrename] at h ⊢
    simp only [Bool.false_eq_true, if_false, writePrivateFile, removeFile, run_andThen, run_bind,
      run_perform_atomic] at h ⊢
    obtain ⟨hok, hwritten⟩ := @run_writeSynced faults .state contents d
    split at h
    next hrun =>
      rw [if_pos hrun, hwritten (hok.mp hrun)]
      split <;> simp [run]
    next => cases h

/-- The new snapshot is in place once the replacement has succeeded. -/
theorem state_of_run_replaceState (htmp : d .tmp = some contents)
    (h : ((replaceState contents).run faults d).1 = true) :
    ((replaceState contents).run faults d).2 .state = some contents := by
  rw [replaceState, run_bind, rename, run_perform_atomic] at h ⊢
  by_cases hrename : faults (.rename false) = none
  · rw [if_pos hrename]
    simpa [run, renamed] using htmp
  · rw [if_neg hrename] at h ⊢
    simp only [Bool.false_eq_true, if_false, removeFile, run_bind, run_perform_atomic] at h ⊢
    refine state_of_run_renameAgain ?_ h
    split
    · simpa using htmp
    · exact htmp

/-! ## The log -/

theorem keeps_log_replaceState (contents : Bytes) (log : Option Bytes) :
    (replaceState contents).Keeps fun d => d .log = log := by
  refine (keeps_perform_atomic _ fun d hd => ?_).bind fun ok => ?_
  · simpa [renamed] using hd
  · split
    · trivial
    · refine (keeps_perform_atomic _ fun d hd => ?_).bind fun _ =>
        (keeps_perform_atomic _ fun d hd => ?_).bind fun ok => ?_
      · simpa using hd
      · simpa [renamed] using hd
      · split
        · trivial
        · refine (keeps_writeSynced contents fun d x hd => ?_).andThen
            ((keeps_perform_atomic _ fun d hd => ?_).bind fun _ => trivial)
          · simpa using hd
          · simpa using hd

theorem keeps_state_truncateLog (state : Option Bytes) :
    ((perform .syncDir (.atomic id)).bind fun _ => truncateLog).Keeps
      fun d : Disk => d .state = state := by
  refine (keeps_perform_atomic _ fun d hd => hd).bind fun _ =>
    (keeps_perform_atomic _ fun d hd => ?_).andThen (keeps_perform_atomic _ fun d hd => hd)
  simpa using hd

/-- In every execution the log is as it was, or the new snapshot is in place. -/
theorem log_kept (faults : FileOp → Option ℕ) (contents : Bytes) (d : Disk) :
    Survives faults (fun d' => d' .log = d .log ∨ d' .state = some contents)
      (checkpoint contents) d := by
  have hlog : (writeTmp contents).Keeps fun d' => d' .log = d .log :=
    keeps_writeSynced contents fun d' x hd' => by simpa using hd'
  refine (survives_checkpoint d).mpr ⟨(hlog.survives rfl).mono fun _ => Or.inl, fun _ => ⟨?_, ?_⟩⟩
  · refine ((keeps_log_replaceState contents (d .log)).survives ?_).mono fun _ => Or.inl
    simp
  · intro hok
    refine ((keeps_state_truncateLog (some contents)).survives ?_).mono fun _ => Or.inr
    exact state_of_run_replaceState (by simp) hok

/-! ## The snapshot -/

/-- The old snapshot is in place, or the new one. -/
def StateKept (old : Option Bytes) (contents : Bytes) (d : Disk) : Prop :=
  d .state = old ∨ d .state = some contents

variable {old : Option Bytes}

/-- A snapshot that is written directly is torn, unless the file cannot even be opened. -/
theorem stateKept_writePrivateFile_iff (hlen : 2 ≤ contents.length) (hstate : d .state = old) :
    Survives faults (StateKept old contents) (writePrivateFile .state contents) d ↔
      faults (.openFile .state) ≠ none := by
  rw [writePrivateFile, writeSynced, openTruncate, andThen, survives_atomic_bind]
  by_cases hopen : faults (.openFile .state) = none
  · refine iff_of_false ?_ (not_not_intro hopen)
    rintro ⟨-, hwrite⟩
    rw [if_pos hopen, if_pos rfl, survives_andThen, writeAll, survives_perform] at hwrite
    have hcut := hwrite.1.2.1
    -- the file is cut off behind no byte, and behind one: the old snapshot is not both
    have hnone := hcut 0
    have hone := hcut 1
    obtain _ | ⟨a, _ | ⟨b, rest⟩⟩ := contents
    · exact absurd hlen (by simp)
    · exact absurd hlen (by simp)
    · simp only [StateKept, Function.update_self, List.take_zero, List.take_succ_cons,
        Option.some.injEq, List.cons.injEq, reduceCtorEq, and_false, or_false] at hnone hone
      rw [← hnone] at hone
      cases hone
  · rw [if_neg hopen]
    exact iff_of_true ⟨Or.inl hstate, (survives_done false).mpr (Or.inl hstate)⟩ hopen

/-- The second attempt keeps the old snapshot if it works, or if the direct write cannot start. -/
theorem stateKept_renameAgain_iff (hlen : 2 ≤ contents.length) (hstate : d .state = old)
    (htmp : d .tmp = some contents) :
    Survives faults (StateKept old contents) (renameAgain contents) d ↔
      faults (.rename true) = none ∨ faults (.openFile .state) ≠ none := by
  have hkept : StateKept old contents d := Or.inl hstate
  rw [renameAgain, rename, survives_atomic_bind, and_iff_right hkept]
  by_cases hrename : faults (.rename true) = none
  · rw [if_pos hrename]
    have hnew : StateKept old contents (renamed d) := Or.inr (by simpa [renamed] using htmp)
    exact iff_of_true ((survives_done true).mpr hnew) (Or.inl hrename)
  · rw [if_neg hrename, or_iff_right hrename, ← stateKept_writePrivateFile_iff hlen hstate]
    simp only [Bool.false_eq_true, if_false]
    rw [survives_andThen]
    refine and_iff_left_of_imp fun h hok => ?_
    -- a direct write that has kept the old snapshot has not even opened the file
    have hopen := (stateKept_writePrivateFile_iff hlen hstate).mp h
    exact absurd ((run_writeSynced .state contents d).1.mp hok).1 hopen

/-- The replacement keeps the old snapshot if the first attempt works, or if nothing is removed and
the second one keeps it. -/
theorem stateKept_replaceState_iff (hlen : 2 ≤ contents.length) (hstate : d .state = old)
    (htmp : d .tmp = some contents) :
    Survives faults (StateKept old contents) (replaceState contents) d ↔
      faults (.rename false) = none ∨ (old = none ∨ faults (.removeFile .state) ≠ none) ∧
        (faults (.rename true) = none ∨ faults (.openFile .state) ≠ none) := by
  have hkept : StateKept old contents d := Or.inl hstate
  rw [replaceState, rename, survives_atomic_bind, and_iff_right hkept]
  by_cases hrename : faults (.rename false) = none
  · rw [if_pos hrename]
    have hnew : StateKept old contents (renamed d) := Or.inr (by simpa [renamed] using htmp)
    exact iff_of_true ((survives_done true).mpr hnew) (Or.inl hrename)
  · rw [if_neg hrename, or_iff_right hrename]
    simp only [Bool.false_eq_true, if_false]
    rw [removeFile, survives_atomic_bind, and_iff_right hkept]
    by_cases hremove : faults (.removeFile .state) = none
    · rw [if_pos hremove]
      by_cases hold : old = none
      · rw [stateKept_renameAgain_iff hlen (by simp [hold]) (by simpa using htmp),
          and_iff_right (Or.inl hold)]
      -- the old snapshot is gone, and the new one is not there yet
      · refine iff_of_false (fun h => ?_) fun h => h.1.elim hold (absurd hremove)
        have hgone := h _ (.before _ _)
        simp [StateKept, Ne.symm hold] at hgone
    · rw [if_neg hremove, stateKept_renameAgain_iff hlen hstate htmp,
        and_iff_right (Or.inr hremove)]

/-- The old snapshot stays in place until the new one takes its place: the temporary file cannot be
written, or the first attempt to rename it works, or nothing is removed, and then the second attempt
works or the direct write cannot start. -/
def Replaces (faults : FileOp → Option ℕ) (d : Disk) : Prop :=
  ¬ Written faults .tmp ∨ faults (.rename false) = none ∨
    (d .state = none ∨ faults (.removeFile .state) ≠ none) ∧
      (faults (.rename true) = none ∨ faults (.openFile .state) ≠ none)

theorem stateKept_checkpoint_iff (hlen : 2 ≤ contents.length) :
    Survives faults (StateKept (d .state) contents) (checkpoint contents) d ↔
      Replaces faults d := by
  have hwrite : (writeTmp contents).Keeps (StateKept (d .state) contents) :=
    keeps_writeSynced contents fun d' x hd' => by simpa [StateKept] using hd'
  rw [survives_checkpoint, and_iff_right (hwrite.survives (Or.inl rfl)), Replaces,
    ← imp_iff_not_or]
  refine imp_congr_right fun _ => ?_
  have htmp : Function.update d .tmp (some contents) .tmp = some contents := by simp
  rw [← stateKept_replaceState_iff hlen (by simp) htmp]
  -- once the new snapshot is in place, nothing touches it any more
  refine and_iff_left_of_imp fun _ hok => ?_
  refine ((keeps_state_truncateLog (some contents)).survives ?_).mono fun _ => Or.inr
  exact state_of_run_replaceState htmp hok

/-- Every crash leaves the old or the new snapshot, and a log that is not truncated before the new
snapshot is in place, if and only if the old snapshot stays in place until the new one takes its
place. -/
theorem snapshot_kept_iff (serde : Serde) (snapshot : SocialSnapshot)
    (htext : 2 ≤ (asBytes (serde.encodeSnapshot snapshot)).length) (faults : FileOp → Option ℕ)
    (d : Disk) :
    (∀ d', CrashPoint faults (checkpoint (asBytes (serde.encodeSnapshot snapshot))) d d' →
      (d' .state = d .state ∨ d' .state = some (asBytes (serde.encodeSnapshot snapshot))) ∧
      (d' .log = d .log ∨ d' .state = some (asBytes (serde.encodeSnapshot snapshot)))) ↔
    Replaces faults d := by
  refine (survives_and (checkpoint (asBytes (serde.encodeSnapshot snapshot)))).trans ?_
  rw [and_iff_left (log_kept faults _ d)]
  exact stateKept_checkpoint_iff htext

/-- A snapshot of somebody without friends and channels. -/
def emptySnapshot : SocialSnapshot := ⟨"alice", [], []⟩

/-- Its text is known. -/
def emptySerde : Serde := .ofTable [] [(emptySnapshot, "\x7b\"uid\":\"alice\"\x7d")]

/-- The first attempt to rename fails. -/
def renameFails : FileOp → Option ℕ
  | .rename false => some 0
  | _ => none

/-- The first attempt to rename fails, and nothing can be removed. -/
def removeFails : FileOp → Option ℕ
  | .rename false | .removeFile _ => some 0
  | _ => none

/-- The old snapshot stays until the second attempt to rename has put the new one in its place. -/
theorem snapshot_kept_removeFails :
    Replaces removeFails (fun _ => some [1]) ∧
      ∀ d', CrashPoint removeFails
          (checkpoint (asBytes (emptySerde.encodeSnapshot emptySnapshot))) (fun _ => some [1]) d' →
        (d' .state = some [1] ∨
          d' .state = some (asBytes (emptySerde.encodeSnapshot emptySnapshot))) ∧
        (d' .log = some [1] ∨
          d' .state = some (asBytes (emptySerde.encodeSnapshot emptySnapshot))) := by
  have hreplaces : Replaces removeFails fun _ => some [1] :=
    Or.inr (Or.inr ⟨Or.inr (by decide), Or.inl rfl⟩)
  exact ⟨hreplaces, (snapshot_kept_iff emptySerde emptySnapshot (by decide) removeFails
    fun _ => some [1]).mpr hreplaces⟩

/-- The rename fails, the old snapshot is removed, and the power goes out. -/
theorem snapshot_lost :
    ¬ ∀ (serde : Serde) (snapshot : SocialSnapshot) (faults : FileOp → Option ℕ) (d d' : Disk),
      2 ≤ (asBytes (serde.encodeSnapshot snapshot)).length →
      CrashPoint faults (checkpoint (asBytes (serde.encodeSnapshot snapshot))) d d' →
        (d' .state = d .state ∨ d' .state = some (asBytes (serde.encodeSnapshot snapshot))) ∧
        (d' .log = d .log ∨ d' .state = some (asBytes (serde.encodeSnapshot snapshot))) := by
  intro hclaim
  have hlen : 2 ≤ (asBytes (emptySerde.encodeSnapshot emptySnapshot)).length := by decide
  have hkept := (stateKept_checkpoint_iff hlen).mp fun d' hd' =>
    (hclaim emptySerde emptySnapshot renameFails (fun _ => some [1]) d' hlen hd').1
  rcases hkept with hwritten | hrename | ⟨hremoved, -⟩
  · exact hwritten ⟨rfl, rfl, rfl⟩
  · cases hrename
  · rcases hremoved with hnone | hfails
    · cases hnone
    · exact hfails rfl

/-! ## What is read after it -/

/-- Without faults, the files are those of the atomic checkpoint. -/
theorem run_checkpoint (serde : Serde) (w : WalStore) (snapshot : SocialSnapshot) (now : ℕ)
    (d : Disk) :
    let result := (checkpoint (asBytes (serde.encodeSnapshot snapshot))).run (fun _ => none) d
    result.1 = true ∧ toDir result.2 = (w.checkpoint serde snapshot now).dir := by
  intro result
  refine ⟨rfl, ?_⟩
  have hrun : result.2 = Function.update (renamed (Function.update
      (Function.update d .tmp (some [])) .tmp (some (asBytes (serde.encodeSnapshot snapshot)))))
        .log (some []) := rfl
  rw [hrun, WalStore.checkpoint, toDir]
  simp [renamed]

/-- After a crash, a store on the same files loads the snapshot that it would have loaded before, or
the new one. -/
theorem loadState_of_replaces (serde : Serde) (snapshot : SocialSnapshot)
    (htext : 2 ≤ (asBytes (serde.encodeSnapshot snapshot)).length) {faults : FileOp → Option ℕ}
    {d d' : Disk} (hreplaces : Replaces faults d)
    (hcrash : CrashPoint faults (checkpoint (asBytes (serde.encodeSnapshot snapshot))) d d')
    (checkpointOps now : ℕ) :
    (WalStore.openAt (toDir d') checkpointOps now).loadState serde =
        (WalStore.openAt (toDir d) checkpointOps now).loadState serde ∨
      (WalStore.openAt (toDir d') checkpointOps now).loadState serde =
        serde.decodeSnapshot (serde.encodeSnapshot snapshot) := by
  simp only [WalStore.loadState, WalStore.openAt, toDir]
  rcases (stateKept_checkpoint_iff htext).mpr hreplaces d' hcrash with hold | hnew
  · rw [hold]
    exact Or.inl rfl
  · rw [hnew]
    simp

end Checkpoint

end ChronoShift
