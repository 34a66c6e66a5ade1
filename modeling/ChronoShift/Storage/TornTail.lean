import ChronoShift.Storage.Wal
import Mathlib.Data.List.Infix

/-!
# A torn line at the end of the log

A crash while a line is being written leaves a part of it at the end of the log. The log is then
opened in append mode and nothing repairs it, so the next line is written behind the torn part
and becomes one line with it.

As long as the torn part ends before the brace of its text, replay finds the brace of the next
line and nothing is lost. Otherwise the two texts together do not parse and the next operation
is lost, unless nothing is appended any more (`replay_torn_iff`). A torn part that lacks only its
newline is replayed as if it had been acknowledged.
-/

namespace ChronoShift

open ToMathlib

/-- What is replayed after `before` was appended to an empty log, a crash left `torn` behind, and
`after` was appended to the reopened log. -/
def crashReplay (serde : Serde) (before : List (ℕ × WalOperation)) (torn : Bytes)
    (after : List (ℕ × WalOperation)) : List WalOperation :=
  let store := (WalStore.openAt {} 100 0).appendAll serde before
  -- the process is gone, only the files are left
  let crashed := { store.dir with log := store.dir.log ++ torn }
  ((WalStore.openAt crashed 100 0).appendAll serde after).replay serde

section Torn

variable {serde : Serde} {op : WalOperation} {timestamp : ℕ} {torn : Bytes}
  {before after : List (ℕ × WalOperation)}

theorem crashReplay_eq (hsize : (logOf serde before ++ torn ++ logOf serde after).length ≤
      maxWalBytes) :
    crashReplay serde before torn after =
      replayLines serde (rawLines 10 (logOf serde before ++ (torn ++ logOf serde after))) := by
  rw [crashReplay, WalStore.replay]
  simp only [log_appendAll, WalStore.openAt, List.nil_append]
  rw [replayLog, if_neg (not_lt.mpr hsize), List.append_assoc]

/-- A part of a line is a part of the line without its newline. -/
theorem torn_prefix_entry (hpre : torn <+: walLine serde timestamp op)
    (hne : torn ≠ walLine serde timestamp op) :
    torn <+: asBytes (entryText serde timestamp op) := by
  rw [walLine_eq] at hpre hne
  rcases List.prefix_concat_iff.mp hpre with heq | hpre
  · exact absurd heq hne
  · exact hpre

/-- A part without a brace is a part of the timestamp. -/
theorem torn_prefix_stamp (hw : serde.Writes op)
    (hpre : torn <+: asBytes (entryText serde timestamp op)) (hbrace : 123 ∉ torn) :
    torn <+: stampBytes timestamp := by
  obtain ⟨rest, hrest⟩ := hw.exists_cons
  rw [asBytes_entryText, hrest] at hpre
  -- compare with the part that ends right behind the brace: one of the two is a part of the other
  have hstamp : stampBytes timestamp ++ [123] <+: stampBytes timestamp ++ 123 :: rest :=
    (List.prefix_append_right_inj _).mpr (List.cons_prefix_cons.mpr ⟨rfl, List.nil_prefix⟩)
  rcases List.prefix_or_prefix_of_prefix hpre hstamp with h | h
  · rcases List.prefix_concat_iff.mp h with heq | h
    · exact absurd (heq ▸ List.mem_append_right _ (List.mem_singleton.mpr rfl)) hbrace
    · exact h
  · exact absurd (h.subset (List.mem_append_right _ (List.mem_singleton.mpr rfl))) hbrace

/-- A part with a brace is the timestamp followed by a part of the text. -/
theorem torn_eq_stamp_append (hpre : torn <+: asBytes (entryText serde timestamp op))
    (hbrace : 123 ∈ torn) :
    ∃ text, torn = stampBytes timestamp ++ text ∧ text <+: asBytes (serde.encodeOp op) ∧
      text ≠ [] := by
  rw [asBytes_entryText] at hpre
  have hstamp : 123 ∉ stampBytes timestamp := fun h => (mem_stampBytes h).1 rfl
  rcases List.prefix_or_prefix_of_prefix hpre (List.prefix_append _ _) with h | ⟨text, rfl⟩
  · exact absurd (h.subset hbrace) hstamp
  · refine ⟨text, rfl, (List.prefix_append_right_inj _).mp hpre, ?_⟩
    rintro rfl
    rw [List.append_nil] at hbrace
    exact hstamp hbrace

/-- The line that starts with a part of another one parses from the brace of that part on. -/
theorem lineOp_stamp_append (hw : serde.Writes op) {text : Bytes}
    (htext : text <+: asBytes (serde.encodeOp op)) (hne : text ≠ []) (next : Bytes) :
    lineOp serde (stampBytes timestamp ++ text ++ next) = serde.decodeOp (text ++ next) := by
  obtain ⟨rest, hrest⟩ := hw.exists_cons
  -- a nonempty part of the text starts with its brace
  obtain ⟨tail, rfl⟩ : ∃ tail, text = 123 :: tail := by
    rw [hrest] at htext
    cases text with
    | nil => exact absurd rfl hne
    | cons b tail => exact ⟨tail, by rw [(List.cons_prefix_cons.mp htext).1]⟩
  rw [List.append_assoc, lineOp_append fun h => (mem_stampBytes h).1 rfl, List.cons_append,
    lineOp_cons_brace]

/-- A line that does not parse is skipped, or ends the replay. -/
theorem replayLines_cons_none {line : Bytes × Bool} (h : lineOp serde (lineText line) = none)
    (lines : List (Bytes × Bool)) :
    replayLines serde (line :: lines) = [] ∨
      replayLines serde (line :: lines) = replayLines serde lines := by
  rw [replayLines, h]
  split
  · exact Or.inl rfl
  · exact Or.inr rfl

/-- Nothing is appended after the crash: the torn part is skipped, unless it lacks only its
newline. -/
theorem replayLines_torn (hw : serde.Writes op) (hprefixes : serde.RejectsPrefixes op)
    (hpre : torn <+: asBytes (entryText serde timestamp op)) :
    replayLines serde (rawLines 10 torn) = [] ↔
      torn ≠ asBytes (entryText serde timestamp op) := by
  have hbreak : (10 : UInt8) ∉ torn := fun h => entryText_noBreak hw timestamp (hpre.subset h)
  by_cases hnil : torn = []
  -- a crash before the first byte leaves no line at all
  · rw [hnil]
    refine iff_of_true rfl fun heq => ?_
    obtain ⟨rest, hrest⟩ := hw.exists_cons
    rw [asBytes_entryText, hrest] at heq
    simp at heq
  · rw [rawLines_of_notMem hbreak hnil]
    have hskip : lineOp serde torn = none → replayLines serde [(torn, false)] = [] := by
      intro hop
      rcases @replayLines_cons_none serde (torn, false) hop [] with h | h
      · exact h
      · exact h
    by_cases hbrace : 123 ∈ torn
    · obtain ⟨text, rfl, htext, hne⟩ := torn_eq_stamp_append hpre hbrace
      have hop := @lineOp_stamp_append serde op timestamp hw text htext hne []
      rw [List.append_nil, List.append_nil] at hop
      by_cases hfull : text = asBytes (serde.encodeOp op)
      · -- the whole line but its newline is replayed, though it was never acknowledged
        subst hfull
        rw [← asBytes_entryText] at hop ⊢
        have htext : (fromUtf8 (asBytes (entryText serde timestamp op))).isSome = true := by
          rw [fromUtf8_asBytes]
          rfl
        have hline := @replayLines_cons_some serde op
          (asBytes (entryText serde timestamp op), false) htext (hop.trans hw.decode) []
        refine iff_of_false (fun hall => ?_) (not_not.mpr rfl)
        rw [hline] at hall
        exact List.cons_ne_nil _ _ hall
      · refine iff_of_true (hskip (hop.trans (hprefixes text htext hfull))) ?_
        rw [asBytes_entryText, Ne, List.append_right_inj]
        exact hfull
    -- the crash hit the timestamp
    · refine iff_of_true (hskip (lineOp_eq_none hbrace)) ?_
      rintro rfl
      obtain ⟨rest, hrest⟩ := hw.exists_cons
      exact hbrace (by simp [asBytes_entryText, hrest])

/-- Another operation is appended after the crash: it is replayed only if the torn part has no
brace. -/
theorem replayLines_torn_append (hw : serde.Writes op) {e : ℕ × WalOperation}
    (hafter : ∀ e' ∈ e :: after, serde.Writes e'.2) (hmerged : serde.RejectsMerged op e.1 e.2)
    (hpre : torn <+: asBytes (entryText serde timestamp op)) :
    replayLines serde (rawLines 10 (torn ++ logOf serde (e :: after))) =
      (e :: after).map Prod.snd ↔ 123 ∉ torn := by
  have he := hafter e List.mem_cons_self
  have htail : replayLines serde (rawLines 10 (logOf serde after)) = after.map Prod.snd := by
    have h := replayLines_logOf_append (fun e' he' => hafter e' (List.mem_cons_of_mem _ he')) []
    simpa [rawLines, replayLines] using h
  -- the torn part and the next operation are one line
  have hline : torn ++ logOf serde (e :: after) =
      torn ++ asBytes (entryText serde e.1 e.2) ++ 10 :: logOf serde after := by
    simp [logOf, walLine_eq]
  have hbreak : (10 : UInt8) ∉ torn ++ asBytes (entryText serde e.1 e.2) := by
    rw [List.mem_append, not_or]
    exact ⟨fun h => entryText_noBreak hw timestamp (hpre.subset h), entryText_noBreak he e.1⟩
  rw [hline, rawLines_append_cons hbreak]
  by_cases hbrace : 123 ∈ torn
  · refine iff_of_false (fun hall => ?_) (not_not.mpr hbrace)
    obtain ⟨text, rfl, htext, hne⟩ := torn_eq_stamp_append hpre hbrace
    have hop : lineOp serde (stampBytes timestamp ++ text ++ asBytes (entryText serde e.1 e.2)) =
        none := (lineOp_stamp_append hw htext hne _).trans (hmerged text htext hne)
    rw [← lineText_append_entry he] at hop
    -- at best the operations after the lost one are replayed
    rcases replayLines_cons_none hop (rawLines 10 (logOf serde after)) with hnone | hrest
    · rw [hnone] at hall
      simp at hall
    · rw [hrest, htail] at hall
      have hlen := congrArg List.length hall
      simp at hlen
  -- replay skips the torn timestamp together with that of the next line
  · refine iff_of_true ?_ hbrace
    rw [replayLines_entry he (torn_prefix_stamp hw hpre hbrace), htail]
    rfl

end Torn

/-- When a torn line is harmless. Let `before` be acknowledged, let a crash leave a strict part
`torn` of one more line behind, and let `after` be acknowledged after the log is opened again.
Then exactly `before` and `after` are replayed if and only if the torn part ends before the brace
of its text, or nothing is appended any more and more than the newline is missing. -/
theorem replay_torn_iff (serde : Serde) (before after : List (ℕ × WalOperation)) (timestamp : ℕ)
    (op : WalOperation) (torn : Bytes)
    (hwrites : ∀ e ∈ before ++ (timestamp, op) :: after, serde.Writes e.2)
    (hprefixes : serde.RejectsPrefixes op)
    (hmerged : ∀ e ∈ after, serde.RejectsMerged op e.1 e.2)
    (hpre : torn <+: walLine serde timestamp op) (hstrict : torn ≠ walLine serde timestamp op)
    (hsize : (logOf serde before ++ torn ++ logOf serde after).length ≤ maxWalBytes) :
    crashReplay serde before torn after = (before ++ after).map Prod.snd ↔
      123 ∉ torn ∨ (after = [] ∧ torn ++ [10] ≠ walLine serde timestamp op) := by
  have hentry := torn_prefix_entry hpre hstrict
  have hw : serde.Writes op := hwrites (timestamp, op) (by simp)
  rw [crashReplay_eq hsize, replayLines_logOf_append fun e he => hwrites e (by simp [he]),
    List.map_append, List.append_right_inj]
  cases after with
  | nil =>
    have hfull : torn ++ [10] ≠ walLine serde timestamp op ↔
        torn ≠ asBytes (entryText serde timestamp op) := by
      rw [walLine_eq, Ne, List.append_left_inj]
    rw [hfull]
    simp only [logOf, List.flatMap_nil, List.append_nil, List.map_nil, true_and]
    rw [replayLines_torn hw hprefixes hentry]
    refine ⟨Or.inr, fun h => ?_⟩
    rcases h with hbrace | hne
    -- a whole line has a brace
    · rintro rfl
      obtain ⟨rest, hrest⟩ := hw.exists_cons
      exact hbrace (by simp [asBytes_entryText, hrest])
    · exact hne
  | cons e after =>
    rw [replayLines_torn_append hw (fun e' he' => hwrites e' (by
      rcases List.mem_cons.mp he' with rfl | he'
      · simp
      · simp [he'])) (hmerged e List.mem_cons_self) hentry]
    simp

/-- The texts of the operations `set_uid` with the uids `a` and `b`. -/
def setUidSerde : Serde := .ofTable
  [(.setUid "a", "\x7b\"op\":\"set_uid\",\"uid\":\"a\"\x7d"),
    (.setUid "b", "\x7b\"op\":\"set_uid\",\"uid\":\"b\"\x7d")] []

theorem setUidSerde_writes : setUidSerde.Writes (.setUid "a") ∧ setUidSerde.Writes (.setUid "b") :=
  ⟨⟨by decide, by decide +kernel, by decide +kernel⟩,
    ⟨by decide, by decide +kernel, by decide +kernel⟩⟩

/-- A crash after the first brace: the operation that is acknowledged next is lost. -/
theorem replay_torn_iff_brace :
    (crashReplay setUidSerde [(1, .setUid "a")] (asBytes "[2] \x7b") [(3, .setUid "b")] =
        [.setUid "a", .setUid "b"] ↔
      123 ∉ asBytes "[2] \x7b" ∨ ([(3, WalOperation.setUid "b")] = [] ∧
        asBytes "[2] \x7b" ++ [10] ≠ walLine setUidSerde 2 (.setUid "a"))) := by
  refine replay_torn_iff setUidSerde [(1, .setUid "a")] [(3, .setUid "b")] 2 (.setUid "a")
    (asBytes "[2] \x7b") ?_ ?_ ?_ (by decide) (by decide) (by decide)
  · simp only [List.cons_append, List.nil_append, List.mem_cons, List.not_mem_nil, or_false,
      forall_eq_or_imp, forall_eq]
    exact ⟨setUidSerde_writes.1, setUidSerde_writes.1, setUidSerde_writes.2⟩
  · have h : ∀ text ∈ (asBytes (setUidSerde.encodeOp (.setUid "a"))).inits,
        text ≠ asBytes (setUidSerde.encodeOp (.setUid "a")) → setUidSerde.decodeOp text = none := by
      decide
    exact fun text hpre => h text ((List.mem_inits text _).mpr hpre)
  · have h : ∀ text ∈ (asBytes (setUidSerde.encodeOp (.setUid "a"))).inits, text ≠ [] →
        setUidSerde.decodeOp (text ++ asBytes (entryText setUidSerde 3 (.setUid "b"))) = none := by
      decide
    simp only [List.mem_singleton, forall_eq]
    exact fun text hpre => h text ((List.mem_inits text _).mpr hpre)

/-- Acknowledged operations are lost behind a torn line. -/
theorem replay_torn_loses :
    ¬ ∀ (serde : Serde) (before after : List (ℕ × WalOperation)) (timestamp : ℕ)
      (op : WalOperation) (torn : Bytes),
      (∀ e ∈ before ++ (timestamp, op) :: after, serde.Writes e.2) →
      torn <+: walLine serde timestamp op → torn ≠ walLine serde timestamp op →
      (logOf serde before ++ torn ++ logOf serde after).length ≤ maxWalBytes →
      crashReplay serde before torn after = (before ++ after).map Prod.snd := by
  intro hclaim
  have h := hclaim setUidSerde [] [(3, .setUid "b")] 2 (.setUid "a") (asBytes "[2] \x7b")
    (by
      simp only [List.nil_append, List.mem_cons, List.not_mem_nil, or_false, forall_eq_or_imp,
        forall_eq]
      exact setUidSerde_writes)
    (by decide) (by decide) (by decide)
  exact absurd h (by decide)

end ChronoShift
