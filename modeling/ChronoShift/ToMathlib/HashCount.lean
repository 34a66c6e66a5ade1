import ChronoShift.ToMathlib.HashMap

/-!
# Counting the entries of a hash table

The number of entries whose value satisfies a test, and what an insertion and a removal do to it.

* `lookup_retain`: what is left when entries are removed;
* `countValues_insert_of_some`: an entry that is replaced is no longer counted.
-/

namespace ToMathlib

namespace HashMap

variable {α β : Type*} {m : HashMap α β} {a : α} {b : β}

/-- Remove all entries that do not satisfy `keep`. -/
def retain (m : HashMap α β) (keep : α → β → Bool) : HashMap α β :=
  ⟨m.entries.filter fun e => keep e.1 e.2, m.nodupKeys.sublist List.filter_sublist⟩

/-- The number of entries whose value satisfies `p`. -/
def countValues (m : HashMap α β) (p : β → Bool) : ℕ := m.values.countP p

/-- What is removed is not counted. -/
theorem countValues_retain {p : β → Bool} (keep : β → Bool) :
    (m.retain fun _ => keep).countValues p = m.countValues fun b => p b && keep b := by
  have hvalues : (m.retain fun _ => keep).values = m.values.filter keep := by
    simp only [values, pairs, retain, List.map_map, List.filter_map]
    rfl
  rw [countValues, hvalues, List.countP_filter, countValues]

variable [DecidableEq α]

/-- The entries that are retained. -/
theorem lookup_retain_eq_some {keep : α → β → Bool} :
    (m.retain keep).lookup a = some b ↔ m.lookup a = some b ∧ keep a b = true := by
  rw [← Option.mem_def, AList.mem_lookup_iff, retain, List.mem_filter, ← AList.mem_lookup_iff,
    Option.mem_def]

/-- Removing entries is filtering what the lookups return. -/
theorem lookup_retain (keep : α → β → Bool) :
    (m.retain keep).lookup a = (m.lookup a).filter (keep a) := by
  refine Option.ext fun b => ?_
  rw [lookup_retain_eq_some, Option.filter_eq_some_iff]

/-- A value is stored under some key. -/
theorem mem_values : b ∈ m.values ↔ ∃ a, m.lookup a = some b := by
  rw [values, List.mem_map]
  constructor
  · rintro ⟨⟨a, b⟩, hmem, rfl⟩
    exact ⟨a, mem_pairs_iff.mp hmem⟩
  · rintro ⟨a, hlookup⟩
    exact ⟨(a, b), mem_pairs_iff.mpr hlookup, rfl⟩

/-- Nothing is counted if and only if no entry meets the condition. -/
theorem countValues_eq_zero_iff {p : β → Bool} :
    m.countValues p = 0 ↔ ∀ a b, m.lookup a = some b → p b = false := by
  rw [countValues, List.countP_eq_zero]
  constructor
  · intro h a b hlookup
    exact Bool.eq_false_iff.mpr (h b (mem_values.mpr ⟨a, hlookup⟩))
  · intro h b hb
    obtain ⟨a, hlookup⟩ := mem_values.mp hb
    rw [h a b hlookup]
    exact Bool.false_ne_true

/-- An entry that is inserted comes first. -/
theorem values_insert (m : HashMap α β) (a : α) (b : β) :
    values (m.insert a b) = b :: values (m.erase a) := rfl

/-- A new entry is counted if it meets the condition. -/
theorem countValues_insert_of_none {p : β → Bool} (h : m.lookup a = none) :
    countValues (m.insert a b) p = m.countValues p + (p b).toNat := by
  have herase : m.erase a = m :=
    AList.ext (List.kerase_of_notMem_keys (AList.lookup_eq_none.mp h))
  rw [countValues, values_insert, herase, List.countP_cons, countValues]
  cases p b <;> rfl

/-- An entry that is replaced is no longer counted. -/
theorem countValues_insert_of_some {p : β → Bool} {b' : β} (h : m.lookup a = some b') :
    countValues (m.insert a b) p + (p b').toNat = m.countValues p + (p b).toNat := by
  obtain ⟨b'', l₁, l₂, hl₁, hentries, herase⟩ :=
    List.exists_of_kerase (AList.mem_keys.mp (AList.lookup_isSome.mp (Option.isSome_of_eq_some h)))
  obtain rfl : b'' = b' := by
    have hlookup : b'' ∈ m.lookup a := AList.mem_lookup_iff.mpr (by rw [hentries]; simp)
    rw [h] at hlookup
    exact (Option.some.inj hlookup).symm
  have hvalues (l : List (Sigma fun _ : α => β)) :
      (l.map fun e => (e.1, e.2)).map Prod.snd = l.map Sigma.snd := by
    rw [List.map_map]
    rfl
  have hold : m.values = l₁.map Sigma.snd ++ b'' :: l₂.map Sigma.snd := by
    rw [values, pairs, hvalues, hentries, List.map_append, List.map_cons]
  have hleft : values (m.erase a) = l₁.map Sigma.snd ++ l₂.map Sigma.snd := by
    rw [values, pairs, hvalues, ← List.map_append, ← herase]
    rfl
  rw [countValues, values_insert, hleft, countValues, hold]
  simp only [List.countP_append, List.countP_cons]
  cases p b <;> cases p b'' <;> simp <;> omega

end HashMap

end ToMathlib
