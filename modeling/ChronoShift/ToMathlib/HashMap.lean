import Mathlib.Data.List.AList

/-!
# Hash tables as association lists

`HashMap α β` is Mathlib's `AList` with a constant family: an association list whose keys are
pairwise distinct. Iteration visits the entries in list order; where a program exposes the
iteration order of a hash table, the model passes the list through an `IterOrder`, an arbitrary
rearrangement.

* `lookup_modify`: the in-place update of one entry;
* `lookup_modify_eq_self_iff`: when such an update changes nothing;
* `mem_pairs_iff`: the visited entries are the entries `lookup` returns;
* `entries_perm_iff`: the lookups determine the entries.
-/

namespace ToMathlib

/-- A hash table from `α` to `β`. -/
abbrev HashMap (α β : Type*) := AList fun _ : α => β

namespace HashMap

variable {α β : Type*}

/-- The entries, in one iteration order. -/
def pairs (m : HashMap α β) : List (α × β) := m.entries.map fun e => (e.1, e.2)

/-- The values, in the order of `pairs`. -/
def values (m : HashMap α β) : List β := m.pairs.map Prod.snd

/-- Update the entry at `a` in place, if there is one. -/
def modify [DecidableEq α] (m : HashMap α β) (a : α) (f : β → β) : HashMap α β :=
  match m.lookup a with
  | some b => m.insert a (f b)
  | none => m

/-- The table holding the pairs of `l`, later pairs replacing earlier ones. -/
def ofPairs [DecidableEq α] (l : List (α × β)) : HashMap α β :=
  l.foldl (fun m p => m.insert p.1 p.2) ∅

/-- The keys of the entries. -/
@[simp]
theorem map_fst_pairs (m : HashMap α β) : m.pairs.map Prod.fst = m.keys := by
  simp only [pairs, List.map_map]
  rfl

/-- Each key has one entry. -/
theorem nodup_keys (m : HashMap α β) : (m.pairs.map Prod.fst).Nodup := by
  rw [map_fst_pairs]
  exact m.keys_nodup

variable [DecidableEq α]

/-- The visited entries are exactly the entries that `lookup` returns. -/
theorem mem_pairs_iff {m : HashMap α β} {a : α} {b : β} :
    (a, b) ∈ m.pairs ↔ m.lookup a = some b := by
  rw [← Option.mem_def, AList.mem_lookup_iff, pairs, List.mem_map]
  constructor
  · rintro ⟨⟨a', b'⟩, he, heq⟩
    cases heq
    exact he
  · intro h
    exact ⟨⟨a, b⟩, h, rfl⟩

/-- A key is there if it has a value. -/
theorem mem_iff_exists_lookup {m : HashMap α β} {a : α} :
    a ∈ m ↔ ∃ b, m.lookup a = some b := by
  rw [← AList.lookup_isSome, Option.isSome_iff_exists]

/-- Two tables have the same entries if and only if they answer every lookup alike. -/
theorem entries_perm_iff {m m' : HashMap α β} :
    m.entries.Perm m'.entries ↔ ∀ a, m.lookup a = m'.lookup a := by
  refine ⟨fun h _ => AList.perm_lookup h, fun h => List.lookup_ext m.nodupKeys m'.nodupKeys ?_⟩
  intro a b
  have hlookup : m.entries.dlookup a = m'.entries.dlookup a := h a
  rw [hlookup]

/-- What is inserted is found, and nothing else has changed. -/
theorem lookup_insert_ite (m : HashMap α β) (a a' : α) (b : β) :
    (m.insert a b).lookup a' = if a' = a then some b else m.lookup a' := by
  by_cases h : a' = a
  · subst h
    rw [if_pos rfl, AList.lookup_insert]
  · rw [if_neg h, AList.lookup_insert_ne h]

/-- What is erased is gone, and nothing else has changed. -/
theorem lookup_erase_ite (m : HashMap α β) (a a' : α) :
    (m.erase a).lookup a' = if a' = a then none else m.lookup a' := by
  by_cases h : a' = a
  · subst h
    rw [if_pos rfl, AList.lookup_erase]
  · rw [if_neg h, AList.lookup_erase_ne h]

/-- An in-place update changes the one entry and leaves the others. -/
theorem lookup_modify (m : HashMap α β) (a a' : α) (f : β → β) :
    (m.modify a f).lookup a' = if a' = a then (m.lookup a').map f else m.lookup a' := by
  unfold modify
  cases h : m.lookup a with
  | some b =>
    rw [lookup_insert_ite]
    by_cases h' : a' = a
    · subst h'
      simp [h]
    · simp [h']
  | none =>
    by_cases h' : a' = a
    · subst h'
      simp [h]
    · simp [h']

/-- An in-place update that keeps a view of the entry keeps it in the whole table. -/
theorem map_lookup_modify {γ : Type*} (m : HashMap α β) (a a' : α) {f : β → β} {view : β → γ}
    (h : ∀ b, view (f b) = view b) :
    ((m.modify a f).lookup a').map view = (m.lookup a').map view := by
  rw [lookup_modify]
  split
  · rw [Option.map_map]
    exact congrArg (Option.map · _) (funext h)
  · rfl

/-- An in-place update changes nothing if and only if the entry is as the update makes it. -/
theorem lookup_modify_eq_self_iff {m : HashMap α β} {a : α} {f : β → β} :
    (∀ a', (m.modify a f).lookup a' = m.lookup a') ↔ ∀ b, m.lookup a = some b → f b = b := by
  constructor
  · intro h b hb
    have hsame := h a
    rw [lookup_modify, if_pos rfl, hb, Option.map_some] at hsame
    exact Option.some.inj hsame
  · intro h a'
    rw [lookup_modify]
    split
    next heq =>
      subst heq
      cases hb : m.lookup a' with
      | none => rfl
      | some b => rw [Option.map_some, h b hb]
    next => rfl

/-- A modification adds and removes no key. -/
theorem mem_modify {m : HashMap α β} {a a' : α} {f : β → β} : a' ∈ m.modify a f ↔ a' ∈ m := by
  rw [← AList.lookup_isSome, ← AList.lookup_isSome, lookup_modify]
  split <;> simp

/-- Building a table from pairs with distinct keys keeps every pair. -/
theorem lookup_foldl_insert (l : List (α × β)) (m : HashMap α β) (hl : (l.map Prod.fst).Nodup)
    (a : α) :
    (l.foldl (fun m p => m.insert p.1 p.2) m).lookup a =
      match l.find? (fun p => p.1 = a) with
      | some p => some p.2
      | none => m.lookup a := by
  induction l generalizing m with
  | nil => rfl
  | cons p l ih =>
    rw [List.map_cons, List.nodup_cons] at hl
    rw [List.foldl_cons, ih _ hl.2, List.find?_cons]
    by_cases hp : p.1 = a
    -- no later pair has the key of `p`, so its value stays
    · have hnone : l.find? (fun q => q.1 = a) = none := by
        rw [List.find?_eq_none]
        intro q hq heq
        have hqa : q.1 = a := by simpa using heq
        exact hl.1 (hp ▸ hqa ▸ List.mem_map_of_mem hq)
      simp [hnone, hp]
    · simp only [hp, decide_false]
      rw [lookup_insert_ite, if_neg (fun h => hp h.symm)]

/-- Entering the entries of one table into another one. -/
theorem lookup_foldl_insert_pairs (m m' : HashMap α β) (a : α) :
    (m'.pairs.foldl (fun m p => m.insert p.1 p.2) m).lookup a =
      (m'.lookup a).or (m.lookup a) := by
  rw [lookup_foldl_insert _ _ (nodup_keys m')]
  split
  next p hp =>
    have hpa : p.1 = a := by simpa using List.find?_some hp
    have hlookup : m'.lookup a = some p.2 :=
      mem_pairs_iff.mp (hpa ▸ List.mem_of_find?_eq_some hp)
    rw [hlookup, Option.some_or]
  next hnone =>
    have hlookup : m'.lookup a = none := by
      rw [List.find?_eq_none] at hnone
      refine Option.eq_none_iff_forall_ne_some.mpr fun b hb => ?_
      exact hnone (a, b) (mem_pairs_iff.mpr hb) (decide_eq_true rfl)
    rw [hlookup, Option.none_or]

/-- A table rebuilt from pairs with distinct keys returns exactly those pairs. -/
theorem lookup_ofPairs {l : List (α × β)} (hl : (l.map Prod.fst).Nodup) {a : α} {b : β} :
    (ofPairs l).lookup a = some b ↔ (a, b) ∈ l := by
  rw [ofPairs, lookup_foldl_insert l ∅ hl]
  constructor
  · intro h
    split at h
    next p hp =>
      have hpa : p.1 = a := by simpa using List.find?_some hp
      have hpb : p.2 = b := by simpa using h
      rw [← hpa, ← hpb]
      exact List.mem_of_find?_eq_some hp
    next => simp at h
  · intro h
    split
    next p hp =>
      -- the pair found has the key of `(a, b)`, and keys are distinct
      have hpa : p.1 = a := by simpa using List.find?_some hp
      have hpair : p = (a, b) :=
        List.inj_on_of_nodup_map hl (List.mem_of_find?_eq_some hp) h hpa
      rw [hpair]
    next hnone =>
      rw [List.find?_eq_none] at hnone
      exact absurd (decide_eq_true rfl) (hnone (a, b) h)

/-- A table rebuilt from the entries of another one, with its values mapped. -/
theorem lookup_ofPairs_pairs {γ : Type*} (m : HashMap α β) (view : α → β → γ) (a : α) :
    (ofPairs (m.pairs.map fun p => (p.1, view p.1 p.2))).lookup a =
      (m.lookup a).map (view a) := by
  refine Option.ext fun c => (lookup_ofPairs ?_).trans ?_
  · simpa [Function.comp_def] using nodup_keys m
  · simp only [List.mem_map, Option.map_eq_some_iff]
    constructor
    · rintro ⟨⟨a', v⟩, hmem, heq⟩
      obtain ⟨rfl, rfl⟩ := Prod.mk.inj heq
      exact ⟨v, mem_pairs_iff.mp hmem, rfl⟩
    · rintro ⟨v, hv, rfl⟩
      exact ⟨(a, v), mem_pairs_iff.mpr hv, rfl⟩

end HashMap

/-- An iteration order of hash containers: a rearrangement of whatever list is visited. -/
structure IterOrder (α : Type*) where
  /-- The visited list, rearranged. -/
  visit : List α → List α
  /-- Nothing is skipped and nothing is visited twice. -/
  perm : ∀ l, (visit l).Perm l

namespace IterOrder

variable {α : Type*}

/-- The order in which the model happens to store the container. -/
def stored : IterOrder α := ⟨id, fun _ => List.Perm.refl _⟩

/-- Every order visits the same items. -/
@[simp]
theorem mem_visit (o : IterOrder α) {l : List α} {a : α} : a ∈ o.visit l ↔ a ∈ l :=
  (o.perm l).mem_iff

end IterOrder

end ToMathlib
