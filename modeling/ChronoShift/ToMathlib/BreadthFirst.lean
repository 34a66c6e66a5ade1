import Mathlib.Data.List.Basic
import Mathlib.Order.Nat

/-!
# Breadth-first search

A search from several sources at once, with a queue that holds every vertex together with a path to
it. A vertex is marked when it is put on the queue, so it is put there once.

The argument keeps the entries that were taken off the queue. The queue is ordered by the length of
the paths, and what is adjacent to an entry that was taken off has an entry whose path is longer by
at most one. So every path to a vertex is at least as long as the entry of the vertex, or longer
than some entry that is still on the queue.

* `SearchInv.expand`: taking one vertex off the queue keeps the invariant;
* `search_spec`: the search ends, with a shortest path to the goal if there is a path at all.
-/

namespace ToMathlib

variable {α : Type*}

/-! ## Paths -/

/-- A path from one of the sources to a vertex, listed with both ends. -/
inductive PathFrom (adj : α → α → Prop) (sources : List α) : List α → α → Prop
  | source {a : α} (h : a ∈ sources) : PathFrom adj sources [a] a
  | step {path : List α} {a b : α} (h : PathFrom adj sources path a) (hab : adj a b) :
      PathFrom adj sources (path ++ [b]) b

namespace PathFrom

variable {adj : α → α → Prop} {sources sources' : List α} {path : List α} {a : α}

/-- Only which vertices are sources matters. -/
theorem mono (h : PathFrom adj sources path a) (hsub : sources ⊆ sources') :
    PathFrom adj sources' path a := by
  induction h with
  | source ha => exact .source (hsub ha)
  | step _ hab ih => exact .step ih hab

/-- A property of all sources that holds of all neighbours holds along the path. -/
theorem forall_mem {P : α → Prop} (h : PathFrom adj sources path a) (hsource : ∀ a ∈ sources, P a)
    (hadj : ∀ a b, adj a b → P b) : ∀ b ∈ path, P b := by
  induction h with
  | source ha => exact fun b hb => List.mem_singleton.mp hb ▸ hsource _ ha
  | step _ hab ih =>
    intro b hb
    rcases List.mem_append.mp hb with hb | hb
    · exact ih b hb
    · exact List.mem_singleton.mp hb ▸ hadj _ _ hab

theorem end_mem (h : PathFrom adj sources path a) : a ∈ path := by
  cases h with
  | source _ => exact List.mem_singleton_self a
  | step _ _ => exact List.mem_concat_self

/-- Every vertex on a path is the end of a path. -/
theorem exists_of_mem (h : PathFrom adj sources path a) {b : α} (hb : b ∈ path) :
    ∃ path', PathFrom adj sources path' b := by
  induction h with
  | source ha =>
    obtain rfl := List.mem_singleton.mp hb
    exact ⟨_, .source ha⟩
  | step h hab ih =>
    rcases List.mem_append.mp hb with hb | hb
    · exact ih hb
    · obtain rfl := List.mem_singleton.mp hb
      exact ⟨_, .step h hab⟩

end PathFrom

/-- A shortest path from one of the sources to a vertex. -/
structure ShortestPath (adj : α → α → Prop) (sources : List α) (path : List α) (goal : α) :
    Prop where
  isPath : PathFrom adj sources path goal
  le_length : ∀ path', PathFrom adj sources path' goal → path.length ≤ path'.length

/-! ## The invariant -/

variable {next : α → List α} {sources : List α} {goal : α}

/-- The invariant: `done` are the entries that were taken off the queue. -/
structure SearchInv (next : α → List α) (sources : List α) (goal : α)
    (done queue : List (α × List α)) (visited : List α) : Prop where
  isPath : ∀ e ∈ queue, PathFrom (fun a b => b ∈ next a) sources e.2 e.1
  source : ∀ a ∈ sources, (a, [a]) ∈ done ++ queue
  visited : ∀ b ∈ visited, ∃ e ∈ done ++ queue, e.1 = b
  /-- The neighbours of what was taken off have entries, longer by at most one. -/
  closed : ∀ e ∈ done, ∀ b ∈ next e.1, ∃ f ∈ done ++ queue, f.1 = b ∧ f.2.length ≤ e.2.length + 1
  sorted : queue.Pairwise fun e f => e.2.length ≤ f.2.length
  /-- No entry is longer than one on the queue by more than one. -/
  length_le : ∀ e ∈ done ++ queue, ∀ f ∈ queue, e.2.length ≤ f.2.length + 1
  ne_goal : ∀ e ∈ done, e.1 ≠ goal

theorem searchInv_sources (next : α → List α) (sources : List α) (goal : α) :
    SearchInv next sources goal [] (sources.map fun a => (a, [a])) sources where
  isPath e he := by
    obtain ⟨a, ha, rfl⟩ := List.mem_map.mp he
    exact .source ha
  source a ha := List.mem_map.mpr ⟨a, ha, rfl⟩
  visited b hb := ⟨(b, [b]), List.mem_map.mpr ⟨b, hb, rfl⟩, rfl⟩
  closed e he := absurd he List.not_mem_nil
  sorted := by
    rw [List.pairwise_map]
    exact List.pairwise_of_forall fun _ _ => le_rfl
  length_le e he f hf := by
    obtain ⟨a, -, rfl⟩ := List.mem_map.mp he
    exact Nat.le_add_left _ _
  ne_goal e he := absurd he List.not_mem_nil

namespace SearchInv

variable {done queue : List (α × List α)} {visited : List α}

/-- Every path to a vertex is at least as long as the entry of the vertex, or longer than an entry
that is still on the queue. -/
theorem exists_le_length (h : SearchInv next sources goal done queue visited) {path : List α}
    {a : α} (hpath : PathFrom (fun a b => b ∈ next a) sources path a) :
    (∃ e ∈ done ++ queue, e.1 = a ∧ e.2.length ≤ path.length) ∨
      ∃ e ∈ queue, e.2.length < path.length := by
  induction hpath with
  | source ha => exact Or.inl ⟨_, h.source _ ha, rfl, le_rfl⟩
  | @step path a b _ hab ih =>
    rw [List.length_append, List.length_singleton]
    rcases ih with ⟨e, he, rfl, hle⟩ | ⟨e, he, hlt⟩
    · rcases List.mem_append.mp he with hdone | hqueue
      · obtain ⟨f, hf, hb, hfle⟩ := h.closed e hdone b hab
        exact Or.inl ⟨f, hf, hb, hfle.trans (Nat.add_le_add_right hle 1)⟩
      · exact Or.inr ⟨e, hqueue, Nat.lt_succ_of_le hle⟩
    · exact Or.inr ⟨e, he, Nat.lt_succ_of_lt hlt⟩

/-- The first entry of the queue is not longer than the others. -/
theorem length_head_le {a : α} {path : List α}
    (h : SearchInv next sources goal done ((a, path) :: queue) visited) {e : α × List α}
    (he : e ∈ (a, path) :: queue) : path.length ≤ e.2.length := by
  rcases List.mem_cons.mp he with rfl | he
  · exact le_rfl
  · exact List.rel_of_pairwise_cons h.sorted he

/-- The first entry of the queue is a shortest path if it leads to the goal. -/
theorem shortestPath {path : List α}
    (h : SearchInv next sources goal done ((goal, path) :: queue) visited) :
    ShortestPath (fun a b => b ∈ next a) sources path goal where
  isPath := h.isPath _ List.mem_cons_self
  le_length path' hpath' := by
    rcases h.exists_le_length hpath' with ⟨e, he, hgoal, hle⟩ | ⟨e, he, hlt⟩
    · rcases List.mem_append.mp he with hdone | hqueue
      · exact absurd hgoal (h.ne_goal e hdone)
      · exact (h.length_head_le hqueue).trans hle
    · exact (h.length_head_le he).trans hlt.le

/-- With an empty queue, there is no path to the goal. -/
theorem not_pathFrom (h : SearchInv next sources goal done [] visited) (path : List α) :
    ¬ PathFrom (fun a b => b ∈ next a) sources path goal := by
  intro hpath
  rcases h.exists_le_length hpath with ⟨e, he, hgoal, -⟩ | ⟨e, he, -⟩
  · rw [List.append_nil] at he
    exact h.ne_goal e he hgoal
  · exact absurd he List.not_mem_nil

end SearchInv

/-! ## The search -/

/-- If a test is stricter than another one, and strictly so at some element, it counts less. -/
theorem countP_lt_countP {l : List α} {p q : α → Bool} (himp : ∀ a ∈ l, p a = true → q a = true)
    (hex : ∃ a ∈ l, q a = true ∧ ¬ p a = true) : l.countP p < l.countP q := by
  obtain ⟨a, ha, hq, hp⟩ := hex
  obtain ⟨front, back, rfl⟩ := List.append_of_mem ha
  have hfront : front.countP p ≤ front.countP q :=
    List.countP_mono_left fun c hc => himp c (by simp [hc])
  have hback : back.countP p ≤ back.countP q :=
    List.countP_mono_left fun c hc => himp c (by simp [hc])
  rw [List.countP_append, List.countP_append, List.countP_cons_of_neg hp,
    List.countP_cons_of_pos hq]
  omega

variable [DecidableEq α]

/-- Put a vertex on the queue, with the path to it, unless it is marked; and mark it. -/
def enqueue (path : List α) : List (α × List α) × List α → α → List (α × List α) × List α
  | (queue, visited), b =>
    if b ∈ visited then (queue, visited) else (queue ++ [(b, path ++ [b])], visited.insert b)

/-- Take vertices off the queue until the goal comes up, and put the neighbours of the others on
it. `fuel` bounds the number of vertices that are taken off. -/
def search (next : α → List α) (goal : α) :
    ℕ → List (α × List α) → List α → Option (Option (List α))
  | 0, _, _ => none
  | _ + 1, [], _ => some none
  | fuel + 1, (a, path) :: queue, visited =>
    if a = goal then some (some path)
    else
      let (queue, visited) := (next a).foldl (enqueue path) (queue, visited)
      search next goal fuel queue visited

/-- What putting a list of vertices on the queue does: the new ones come last, each with the path
extended by it, and all are marked. -/
theorem foldl_enqueue (path : List α) (bs : List α) (queue : List (α × List α))
    (visited : List α) : ∃ new : List α, (∀ b ∈ new, b ∈ bs) ∧ (∀ b ∈ bs, b ∈ visited ∨ b ∈ new) ∧
      (bs.foldl (enqueue path) (queue, visited)).1 =
        queue ++ new.map (fun b => (b, path ++ [b])) ∧
      ∀ b, b ∈ (bs.foldl (enqueue path) (queue, visited)).2 ↔ b ∈ visited ∨ b ∈ new := by
  induction bs generalizing queue visited with
  | nil => exact ⟨[], by simp, by simp, by simp, by simp⟩
  | cons b bs ih =>
    rw [List.foldl_cons, enqueue]
    split_ifs with hb
    -- the item has been visited
    · obtain ⟨new, hnew, hall, hqueue, hvisited⟩ := ih queue visited
      refine ⟨new, fun c hc => List.mem_cons_of_mem _ (hnew c hc), fun c hc => ?_, hqueue,
        hvisited⟩
      rcases List.mem_cons.mp hc with rfl | hc
      · exact Or.inl hb
      · exact hall c hc
    · obtain ⟨new, hnew, hall, hqueue, hvisited⟩ :=
        ih (queue ++ [(b, path ++ [b])]) (visited.insert b)
      -- the item is new, and those after it are told apart from it as well
      simp only [List.mem_insert_iff] at hall hvisited
      refine ⟨b :: new, fun c hc => ?_, fun c hc => ?_, ?_, fun c => ?_⟩
      · rcases List.mem_cons.mp hc with rfl | hc
        · exact List.mem_cons_self
        · exact List.mem_cons_of_mem _ (hnew c hc)
      · rcases List.mem_cons.mp hc with rfl | hc
        · exact Or.inr List.mem_cons_self
        · rw [List.mem_cons, ← or_assoc, or_comm (b := c = b)]
          exact hall c hc
      · rw [hqueue, List.map_cons, List.append_assoc]
        rfl
      · rw [hvisited, List.mem_cons, ← or_assoc, or_comm (b := c = b)]

/-- Every vertex that is put on the queue is marked for the first time. -/
theorem length_foldl_enqueue_add_countP_le (path : List α) {bs targets : List α}
    (hbs : ∀ b ∈ bs, b ∈ targets) (queue : List (α × List α)) (visited : List α) :
    (bs.foldl (enqueue path) (queue, visited)).1.length +
        targets.countP (· ∉ (bs.foldl (enqueue path) (queue, visited)).2) ≤
      queue.length + targets.countP (· ∉ visited) := by
  induction bs generalizing queue visited with
  | nil => exact le_rfl
  | cons b bs ih =>
    rw [List.foldl_cons, enqueue]
    have hbs' : ∀ c ∈ bs, c ∈ targets := fun c hc => hbs c (List.mem_cons_of_mem _ hc)
    split_ifs with hb
    · exact ih hbs' queue visited
    · refine (ih hbs' _ _).trans ?_
      have hlt : targets.countP (· ∉ visited.insert b) < targets.countP (· ∉ visited) :=
        countP_lt_countP (fun c _ hc => by simp_all) ⟨b, hbs b List.mem_cons_self, by simp [hb]⟩
      rw [List.length_append, List.length_singleton]
      omega

/-- Taking a vertex other than the goal off the queue, and putting its neighbours on it, keeps the
invariant. -/
theorem SearchInv.expand {done queue : List (α × List α)} {visited : List α} {a : α}
    {path : List α}
    (h : SearchInv next sources goal done ((a, path) :: queue) visited) (ha : a ≠ goal) :
    SearchInv next sources goal (done ++ [(a, path)])
      ((next a).foldl (enqueue path) (queue, visited)).1
      ((next a).foldl (enqueue path) (queue, visited)).2 := by
  obtain ⟨new, hnew, hall, hqueue, hvisited⟩ := foldl_enqueue path (next a) queue visited
  rw [hqueue]
  -- the entries stay, and the new ones come last
  have hentries : done ++ [(a, path)] ++ (queue ++ new.map fun b => (b, path ++ [b])) =
      done ++ (a, path) :: queue ++ new.map fun b => (b, path ++ [b]) := by simp
  have hmem {e : α × List α} (he : e ∈ done ++ (a, path) :: queue) :
      e ∈ done ++ [(a, path)] ++ (queue ++ new.map fun b => (b, path ++ [b])) := by
    rw [hentries]
    exact List.mem_append_left _ he
  have hmemNew {b : α} (hb : b ∈ new) :
      (b, path ++ [b]) ∈ done ++ [(a, path)] ++ (queue ++ new.map fun b => (b, path ++ [b])) := by
    rw [hentries]
    exact List.mem_append_right _ (List.mem_map.mpr ⟨b, hb, rfl⟩)
  have hle : ∀ e ∈ done ++ (a, path) :: queue, e.2.length ≤ path.length + 1 :=
    fun e he => h.length_le e he _ List.mem_cons_self
  constructor
  case isPath =>
    intro e he
    rcases List.mem_append.mp he with he | he
    · exact h.isPath e (List.mem_cons_of_mem _ he)
    · obtain ⟨b, hb, rfl⟩ := List.mem_map.mp he
      exact .step (h.isPath _ List.mem_cons_self) (hnew b hb)
  case source => exact fun b hb => hmem (h.source b hb)
  case visited =>
    intro b hb
    rcases (hvisited b).mp hb with hb | hb
    · obtain ⟨e, he, heq⟩ := h.visited b hb
      exact ⟨e, hmem he, heq⟩
    · exact ⟨_, hmemNew hb, rfl⟩
  case closed =>
    intro e he b hb
    rcases List.mem_append.mp he with he | he
    · obtain ⟨f, hf, hfb⟩ := h.closed e he b hb
      exact ⟨f, hmem hf, hfb⟩
    · obtain rfl := List.mem_singleton.mp he
      rcases hall b hb with hb | hb
      · obtain ⟨f, hf, hfb⟩ := h.visited b hb
        exact ⟨f, hmem hf, hfb, hle f hf⟩
      · exact ⟨_, hmemNew hb, rfl, by simp⟩
  case sorted =>
    rw [List.pairwise_append, List.pairwise_map]
    refine ⟨(List.pairwise_cons.mp h.sorted).2, List.pairwise_of_forall fun _ _ => by simp,
      fun e he f hf => ?_⟩
    obtain ⟨b, -, rfl⟩ := List.mem_map.mp hf
    rw [List.length_append, List.length_singleton]
    exact hle e (by simp [he])
  case length_le =>
    intro e he f hf
    have hef : e.2.length ≤ path.length + 1 := by
      rw [hentries] at he
      rcases List.mem_append.mp he with he | he
      · exact hle e he
      · obtain ⟨b, -, rfl⟩ := List.mem_map.mp he
        simp
    have hpath : path.length ≤ f.2.length := by
      rcases List.mem_append.mp hf with hf | hf
      · exact h.length_head_le (List.mem_cons_of_mem _ hf)
      · obtain ⟨b, -, rfl⟩ := List.mem_map.mp hf
        simp
    exact hef.trans (Nat.add_le_add_right hpath 1)
  case ne_goal =>
    intro e he
    rcases List.mem_append.mp he with he | he
    · exact h.ne_goal e he
    · obtain rfl := List.mem_singleton.mp he
      exact ha

/-- From the invariant, the search ends, in a shortest path or without any. -/
theorem search_eq_some {targets : List α} (hnext : ∀ a, ∀ b ∈ next a, b ∈ targets)
    {done queue : List (α × List α)} {visited : List α}
    (h : SearchInv next sources goal done queue visited) {fuel : ℕ}
    (hfuel : queue.length + targets.countP (· ∉ visited) < fuel) :
    (∃ path, search next goal fuel queue visited = some (some path) ∧
        ShortestPath (fun a b => b ∈ next a) sources path goal) ∨
      search next goal fuel queue visited = some none ∧
        ∀ path, ¬ PathFrom (fun a b => b ∈ next a) sources path goal := by
  induction fuel generalizing done queue visited with
  | zero => exact absurd hfuel (Nat.not_lt_zero _)
  | succ fuel ih =>
    cases queue with
    | nil => exact Or.inr ⟨rfl, h.not_pathFrom⟩
    | cons e queue =>
      obtain ⟨a, path⟩ := e
      rw [search]
      split_ifs with hgoal
      · obtain rfl := hgoal
        exact Or.inl ⟨path, rfl, h.shortestPath⟩
      · refine ih (h.expand hgoal) ?_
        have hle := length_foldl_enqueue_add_countP_le path (hnext a) queue visited
        rw [List.length_cons] at hfuel
        omega

/-- Once the search has ended, more fuel makes no difference. -/
theorem search_mono {queue : List (α × List α)} {visited : List α} {fuel fuel' : ℕ}
    {result : Option (List α)} (h : search next goal fuel queue visited = some result)
    (hle : fuel ≤ fuel') : search next goal fuel' queue visited = some result := by
  induction fuel generalizing fuel' queue visited with
  | zero => simp [search] at h
  | succ fuel ih =>
    obtain ⟨fuel', rfl⟩ :=
      Nat.exists_eq_add_of_le' (Nat.le_trans (Nat.succ_le_succ fuel.zero_le) hle)
    cases queue with
    | nil => exact h
    | cons e queue =>
      rw [search] at h ⊢
      split_ifs at h ⊢ with hgoal
      · exact h
      · exact ih h (by omega)

/-- The search from the sources returns a shortest path to the goal, or `none` if there is no path.
Any fuel will do from the number of sources and possible neighbours on. -/
theorem search_spec (sources : List α) (goal : α) {targets : List α}
    (hnext : ∀ a, ∀ b ∈ next a, b ∈ targets) {fuel : ℕ}
    (hfuel : sources.length + targets.length < fuel) :
    (∃ path, search next goal fuel (sources.map fun a => (a, [a])) sources = some (some path) ∧
        ShortestPath (fun a b => b ∈ next a) sources path goal) ∨
      search next goal fuel (sources.map fun a => (a, [a])) sources = some none ∧
        ∀ path, ¬ PathFrom (fun a b => b ∈ next a) sources path goal := by
  refine search_eq_some hnext (searchInv_sources next sources goal) ?_
  have hcount : targets.countP (· ∉ sources) ≤ targets.length := List.countP_le_length
  rw [List.length_map]
  omega

end ToMathlib
