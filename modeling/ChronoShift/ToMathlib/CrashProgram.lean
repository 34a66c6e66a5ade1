import Mathlib.Tactic.Common

/-!
# Programs of fallible operations with crash points

A program carries out one operation on a state after the other. An operation may fail, which leaves
the state cut off on the way, and the program goes on with what it is told about it. A crash may
come before, during and after every operation.

`Survives` says that an assertion holds wherever a crash may come. Its rules are equivalences, so
they compute the exact condition under which a program survives.

* `survives_op`: an assertion before, during and after an operation;
* `survives_bind`, `survives_andThen`: programs one after the other;
* `survives_atomic_bind`: an atomic operation and what follows it;
* `survives_and`: assertions are proved one at a time;
* `Keeps.survives`: an invariant of all operations survives.
-/

namespace ToMathlib

/-- An operation on a state: what it does if it succeeds, and what it has done after `k` units. -/
structure CrashOp (σ : Type*) where
  effect : σ → σ
  cut : ℕ → σ → σ

/-- An operation that takes effect as a whole or not at all. -/
def CrashOp.atomic {σ : Type*} (effect : σ → σ) : CrashOp σ := ⟨effect, fun _ s => s⟩

/-- What the operation leaves, if it fails after the given number of units or not at all. -/
def CrashOp.outcome {σ : Type*} (o : CrashOp σ) : Option ℕ → σ → σ
  | none, s => o.effect s
  | some k, s => o.cut k s

/-- A program over the operations that `ι` names. It is told whether an operation has succeeded. -/
inductive CrashProgram (ι σ α : Type*) where
  | done (result : α)
  | op (name : ι) (o : CrashOp σ) (next : Bool → CrashProgram ι σ α)

namespace CrashProgram

variable {ι σ α β : Type*}

/-- A single operation. -/
def perform (name : ι) (o : CrashOp σ) : CrashProgram ι σ Bool := .op name o .done

/-- One program after the other. -/
def bind : CrashProgram ι σ α → (α → CrashProgram ι σ β) → CrashProgram ι σ β
  | .done result, f => f result
  | .op name o next, f => .op name o fun ok => (next ok).bind f

/-- Go on with a second program if the first one succeeds. -/
def andThen (p q : CrashProgram ι σ Bool) : CrashProgram ι σ Bool :=
  p.bind fun ok => if ok then q else .done false

/-- Carry out the program. The operations in `faults` fail, after the units that stand there. -/
def run (faults : ι → Option ℕ) : CrashProgram ι σ α → σ → α × σ
  | .done result, s => (result, s)
  | .op name o next, s => run faults (next (faults name).isNone) (o.outcome (faults name) s)

/-- The states that a crash may leave. -/
inductive CrashPoint (faults : ι → Option ℕ) : CrashProgram ι σ α → σ → σ → Prop
  | before (p : CrashProgram ι σ α) (s : σ) : CrashPoint faults p s s
  | during {name : ι} {o : CrashOp σ} {next : Bool → CrashProgram ι σ α} (s : σ) (k : ℕ) :
      CrashPoint faults (.op name o next) s (o.cut k s)
  | after {name : ι} {o : CrashOp σ} {next : Bool → CrashProgram ι σ α} {s s' : σ} :
      CrashPoint faults (next (faults name).isNone) (o.outcome (faults name) s) s' →
      CrashPoint faults (.op name o next) s s'

/-- The assertion holds wherever a crash may come. -/
def Survives (faults : ι → Option ℕ) (I : σ → Prop) (p : CrashProgram ι σ α) (s : σ) : Prop :=
  ∀ s', CrashPoint faults p s s' → I s'

variable {faults : ι → Option ℕ} {I J : σ → Prop} {s : σ}

/-- A program that is done can only crash where it stands. -/
theorem survives_done (result : α) :
    Survives faults I (.done result : CrashProgram ι σ α) s ↔ I s := by
  constructor
  · exact fun h => h s (.before _ s)
  · intro h s' hs'
    cases hs'
    exact h

/-- An operation may be cut off anywhere, whether it would have succeeded or not. -/
theorem survives_op (name : ι) (o : CrashOp σ) (next : Bool → CrashProgram ι σ α) :
    Survives faults I (.op name o next) s ↔ I s ∧ (∀ k, I (o.cut k s)) ∧
      Survives faults I (next (faults name).isNone) (o.outcome (faults name) s) := by
  constructor
  · exact fun h => ⟨h s (.before _ s), fun k => h _ (.during s k), fun s' hs' => h s' (.after hs')⟩
  · rintro ⟨hbefore, hduring, hafter⟩ s' hs'
    cases hs' with
    | before => exact hbefore
    | during _ k => exact hduring k
    | after hs' => exact hafter s' hs'

/-- The crash points of a single operation. -/
theorem survives_perform (name : ι) (o : CrashOp σ) :
    Survives faults I (perform name o) s ↔
      I s ∧ (∀ k, I (o.cut k s)) ∧ I (o.outcome (faults name) s) := by
  rw [perform, survives_op, survives_done]

/-- Nothing is seen of an atomic operation before it is over. -/
theorem survives_perform_atomic (name : ι) (effect : σ → σ) :
    Survives faults I (perform name (.atomic effect)) s ↔
      I s ∧ I ((CrashOp.atomic effect).outcome (faults name) s) := by
  rw [survives_perform]
  exact ⟨fun h => ⟨h.1, h.2.2⟩, fun h => ⟨h.1, fun _ => h.1, h.2⟩⟩

/-- A weaker assertion holds at the same crash points. -/
theorem Survives.mono {p : CrashProgram ι σ α} (h : Survives faults I p s) (hIJ : ∀ s, I s → J s) :
    Survives faults J p s := fun s' hs' => hIJ s' (h s' hs')

/-- A program that has survived may be stopped after its last operation. -/
theorem Survives.final {p : CrashProgram ι σ α} (h : Survives faults I p s) :
    I (p.run faults s).2 := by
  induction p generalizing s with
  | done result => exact (survives_done result).mp h
  | op name o next ih => exact ih _ ((survives_op name o next).mp h).2.2

/-- An atomic operation that fails has done nothing. -/
theorem run_perform_atomic (name : ι) (effect : σ → σ) (s : σ) :
    (perform name (.atomic effect)).run faults s =
      if faults name = none then (true, effect s) else (false, s) := by
  rw [perform, run, run]
  cases faults name with
  | none => rfl
  | some k => rfl

/-- The second program runs where the first one has ended. -/
theorem run_bind (p : CrashProgram ι σ α) (f : α → CrashProgram ι σ β) (s : σ) :
    (p.bind f).run faults s = (f (p.run faults s).1).run faults (p.run faults s).2 := by
  induction p generalizing s with
  | done result => rfl
  | op name o next ih => exact ih _ _

/-- A sequence crashes in its first program, or in its second one. -/
theorem survives_bind (p : CrashProgram ι σ α) (f : α → CrashProgram ι σ β) :
    Survives faults I (p.bind f) s ↔
      Survives faults I p s ∧ Survives faults I (f (p.run faults s).1) (p.run faults s).2 := by
  induction p generalizing s with
  | done result =>
    rw [survives_done]
    exact ⟨fun h => ⟨h s (.before _ s), h⟩, fun h => h.2⟩
  | op name o next ih =>
    rw [bind, survives_op, survives_op, ih]
    exact ⟨fun h => ⟨⟨h.1, h.2.1, h.2.2.1⟩, h.2.2.2⟩, fun h => ⟨h.1.1, h.1.2.1, h.1.2.2, h.2⟩⟩

/-- After an atomic operation the program goes on from where it was, or from what there is now. -/
theorem survives_atomic_bind (name : ι) (effect : σ → σ) (f : Bool → CrashProgram ι σ α) :
    Survives faults I ((perform name (.atomic effect)).bind f) s ↔
      I s ∧ if faults name = none then Survives faults I (f true) (effect s)
        else Survives faults I (f false) s := by
  rw [survives_bind, survives_perform_atomic, run_perform_atomic]
  cases faults name with
  | none => exact ⟨fun h => ⟨h.1.1, h.2⟩, fun h => ⟨⟨h.1, h.2 _ (.before _ _)⟩, h.2⟩⟩
  | some k => exact ⟨fun h => ⟨h.1.1, h.2⟩, fun h => ⟨⟨h.1, h.1⟩, h.2⟩⟩

/-- The second program is left out if the first one fails. -/
theorem run_andThen (p q : CrashProgram ι σ Bool) (s : σ) :
    (p.andThen q).run faults s =
      if (p.run faults s).1 then q.run faults (p.run faults s).2
      else (false, (p.run faults s).2) := by
  rw [andThen, run_bind]
  split <;> rfl

/-- A program that is left out has no crash points. -/
theorem survives_andThen (p q : CrashProgram ι σ Bool) :
    Survives faults I (p.andThen q) s ↔ Survives faults I p s ∧
      ((p.run faults s).1 = true → Survives faults I q (p.run faults s).2) := by
  rw [andThen, survives_bind]
  refine and_congr_right fun hp => ?_
  split
  next hok => exact ⟨fun h _ => h, fun h => h hok⟩
  next hok =>
    rw [survives_done]
    exact iff_of_true hp.final fun h => absurd h hok

/-- Two assertions may be checked one after the other. -/
theorem survives_and (p : CrashProgram ι σ α) :
    Survives faults (fun s => I s ∧ J s) p s ↔ Survives faults I p s ∧ Survives faults J p s :=
  ⟨fun h => ⟨fun s' hs' => (h s' hs').1, fun s' hs' => (h s' hs').2⟩,
    fun h s' hs' => ⟨h.1 s' hs', h.2 s' hs'⟩⟩

/-! ## Invariants -/

/-- Every operation of the program keeps the assertion, also one that is cut off. -/
def Keeps (I : σ → Prop) : CrashProgram ι σ α → Prop
  | .done _ => True
  | .op _ o next => (∀ s, I s → I (o.effect s) ∧ ∀ k, I (o.cut k s)) ∧ ∀ ok, (next ok).Keeps I

/-- An invariant of the operations holds wherever a crash may come. -/
theorem Keeps.survives {p : CrashProgram ι σ α} (h : p.Keeps I) (hs : I s) :
    Survives faults I p s := by
  induction p generalizing s with
  | done result => exact (survives_done result).mpr hs
  | op name o next ih =>
    obtain ⟨hop, hnext⟩ := h
    refine (survives_op name o next).mpr ⟨hs, (hop s hs).2, ih _ (hnext _) ?_⟩
    cases faults name with
    | none => exact (hop s hs).1
    | some k => exact (hop s hs).2 k

/-- A sequence of programs that keep an assertion. -/
theorem Keeps.bind {p : CrashProgram ι σ α} (h : p.Keeps I) {f : α → CrashProgram ι σ β}
    (hf : ∀ result, (f result).Keeps I) : (p.bind f).Keeps I := by
  induction p with
  | done result => exact hf result
  | op name o next ih => exact ⟨h.1, fun ok => ih ok (h.2 ok)⟩

/-- Both programs keep the assertion, whether the second one runs or not. -/
theorem Keeps.andThen {p q : CrashProgram ι σ Bool} (hp : p.Keeps I) (hq : q.Keeps I) :
    (p.andThen q).Keeps I := by
  refine hp.bind fun ok => ?_
  split
  · exact hq
  · trivial

/-- An atomic operation has no states in between. -/
theorem keeps_perform_atomic (name : ι) {effect : σ → σ} (h : ∀ s, I s → I (effect s)) :
    (perform name (.atomic effect)).Keeps I :=
  ⟨fun s hs => ⟨h s hs, fun _ => hs⟩, fun _ => trivial⟩

end CrashProgram

end ToMathlib
