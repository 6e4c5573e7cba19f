import Codefest.Lib.Sequence

/-!
# Labelled partial transition systems

A system here is an initial state and a partial, labelled step: the label is
the scheduler's choice, and `none` says that the choice is not available.
Everything a concurrent program may do is then a list of labels, and a
property of every interleaving is a property of every list that runs.

Two things are proved once and used everywhere else. `run_induction` is the
induction on a run, from its start, with the labels taken so far in view.
`Projection` relates a large system to a small one that forgets most of its
state, and carries runs and their properties across.
-/

namespace Transition

variable {σ τ α β : Type*}

/-- A state to start in and, for each state and label, at most one step. -/
structure System (σ α : Type*) where
  init : σ
  step : σ → α → Option σ

namespace System

variable (M : System σ α) (N : System τ β)

def runFrom (M : System σ α) : σ → List α → Option σ
  | s, [] => some s
  | s, a :: as => (M.step s a).bind fun t => M.runFrom t as

def run (as : List α) : Option σ := M.runFrom M.init as

@[simp] theorem runFrom_nil (s : σ) : M.runFrom s [] = some s := rfl

variable {M} in
theorem runFrom_cons {s t : σ} {a : α} (h : M.step s a = some t)
    (as : List α) : M.runFrom s (a :: as) = M.runFrom t as := by
  rw [runFrom, h]
  rfl

theorem runFrom_append (s : σ) (as bs : List α) :
    M.runFrom s (as ++ bs) = (M.runFrom s as).bind fun t => M.runFrom t bs := by
  induction as generalizing s with
  | nil => rfl
  | cons a as ih =>
      simp only [List.cons_append, runFrom]
      cases M.step s a with
      | none => rfl
      | some t => exact ih t

@[simp] theorem run_nil : M.run [] = some M.init := rfl

variable {M N}

theorem run_append {as bs : List α} {s : σ} :
    M.run (as ++ bs) = some s ↔
      ∃ t, M.run as = some t ∧ M.runFrom t bs = some s := by
  rw [run, runFrom_append, Option.bind_eq_some_iff]
  rfl

theorem run_snoc {as : List α} {a : α} {s : σ} :
    M.run (as ++ [a]) = some s ↔
      ∃ t, M.run as = some t ∧ M.step t a = some s := by
  rw [run_append]
  simp [runFrom]

/-- What holds at the start with nothing done, and survives each step that a
run can take, holds after every run. The statement may speak of the labels done
so far. -/
theorem run_induction {R : List α → σ → Prop} (init : R [] M.init)
    (step : ∀ as s a t, M.run as = some s → R as s → M.step s a = some t →
      R (as ++ [a]) t)
    {as : List α} {s : σ} (h : M.run as = some s) : R as s := by
  induction as using List.reverseRecOn generalizing s with
  | nil =>
      obtain rfl : M.init = s := by simpa using h
      exact init
  | append_singleton as a ih =>
      obtain ⟨t, ht, ha⟩ := run_snoc.mp h
      exact step as t a s ht (ih ht) ha

variable (M) in
/-- Every state the run passes through, its last one included, is fine. -/
def Always (P : σ → Prop) (as : List α) : Prop :=
  ∀ before after t, as = before ++ after → M.run before = some t → P t

theorem always_nil {P : σ → Prop} : M.Always P [] ↔ P M.init := by
  refine ⟨fun h => ?_, fun h => ?_⟩
  · exact h [] [] M.init rfl rfl
  · intro before after t heq ht
    obtain ⟨rfl, rfl⟩ := List.append_eq_nil_iff.mp heq.symm
    obtain rfl : M.init = t := by simpa using ht
    exact h

/-- A run grown by one step only owes the state that step led to. -/
theorem always_snoc {P : σ → Prop} {as : List α} {a : α} {s : σ}
    (h : M.run (as ++ [a]) = some s) :
    M.Always P (as ++ [a]) ↔ M.Always P as ∧ P s := by
  refine ⟨fun hall => ?_, fun hall => ?_⟩
  · refine ⟨?_, hall (as ++ [a]) [] s (by simp) h⟩
    intro before after t heq ht
    exact hall before (after ++ [a]) t (by simp [heq]) ht
  · obtain ⟨hall, hs⟩ := hall
    intro before after t heq ht
    rcases List.eq_nil_or_concat after with rfl | ⟨after', b, rfl⟩
    · obtain rfl : as ++ [a] = before := by simpa using heq
      obtain rfl : s = t := Option.some.inj (h.symm.trans ht)
      exact hs
    · have heq' : as ++ [a] = (before ++ after') ++ [b] := by simpa using heq
      obtain ⟨rfl, -⟩ := List.append_inj' heq' rfl
      exact hall before after' t rfl ht

theorem always_and {P Q : σ → Prop} {as : List α} :
    M.Always (fun s => P s ∧ Q s) as ↔ M.Always P as ∧ M.Always Q as := by
  refine ⟨fun h => ?_, fun h => ?_⟩
  · exact ⟨fun before after t heq ht => (h before after t heq ht).1,
      fun before after t heq ht => (h before after t heq ht).2⟩
  · intro before after t heq ht
    exact ⟨h.1 before after t heq ht, h.2 before after t heq ht⟩

/-- Steps that each leave less to do come to an end. -/
theorem runFrom_measure {μ : σ → Nat} {P : α → Prop}
    (hμ : ∀ s a t, P a → M.step s a = some t → μ t < μ s) {as : List α}
    {s t : σ} (has : ∀ a ∈ as, P a) (h : M.runFrom s as = some t) :
    as.length + μ t ≤ μ s := by
  induction as generalizing s with
  | nil =>
      obtain rfl : s = t := Option.some.inj h
      simp
  | cons a as ih =>
      rw [List.forall_mem_cons] at has
      obtain ⟨u, hu, hrest⟩ := Option.bind_eq_some_iff.mp h
      have hstep := hμ s a u has.1 hu
      have htail := ih has.2 hrest
      rw [List.length_cons]
      omega

/-- What every step keeps, a run keeps. -/
theorem runFrom_invariant {I : σ → Prop}
    (hI : ∀ s a t, I s → M.step s a = some t → I t) {as : List α} {s t : σ}
    (hs : I s) (h : M.runFrom s as = some t) : I t := by
  induction as generalizing s with
  | nil =>
      obtain rfl : s = t := Option.some.inj h
      exact hs
  | cons a as ih =>
      obtain ⟨u, hu, hrest⟩ := Option.bind_eq_some_iff.mp h
      exact ih (hI s a u hs hu) hrest

/-- What every step of a kind keeps, a run of such steps keeps. -/
theorem runFrom_keeps {I : σ → Prop} {P : α → Prop}
    (hI : ∀ s a t, I s → P a → M.step s a = some t → I t) {as : List α}
    {s t : σ} (has : ∀ a ∈ as, P a) (hs : I s)
    (h : M.runFrom s as = some t) : I t := by
  induction as generalizing s with
  | nil =>
      obtain rfl : s = t := Option.some.inj h
      exact hs
  | cons a as ih =>
      rw [List.forall_mem_cons] at has
      obtain ⟨u, hu, hrest⟩ := Option.bind_eq_some_iff.mp h
      exact ih has.2 (hI s a u hs has.1 hu) hrest

theorem Always.last {P : σ → Prop} {as : List α} {s : σ}
    (hall : M.Always P as) (h : M.run as = some s) : P s :=
  hall as [] s (by simp) h

/-! ## Forgetting most of a system -/

variable (M N) in
/-- A small system that watches a large one: its state is read off the large
state, and each large step is either one small step or invisible. -/
structure Projection where
  state : σ → τ
  label : α → Option β
  init : state M.init = N.init
  hidden : ∀ {s a t}, M.step s a = some t → label a = none →
    state t = state s
  shown : ∀ {s a t b}, M.step s a = some t → label a = some b →
    N.step (state s) b = some (state t)

namespace Projection

variable (f : Projection M N)

/-- A run of the large system is a run of the small one, at the labels the
small one sees. -/
theorem run {as : List α} {s : σ} (h : M.run as = some s) :
    N.run (as.filterMap f.label) = some (f.state s) := by
  refine run_induction (R := fun as s =>
    N.run (as.filterMap f.label) = some (f.state s)) ?_ ?_ h
  · rw [List.filterMap_nil, run_nil, f.init]
  · intro as s a t _ ih ha
    rw [List.filterMap_append]
    cases hl : f.label a with
    | none =>
        rw [f.hidden ha hl]
        simpa [hl] using ih
    | some b =>
        have hb : [a].filterMap f.label = [b] := by simp [hl]
        rw [hb]
        exact run_snoc.mpr ⟨_, ih, f.shown ha hl⟩

/-- The small states along a large run are the states of the small run. -/
theorem always {P : τ → Prop} {as : List α} {s : σ}
    (h : M.run as = some s) :
    M.Always (fun s => P (f.state s)) as ↔
      N.Always P (as.filterMap f.label) := by
  refine run_induction (R := fun as _ =>
    (M.Always (fun s => P (f.state s)) as ↔
      N.Always P (as.filterMap f.label))) ?_ ?_ h
  · rw [List.filterMap_nil, always_nil, always_nil, f.init]
  · intro as s a t has ih ha
    have hrun := run_snoc.mpr ⟨s, has, ha⟩
    rw [always_snoc hrun, List.filterMap_append]
    cases hl : f.label a with
    | none =>
        have hlast : M.Always (fun s => P (f.state s)) as → P (f.state t) := by
          intro hall
          rw [f.hidden ha hl]
          exact hall.last has
        simp only [List.filterMap_cons, hl, List.filterMap_nil,
          List.append_nil, ← ih]
        exact ⟨fun hall => hall.1, fun hall => ⟨hall, hlast hall⟩⟩
    | some b =>
        have hb : [a].filterMap f.label = [b] := by simp [hl]
        have hsmall := run_snoc.mpr ⟨_, f.run has, f.shown ha hl⟩
        rw [hb, always_snoc hsmall, ih]

end Projection

end System

end Transition
