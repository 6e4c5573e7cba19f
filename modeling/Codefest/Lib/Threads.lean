import Codefest.Lib.Transition
import Mathlib.Algebra.BigOperators.Group.Finset.Piecewise
import Mathlib.Tactic.Abel

/-!
# Threads over a shared memory

Each thread has a state of its own, and what it does next depends on that and
on the memory. A run is any order of the threads' steps.

There are three ways to reason about such a run from what one thread does. The
rule of balance is for quantities: what every step leaves in balance between
the memory and the thread that took it stays in balance over all of them. The
rule of exclusion is for what needs the others to keep out: it holds as long as
at most one thread at a time is not idle. And a thread that is left alone does
what it does by itself.
-/

namespace Threads

open Transition System

variable {T σ ι α : Type*}

/-- What a thread does, as a partial step on the memory and its own state. -/
abbrev Code (σ ι α : Type*) := σ → ι → α → Option (σ × ι)

structure Machine (T σ ι : Type*) where
  memory : σ
  thread : T → ι

variable [DecidableEq T]

/-- The threads all run the same code, from the same state. -/
def system (T : Type*) [DecidableEq T] (code : Code σ ι α) (memory : σ)
    (start : ι) : System (Machine T σ ι) (T × α) where
  init := ⟨memory, fun _ => start⟩
  step s a := (code s.memory (s.thread a.1) a.2).map fun r =>
    ⟨r.1, Function.update s.thread a.1 r.2⟩

variable {code : Code σ ι α} {memory : σ} {start : ι}

theorem step_eq_some {s s' : Machine T σ ι} {a : T × α} :
    (system T code memory start).step s a = some s' ↔
      ∃ m l, code s.memory (s.thread a.1) a.2 = some (m, l) ∧
        s' = ⟨m, Function.update s.thread a.1 l⟩ := by
  rw [system, Option.map_eq_some_iff]
  refine ⟨fun h => ?_, fun h => ?_⟩
  · obtain ⟨⟨m, l⟩, hcode, rfl⟩ := h
    exact ⟨m, l, hcode, rfl⟩
  · obtain ⟨m, l, hcode, rfl⟩ := h
    exact ⟨(m, l), hcode, rfl⟩

section Balance

variable {M : Type*} [AddCancelCommMonoid M] [Fintype T]

theorem sum_update (g : ι → M) (thread : T → ι) (t : T) (l : ι) :
    g (thread t) + ∑ u, g (Function.update thread t l u) =
      g l + ∑ u, g (thread u) := by
  have hupdate : (fun u => g (Function.update thread t l u)) =
      Function.update (fun u => g (thread u)) t (g l) :=
    Function.comp_update g thread t l
  rw [hupdate, Finset.sum_update_of_mem (Finset.mem_univ t),
    ← Finset.sum_erase_add _ _ (Finset.mem_univ t),
    Finset.sdiff_singleton_eq_erase]
  abel

/-- What the memory and the threads have together is what it should be, when
every step leaves it so. -/
theorem balance {f g : σ → M} (hand : ι → M)
    (hstep : ∀ {m l a m' l'}, code m l a = some (m', l') →
      f m' + hand l' + g m = f m + hand l + g m')
    (hinit : f memory + ∑ _ : T, hand start = g memory)
    {as : List (T × α)} {s : Machine T σ ι}
    (h : (system T code memory start).run as = some s) :
    f s.memory + ∑ t, hand (s.thread t) = g s.memory := by
  refine run_induction (R := fun _ s =>
    f s.memory + ∑ t, hand (s.thread t) = g s.memory) hinit ?_ h
  intro as s a s' _ ih ha
  obtain ⟨m, l, hcode, rfl⟩ := step_eq_some.mp ha
  have hsum := sum_update hand s.thread a.1 l
  have hlocal := hstep hcode
  refine add_left_cancel (a := hand (s.thread a.1) + f s.memory) ?_
  calc hand (s.thread a.1) + f s.memory +
        (f m + ∑ t, hand (Function.update s.thread a.1 l t))
      = f s.memory + f m + (hand (s.thread a.1) +
          ∑ t, hand (Function.update s.thread a.1 l t)) := by abel
    _ = f m + hand l + (f s.memory + ∑ t, hand (s.thread t)) := by
        rw [hsum]
        abel
    _ = hand (s.thread a.1) + f s.memory + g m := by
        rw [ih, hlocal]
        abel

end Balance

section Exclusion

variable {idle : ι → Prop}

/-- At most one thread is not idle. -/
def Exclusive (idle : ι → Prop) (s : Machine T σ ι) : Prop :=
  ∃ t, ∀ u, u ≠ t → idle (s.thread u)

variable (idle) in
/-- As long as at most one thread is not idle, each step finds what the one
before it left. What is left to an idle thread is left to every idle one. -/
theorem exclusive {I : σ → ι → Prop}
    (hstep : ∀ {m l a m' l'}, I m l → code m l a = some (m', l') → I m' l')
    (hidle : ∀ {m l l'}, idle l → idle l' → I m l → I m l')
    (hleave : ∀ {m l a m' l'}, idle l → code m l a = some (m', l') → ¬ idle l')
    (hstart : idle start) (hinit : I memory start) [Nonempty T]
    {as : List (T × α)} {s : Machine T σ ι}
    (h : (system T code memory start).run as = some s)
    (halways : (system T code memory start).Always (Exclusive idle) as) :
    ∃ t, (∀ u, u ≠ t → idle (s.thread u)) ∧ I s.memory (s.thread t) := by
  refine run_induction (R := fun as s =>
    (system T code memory start).Always (Exclusive idle) as →
      ∃ t, (∀ u, u ≠ t → idle (s.thread u)) ∧ I s.memory (s.thread t))
    ?_ ?_ h halways
  · intro _
    exact ⟨Classical.arbitrary T, fun _ _ => hstart, hinit⟩
  · intro as s a s' hrun ih ha hall
    rw [always_snoc (run_snoc.mpr ⟨s, hrun, ha⟩)] at hall
    obtain ⟨t, hothers, hI⟩ := ih hall.1
    obtain ⟨m, l, hcode, rfl⟩ := step_eq_some.mp ha
    have hmine : I s.memory (s.thread a.1) ∧
        ∀ u, u ≠ a.1 → idle (s.thread u) := by
      by_cases hat : a.1 = t
      · rw [hat]
        exact ⟨hI, hothers⟩
      · -- The thread was idle and is not any more, so the other one is.
        have hout := hleave (hothers a.1 hat) hcode
        obtain ⟨only, honly⟩ := hall.2
        have hself : a.1 = only := by
          by_contra hne
          exact hout (by simpa using honly a.1 hne)
        have hrest : ∀ u, u ≠ a.1 → idle (s.thread u) := by
          intro u hu
          have hu' : idle (Function.update s.thread a.1 l u) :=
            honly u (hself ▸ hu)
          rwa [Function.update_of_ne hu] at hu'
        exact ⟨hidle (hrest t (Ne.symm hat)) (hothers a.1 hat) hI, hrest⟩
    refine ⟨a.1, fun u hu => ?_, ?_⟩
    · show idle (Function.update s.thread a.1 l u)
      rw [Function.update_of_ne hu]
      exact hmine.2 u hu
    · show I m (Function.update s.thread a.1 l a.1)
      rw [Function.update_self]
      exact hstep hmine.1 hcode

end Exclusion

/-! ## Alone -/

/-- A thread by itself. -/
def alone (code : Code σ ι α) (memory : σ) (start : ι) :
    System (σ × ι) α where
  init := (memory, start)
  step s a := code s.1 s.2 a

/-- A thread that is left alone does what it does by itself, and the others
stay where they are. -/
theorem runFrom_alone (s : Machine T σ ι) (t : T) {as : List α} {m : σ} {l : ι}
    (h : (alone code memory start).runFrom (s.memory, s.thread t) as =
      some (m, l)) :
    (system T code memory start).runFrom s (as.map (t, ·)) =
      some ⟨m, Function.update s.thread t l⟩ := by
  induction as generalizing s with
  | nil =>
      cases h
      rw [List.map_nil, runFrom_nil, Function.update_eq_self]
  | cons a as ih =>
      obtain ⟨⟨m', l'⟩, ha, hrest⟩ := Option.bind_eq_some_iff.mp h
      have hstep : (system T code memory start).step s (t, a) =
          some ⟨m', Function.update s.thread t l'⟩ :=
        step_eq_some.mpr ⟨m', l', ha, rfl⟩
      have hself : (alone code memory start).runFrom
          (m', Function.update s.thread t l' t) as = some (m, l) := by
        rw [Function.update_self]
        exact hrest
      rw [List.map_cons, runFrom_cons hstep, ih _ hself, Function.update_idem]

end Threads
