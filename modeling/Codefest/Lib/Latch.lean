import Codefest.Lib.Transition

/-!
# A one-shot latch on a condition variable

One thread waits for a flag and another sets it, under one mutex, with a
condition variable in between. The waiter looks at the flag once: after a
wake-up it goes on without looking again. The setter notifies first and sets
the flag afterwards, still inside the critical section, as often as it is
called; it may also take the mutex for something else.

Notifying before setting is harmless here. The mutex is held from the
notification to the flag, so a waiter that was asleep cannot run in between,
and one that was not cannot fall asleep in between (`never_lost`).

Looking once is not harmless. A condition variable may wake its waiter without
a notification, and such a waiter goes on under a flag that is still down. This
is the only way past a flag that is down (`always_past_iff`).
-/

namespace Latch

open Sequence Transition

inductive Owner
  | waiter | setter
  deriving DecidableEq, Repr

/-- Where the waiter is. Asleep, it has or has not been notified. -/
inductive Waiter
  | lock | test | wait | asleep (notified : Bool) | unlock | past
  deriving DecidableEq, Repr

/-- Where the setter is; `busy` is a critical section of its own. -/
inductive Setter
  | idle | notify | set | unlock | busy
  deriving DecidableEq, Repr

structure State where
  waiter : Waiter := .lock
  setter : Setter := .idle
  owner : Option Owner := none
  flag : Bool := false
  deriving DecidableEq, Repr

inductive Label
  | acquire | test | sleep | wake | spuriousWake | release
  | enter | notify | set | leave | visit | depart
  deriving DecidableEq, Repr

def Waiter.notified : Waiter → Waiter
  | .asleep _ => .asleep true
  | w => w

/-- One atomic step. Falling asleep gives the mutex up and waking up takes it
again. -/
def step (s : State) : Label → Option State
  | .acquire =>
      if s.waiter = .lock ∧ s.owner = none then
        some { s with waiter := .test, owner := some .waiter }
      else none
  | .test =>
      if s.waiter = .test then
        some { s with waiter := if s.flag then .unlock else .wait }
      else none
  | .sleep =>
      if s.waiter = .wait then
        some { s with waiter := .asleep false, owner := none }
      else none
  | .wake =>
      if s.waiter = .asleep true ∧ s.owner = none then
        some { s with waiter := .unlock, owner := some .waiter }
      else none
  | .spuriousWake =>
      if s.waiter = .asleep false ∧ s.owner = none then
        some { s with waiter := .unlock, owner := some .waiter }
      else none
  | .release =>
      if s.waiter = .unlock then
        some { s with waiter := .past, owner := none }
      else none
  | .enter =>
      if s.setter = .idle ∧ s.owner = none then
        some { s with setter := .notify, owner := some .setter }
      else none
  | .notify =>
      if s.setter = .notify then
        some { s with setter := .set, waiter := s.waiter.notified }
      else none
  | .set =>
      if s.setter = .set then
        some { s with setter := .unlock, flag := true }
      else none
  | .leave =>
      if s.setter = .unlock then
        some { s with setter := .idle, owner := none }
      else none
  | .visit =>
      if s.setter = .idle ∧ s.owner = none then
        some { s with setter := .busy, owner := some .setter }
      else none
  | .depart =>
      if s.setter = .busy then
        some { s with setter := .idle, owner := none }
      else none

def latch : System State Label := ⟨{}, step⟩

/-- The waiter is between taking the mutex and giving it up. -/
def Waiter.inside : Waiter → Bool
  | .test | .wait | .unlock => true
  | _ => false

/-- The mutex is held by whoever is inside, and the flag is down while the
waiter is on its way to sleep; once notified it is up, or about to be. -/
structure Inv (s : State) : Prop where
  waiter_inside : s.owner = some .waiter ↔ s.waiter.inside = true
  setter_inside : s.owner = some .setter ↔ s.setter ≠ .idle
  waits : s.waiter = .wait → s.flag = false
  sleeps : s.waiter = .asleep false → s.flag = false ∧ s.setter ≠ .set
  notified : s.waiter = .asleep true → s.flag = true ∨ s.setter = .set

theorem inv_init : Inv latch.init := by
  constructor <;> simp [latch, Waiter.inside]

/-! A notification changes the waiter in its sleep and nowhere else. -/

theorem notified_inside (w : Waiter) : w.notified.inside = w.inside := by
  cases w <;> rfl

theorem notified_eq_wait {w : Waiter} : w.notified = .wait ↔ w = .wait := by
  cases w <;> simp [Waiter.notified]

theorem notified_ne_asleep (w : Waiter) : w.notified ≠ .asleep false := by
  cases w <;> simp [Waiter.notified]

theorem notified_eq_unlock {w : Waiter} :
    w.notified = .unlock ↔ w = .unlock := by
  cases w <;> simp [Waiter.notified]

theorem notified_eq_past {w : Waiter} : w.notified = .past ↔ w = .past := by
  cases w <;> simp [Waiter.notified]

theorem inv_step {s t : State} {a : Label} (hs : Inv s)
    (h : step s a = some t) : Inv t := by
  obtain ⟨hwaiter, hsetter, hwaits, hsleeps, hnotified⟩ := hs
  cases a with
  | notify =>
      simp only [step, Option.ite_none_right_eq_some, Option.some.injEq] at h
      obtain ⟨hat, rfl⟩ := h
      have hown : s.owner = some .setter := hsetter.mpr (by simp [hat])
      refine ⟨?_, ?_, ?_, ?_, fun _ => .inr rfl⟩
      · rw [notified_inside]
        exact hwaiter
      · simp [hown]
      · intro hw
        exact hwaits (notified_eq_wait.mp hw)
      · intro hw
        exact absurd hw (notified_ne_asleep _)
  | acquire | test | sleep | wake | spuriousWake | release =>
      -- The waiter moves: the setter is where it was, outside unless it owns.
      simp only [step, Option.ite_none_right_eq_some, Option.some.injEq] at h
      obtain ⟨hat, rfl⟩ := h
      constructor <;> grind [Waiter.inside]
  | enter | set | leave | visit | depart =>
      -- The setter moves: it owns the mutex, so the waiter is not inside.
      simp only [step, Option.ite_none_right_eq_some, Option.some.injEq] at h
      obtain ⟨hat, rfl⟩ := h
      constructor <;> grind [Waiter.inside]

theorem inv_run {as : List Label} {s : State} (h : latch.run as = some s) :
    Inv s :=
  System.run_induction (R := fun _ s => Inv s) inv_init
    (fun _ _ _ _ _ hs ha => inv_step hs ha) h

/-! ## No wake-up is lost -/

/-- The flag is up and the waiter asleep with no wake-up coming. -/
def Lost (s : State) : Prop := s.flag = true ∧ s.waiter = .asleep false

/-- A waiter asleep under a raised flag has been notified. -/
theorem never_lost {as : List Label} : latch.Always (¬ Lost ·) as := by
  intro before after s _ hs hlost
  have hdown := ((inv_run hs).sleeps hlost.2).1
  rw [hlost.1] at hdown
  cases hdown

def PastUp (s : State) : Prop := s.waiter = .past → s.flag = true

/-- An unprompted wake-up so far, and what the waiter has seen of the flag. -/
structure Woken (as : List Label) (s : State) : Prop where
  before : s.waiter ≠ .unlock → s.waiter ≠ .past → .spuriousWake ∉ as
  unlock : s.waiter = .unlock → (s.flag = true ↔ .spuriousWake ∉ as)

theorem woken_run {as : List Label} {s : State} (h : latch.run as = some s) :
    Woken as s := by
  refine System.run_induction (R := Woken) ?_ ?_ h
  · constructor <;> simp [latch]
  · intro as s a t hs ⟨hbefore, hunlock⟩ h
    obtain ⟨hwaiter, hsetter, -, hsleeps, hnotified⟩ := inv_run hs
    cases a with
    | notify =>
        obtain ⟨-, rfl⟩ := by simpa [latch, step] using h
        have hmem : Label.spuriousWake ∉ as ++ [.notify] ↔
          .spuriousWake ∉ as := by simp
        constructor
        · rw [ne_eq, notified_eq_unlock, ne_eq, notified_eq_past, hmem]
          exact hbefore
        · rw [notified_eq_unlock, hmem]
          exact hunlock
    | acquire | test | sleep | wake | spuriousWake | release =>
        obtain ⟨hat, rfl⟩ := by simpa [latch, step] using h
        constructor <;> grind [Waiter.inside]
    | enter | set | leave | visit | depart =>
        obtain ⟨hat, rfl⟩ := by simpa [latch, step] using h
        constructor <;> grind [Waiter.inside]

theorem release_eq_some {s t : State} (h : step s .release = some t) :
    s.waiter = .unlock ∧ t = { s with waiter := .past, owner := none } := by
  obtain ⟨hat, rfl⟩ := by simpa [step] using h
  exact ⟨hat, rfl⟩

/-- No other step gets past the latch or lowers the flag. -/
theorem pastUp_step {s t : State} {a : Label} (h : step s a = some t)
    (ha : a ≠ .release) (hs : PastUp s) : PastUp t := by
  cases a with
  | release => exact absurd rfl ha
  | notify =>
      obtain ⟨-, rfl⟩ := by simpa [step] using h
      intro hpast
      exact hs (notified_eq_past.mp hpast)
  | acquire | test | sleep | wake | spuriousWake =>
      obtain ⟨hat, rfl⟩ := by simpa [step] using h
      grind [PastUp]
  | enter | set | leave | visit | depart =>
      obtain ⟨hat, rfl⟩ := by simpa [step] using h
      grind [PastUp]

/-- In every run, the waiter is past the latch under a raised flag only, unless
it was woken without a notification before it gave the mutex up. -/
theorem always_past_iff {as : List Label} {s : State}
    (h : latch.run as = some s) : latch.Always PastUp as ↔ Throughout
      (fun before a => a = .release → .spuriousWake ∉ before) as := by
  refine System.run_induction (R := fun as _ => latch.Always PastUp as ↔
    Throughout (fun before a => a = .release → .spuriousWake ∉ before) as)
    ?_ ?_ h
  · rw [System.always_nil]
    exact iff_of_true (fun h => by cases h) (throughout_nil _)
  · intro as s a t hs ih ha
    rw [System.always_snoc (System.run_snoc.mpr ⟨s, hs, ha⟩),
      throughout_snoc, ih]
    refine and_congr_right fun hall => ?_
    by_cases hrel : a = .release
    · subst hrel
      obtain ⟨hat, rfl⟩ := release_eq_some ha
      have hflag := (woken_run hs).unlock hat
      exact ⟨fun hup _ => hflag.mp (hup rfl), fun hno _ => hflag.mpr (hno rfl)⟩
    · have hup : PastUp s := (ih.mpr hall).last hs
      exact iff_of_true (pastUp_step ha hrel hup) fun h => absurd h hrel

end Latch
