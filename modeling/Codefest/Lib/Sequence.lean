import Mathlib.Data.List.Forall2
import Mathlib.Data.List.Induction
import Mathlib.Data.List.TakeWhile

/-!
# Sequences that grow at the end

Notions about finite sequences, each with the rule for more at the end, which
is the only rule a proof along a run asks for. `Throughout` is the shape of a
property that judges every element by what came before it. `since` is the
stretch that the last opening began, as long as nothing has ended it. `onward`
and `upTo` cut a sequence at the first element of a kind. `Stands` says that a
value was written down and not struck out, and `Shuffle` that a sequence is two
others interleaved, each in its own order.

At the end are the rules for a sequence filled by a computation that may fail
at any element.
-/

namespace Sequence

variable {α β : Type*}

/-- Each element of the sequence is fine after the elements before it. -/
def Throughout (P : List α → α → Prop) (l : List α) : Prop :=
  ∀ before x after, l = before ++ x :: after → P before x

theorem throughout_nil (P : List α → α → Prop) : Throughout P [] := by
  intro before x after h
  simp at h

/-- A sequence grown by one element only owes the judgment on that element. -/
theorem throughout_snoc {P : List α → α → Prop} {l : List α} {x : α} :
    Throughout P (l ++ [x]) ↔ Throughout P l ∧ P l x := by
  refine ⟨fun h => ?_, fun h => ?_⟩
  · refine ⟨?_, h l x [] rfl⟩
    intro before y after heq
    exact h before y (after ++ [x]) (by simp [heq])
  · obtain ⟨hl, hx⟩ := h
    intro before y after h
    rcases List.eq_nil_or_concat after with rfl | ⟨after', z, rfl⟩
    · obtain ⟨rfl, hxy⟩ := List.append_inj' h rfl
      obtain rfl : x = y := by simpa using hxy
      exact hx
    · have h' : l ++ [x] = (before ++ y :: after') ++ [z] := by
        simpa using h
      obtain ⟨rfl, -⟩ := List.append_inj' h' rfl
      exact hl before y after' rfl

theorem throughout_congr {P Q : List α → α → Prop}
    (h : ∀ before x, P before x ↔ Q before x) (l : List α) :
    Throughout P l ↔ Throughout Q l := by
  simp only [Throughout, h]

/-- A judgment on the selected part of a sequence is a judgment on the whole,
made where something is selected. -/
theorem throughout_filterMap {P : List β → β → Prop} (f : α → Option β)
    (l : List α) : Throughout P (l.filterMap f) ↔
      Throughout (fun before x => ∀ y, f x = some y →
        P (before.filterMap f) y) l := by
  induction l using List.reverseRecOn with
  | nil => simp [throughout_nil]
  | append_singleton l x ih =>
      rw [throughout_snoc, ← ih, List.filterMap_append]
      cases hx : f x with
      | none => simp [hx]
      | some y => simp [hx, throughout_snoc]

/-! ## Since the last opening

Some elements open a stretch and some end one. What counts is the stretch that
is still open at the end of the sequence, if there is one. -/

section Since

variable (mark : α → Option Bool)

def extend (stretch : Option (List α)) (x : α) : Option (List α) :=
  match mark x with
  | some true => some []
  | some false => none
  | none => stretch.map (· ++ [x])

/-- The elements since the last opening, when nothing ended it since. -/
def since (l : List α) : Option (List α) := l.foldl (extend mark) none

theorem since_snoc (l : List α) (x : α) :
    since mark (l ++ [x]) = extend mark (since mark l) x := by
  rw [since, List.foldl_append]
  rfl

theorem since_append {l' : List α} (h : ∀ x ∈ l', mark x = none)
    (l : List α) : since mark (l ++ l') = (since mark l).map (· ++ l') := by
  induction l' generalizing l with
  | nil => simp
  | cons x l' ih =>
      rw [List.forall_mem_cons] at h
      rw [List.append_cons, ih h.2, since_snoc, extend, h.1, Option.map_map]
      congr 1
      funext stretch
      exact (List.append_cons stretch x l').symm

/-- The open stretch is what follows the opening, with nothing marked in it. -/
theorem since_eq_some {l stretch : List α} : since mark l = some stretch ↔
    ∃ before o, l = before ++ o :: stretch ∧ mark o = some true ∧
      ∀ x ∈ stretch, mark x = none := by
  refine ⟨fun h => ?_, fun h => ?_⟩
  · induction l using List.reverseRecOn generalizing stretch with
    | nil => cases h
    | append_singleton l y ih =>
        rw [since_snoc, extend] at h
        cases hy : mark y with
        | none =>
            rw [hy] at h
            obtain ⟨stretch', hs, rfl⟩ := Option.map_eq_some_iff.mp h
            obtain ⟨before, o, rfl, ho, hall⟩ := ih hs
            refine ⟨before, o, by simp, ho, ?_⟩
            intro x hx
            rcases List.mem_append.mp hx with hmem | hmem
            · exact hall x hmem
            · obtain rfl := List.mem_singleton.mp hmem
              exact hy
        | some opens =>
            rw [hy] at h
            cases opens with
            | true =>
                obtain rfl := Option.some.inj h
                exact ⟨l, y, rfl, hy, fun x hx => by cases hx⟩
            | false => cases h
  · obtain ⟨before, o, rfl, ho, hall⟩ := h
    rw [List.append_cons, since_append mark hall, since_snoc, extend, ho]
    rfl

/-- The open stretch has an element of this kind. -/
def HasSince (Q : α → Prop) (l : List α) : Prop :=
  ∃ stretch, since mark l = some stretch ∧ ∃ x ∈ stretch, Q x

theorem hasSince_append {Q : α → Prop} {l' : List α}
    (h : ∀ x ∈ l', mark x = none) (l : List α) :
    HasSince mark Q (l ++ l') ↔ HasSince mark Q l ∨
      (since mark l).isSome ∧ ∃ x ∈ l', Q x := by
  rw [HasSince, since_append mark h, HasSince]
  cases since mark l with
  | none => simp
  | some stretch => simp [or_and_right, exists_or]

theorem not_hasSince_marked {Q : α → Prop} {x : α} (h : mark x ≠ none)
    (l : List α) : ¬ HasSince mark Q (l ++ [x]) := by
  intro h'
  obtain ⟨stretch, hs, y, hy, -⟩ := h'
  rw [since_snoc, extend] at hs
  cases hx : mark x with
  | none => exact h hx
  | some opens =>
      rw [hx] at hs
      cases opens with
      | true =>
          obtain rfl := Option.some.inj hs
          cases hy
      | false => cases hs

/-- Such an element comes after the opening, and nothing marked after it. -/
theorem hasSince_iff_split {Q : α → Prop} (hQ : ∀ x, Q x → mark x = none)
    {l : List α} : HasSince mark Q l ↔ ∃ before x after,
      l = before ++ x :: after ∧ Q x ∧ (since mark before).isSome ∧
        ∀ y ∈ after, mark y = none := by
  refine ⟨fun h => ?_, fun h => ?_⟩
  · obtain ⟨stretch, hs, x, hx, hQx⟩ := h
    obtain ⟨before, o, rfl, ho, hall⟩ := (since_eq_some mark).mp hs
    obtain ⟨left, right, rfl⟩ := List.append_of_mem hx
    rw [List.forall_mem_append, List.forall_mem_cons] at hall
    have hopen : since mark (before ++ o :: left) = some left :=
      (since_eq_some mark).mpr ⟨before, o, rfl, ho, hall.1⟩
    exact ⟨before ++ o :: left, x, right, by simp, hQx, by rw [hopen]; rfl,
      hall.2.2⟩
  · obtain ⟨before, x, after, rfl, hQx, hopen, hall⟩ := h
    have hall' : ∀ y ∈ x :: after, mark y = none :=
      List.forall_mem_cons.mpr ⟨hQ x hQx, hall⟩
    exact (hasSince_append mark hall' before).mpr
      (.inr ⟨hopen, x, List.mem_cons_self, hQx⟩)

theorem HasSince.isSome {Q : α → Prop} {l : List α}
    (h : HasSince mark Q l) : (since mark l).isSome := by
  obtain ⟨stretch, hs, -⟩ := h
  rw [hs]
  rfl

end Since

/-! ## Cut at the first of a kind -/

section Cut

variable (p : α → Bool)

/-- From the first element of the kind on. -/
def onward (l : List α) : List α := l.dropWhile (! p ·)

/-- Up to the first element of the kind, and without it. -/
def upTo (l : List α) : List α := l.takeWhile (! p ·)

variable {p} {l : List α}

theorem onward_eq_nil (h : l.any p = false) : onward p l = [] := by
  rw [onward, List.dropWhile_eq_nil_iff]
  simpa using h

theorem upTo_eq_self (h : l.any p = false) : upTo p l = l := by
  rw [upTo, List.takeWhile_eq_self_iff]
  simpa using h

theorem onward_snoc (x : α) : onward p (l ++ [x]) =
    onward p l ++ (if l.any p || p x then [x] else []) := by
  cases hany : l.any p with
  | true =>
      have hne : ¬ (l.dropWhile (! p ·)).isEmpty = true := by
        rw [List.isEmpty_iff, List.dropWhile_eq_nil_iff]
        simpa using hany
      rw [onward, List.dropWhile_append, if_neg hne]
      rfl
  | false =>
      have hnil : (l.dropWhile (! p ·)).isEmpty = true := by
        rw [List.isEmpty_iff]
        exact onward_eq_nil hany
      rw [onward_eq_nil hany, onward, List.dropWhile_append, if_pos hnil]
      cases hx : p x <;> simp [hx]

theorem upTo_snoc (x : α) : upTo p (l ++ [x]) =
    upTo p l ++ (if l.any p || p x then [] else [x]) := by
  cases hany : l.any p with
  | true =>
      have hlt : ¬ (l.takeWhile (! p ·)).length = l.length := by
        intro hlen
        have hself := (List.takeWhile_prefix (! p ·)).eq_of_length hlen
        rw [List.takeWhile_eq_self_iff] at hself
        simp only [List.any_eq_true] at hany
        obtain ⟨y, hy, hp⟩ := hany
        simpa [hp] using hself y hy
      rw [upTo, List.takeWhile_append, if_neg hlt]
      exact (List.append_nil _).symm
  | false =>
      have hself : l.takeWhile (! p ·) = l := upTo_eq_self hany
      rw [upTo_eq_self hany, upTo, List.takeWhile_append,
        if_pos (by rw [hself])]
      cases hx : p x <;> simp [hx]

end Cut

/-! ## What still stands

Some elements write a value down and some strike it out. -/

section Stands

variable (writes : α → Option β) (strikes : α → Prop)

/-- The value was written down, and nothing has struck it out since. -/
def Stands (l : List α) (b : β) : Prop :=
  ∃ before x after, l = before ++ x :: after ∧ writes x = some b ∧
    ∀ y ∈ after, ¬ strikes y

theorem not_stands_nil (b : β) : ¬ Stands writes strikes [] b := by
  rintro ⟨before, x, after, h, -⟩
  simp at h

theorem stands_snoc {l : List α} {x : α} {b : β} :
    Stands writes strikes (l ++ [x]) b ↔
      writes x = some b ∨ ¬ strikes x ∧ Stands writes strikes l b := by
  refine ⟨fun h => ?_, fun h => ?_⟩
  · obtain ⟨before, y, after, heq, hy, hall⟩ := h
    rcases List.eq_nil_or_concat after with rfl | ⟨after', z, rfl⟩
    · obtain ⟨rfl, hxy⟩ := List.append_inj' heq rfl
      obtain rfl : x = y := by simpa using hxy
      exact .inl hy
    · have heq' : l ++ [x] = (before ++ y :: after') ++ [z] := by
        simpa using heq
      obtain ⟨rfl, hxz⟩ := List.append_inj' heq' rfl
      obtain rfl : x = z := by simpa using hxz
      refine .inr ⟨hall x (by simp), before, y, after', rfl, hy, ?_⟩
      intro w hw
      exact hall w (by simp [hw])
  · rcases h with hx | ⟨hx, before, y, after, rfl, hy, hall⟩
    · exact ⟨l, x, [], rfl, hx, fun y hy => by cases hy⟩
    · refine ⟨before, y, after ++ [x], by simp, hy, ?_⟩
      intro w hw
      rcases List.mem_append.mp hw with hmem | hmem
      · exact hall w hmem
      · rwa [List.mem_singleton.mp hmem]

end Stands

/-- The third sequence is the first two interleaved, all and only their
elements, each in its own order. -/
inductive Shuffle : List α → List α → List α → Prop
  | nil : Shuffle [] [] []
  | left {x : α} {xs ys zs : List α} :
      Shuffle xs ys zs → Shuffle (x :: xs) ys (x :: zs)
  | right {y : α} {xs ys zs : List α} :
      Shuffle xs ys zs → Shuffle xs (y :: ys) (y :: zs)

namespace Shuffle

theorem snoc_left {xs ys zs : List α} (h : Shuffle xs ys zs) (x : α) :
    Shuffle (xs ++ [x]) ys (zs ++ [x]) := by
  induction h with
  | nil => exact .left .nil
  | left _ ih => exact .left ih
  | right _ ih => exact .right ih

theorem snoc_right {xs ys zs : List α} (h : Shuffle xs ys zs) (y : α) :
    Shuffle xs (ys ++ [y]) (zs ++ [y]) := by
  induction h with
  | nil => exact .right .nil
  | left _ ih => exact .left ih
  | right _ ih => exact .right ih

end Shuffle

/-! ## Filling a list with a computation that may fail -/

section Fallible

universe u

variable {α β ε : Type u}

theorem bind_eq_ok {x : Except ε α} {f : α → Except ε β} {b : β} :
    (x >>= f) = .ok b ↔ ∃ a, x = .ok a ∧ f a = .ok b := by
  cases x with
  | error e => simp [bind, Except.bind]
  | ok a => simp [bind, Except.bind]

theorem map_eq_ok {x : Except ε α} {f : α → β} {b : β} :
    x.map f = .ok b ↔ ∃ a, x = .ok a ∧ f a = b := by
  cases x with
  | error e => simp [Except.map]
  | ok a => simp [Except.map]

/-- The results that came back, one for each element, are all there is. -/
theorem mapM_eq_ok {f : α → Except ε β} {l : List α} {ys : List β} :
    l.mapM f = .ok ys ↔ List.Forall₂ (fun x y => f x = .ok y) l ys := by
  induction l generalizing ys with
  | nil => cases ys <;> simp [pure, Except.pure]
  | cons x l ih =>
      rw [List.mapM_cons, bind_eq_ok, List.forall₂_cons_left_iff]
      refine ⟨fun h => ?_, fun h => ?_⟩
      · obtain ⟨y, hy, h⟩ := h
        obtain ⟨ys', hys, heq⟩ := bind_eq_ok.mp h
        exact ⟨y, ys', hy, ih.mp hys, (Except.ok.inj heq).symm⟩
      · obtain ⟨y, ys', hy, hys, rfl⟩ := h
        exact ⟨y, hy, bind_eq_ok.mpr ⟨ys', ih.mpr hys, rfl⟩⟩

theorem exists_mapM_eq_ok {f : α → Except ε β} {l : List α} :
    (∃ ys, l.mapM f = .ok ys) ↔ ∀ x ∈ l, ∃ y, f x = .ok y := by
  simp only [mapM_eq_ok]
  induction l with
  | nil => exact ⟨fun _ x hx => (List.not_mem_nil hx).elim, fun _ => ⟨[], .nil⟩⟩
  | cons x l ih =>
      rw [List.forall_mem_cons, ← ih]
      refine ⟨fun h => ?_, fun h => ?_⟩
      · obtain ⟨ys, hys⟩ := h
        obtain ⟨y, ys', hy, hys', -⟩ := List.forall₂_cons_left_iff.mp hys
        exact ⟨⟨y, hy⟩, ys', hys'⟩
      · obtain ⟨⟨y, hy⟩, ys', hys'⟩ := h
        exact ⟨y :: ys', .cons hy hys'⟩

end Fallible

end Sequence
