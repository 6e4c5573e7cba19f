import Mathlib.Data.List.TakeWhile
import Mathlib.Data.Nat.Digits.Defs

/-!
# Text as bytes

The operations on text that a parser of a line format is written in: the first
byte of a kind from a position on, a stretch between two positions, and numbers
in decimal, printed without padding and read the way the C library reads them,
with blanks and a sign in front and anything after the digits ignored.

Searching has one rule for each outcome. Numbers have a round trip: what was
printed is read back, as long as it is within the bounds of the type it is read
into.
-/

namespace Text

abbrev Bytes := List UInt8

/-- A text of characters that are a byte each. -/
def ascii (s : String) : Bytes := s.toList.map fun c => UInt8.ofNat c.toNat

section Search

variable {α : Type*}

/-- The first position from `pos` on whose element is of the kind. -/
def findFrom (p : α → Bool) (s : List α) (pos : Nat) : Option Nat :=
  ((s.drop pos).findIdx? p).map (· + pos)

/-- The elements from one position on, before another one if it is given. A
stretch that would end before it starts goes on to the end, because its length
is unsigned. -/
def stretch (s : List α) (first : Nat) : Option Nat → List α
  | some last =>
      if last < first then s.drop first else (s.drop first).take (last - first)
  | none => s.drop first

variable {p : α → Bool} {s : List α} {x : α} {pos : Nat}

theorem findFrom_eq_none (h : ∀ x ∈ s.drop pos, p x = false) :
    findFrom p s pos = none := by
  rw [findFrom, List.findIdx?_eq_none_iff.mpr h, Option.map_none]

theorem findFrom_append (pre : List α) (hpos : pos ≤ pre.length)
    (hpre : ∀ x ∈ pre.drop pos, p x = false) (hx : p x = true) (s : List α) :
    findFrom p (pre ++ x :: s) pos = some pre.length := by
  rw [findFrom, List.drop_append_of_le_length hpos, List.findIdx?_append,
    List.findIdx?_eq_none_iff.mpr hpre, List.findIdx?_cons, if_pos hx]
  simp only [Option.map_some, Option.none_or, List.length_drop,
    Option.some.injEq]
  omega

theorem stretch_append (pre mid s : List α) :
    stretch (pre ++ mid ++ s) pre.length (some (pre.length + mid.length)) =
      mid := by
  rw [stretch, if_neg (by omega), List.append_assoc, List.drop_left]
  simp

end Search

/-! ## Numbers -/

def isDigit (b : UInt8) : Bool := 48 ≤ b && b ≤ 57

def isSpace (b : UInt8) : Bool := b == 32 || 9 ≤ b && b ≤ 13

def ofDigit (d : Nat) : UInt8 := 48 + UInt8.ofNat d

/-- `n` in decimal. -/
def decimal (n : Nat) : Bytes :=
  if n = 0 then [48] else (Nat.digits 10 n).reverse.map ofDigit

/-- The number that digits spell. -/
def value (digits : Bytes) : Nat :=
  digits.foldl (fun v b => 10 * v + (b - 48).toNat) 0

/-- The digits in front, if there are any. -/
def scanNat (s : Bytes) : Option Nat :=
  if s.takeWhile isDigit = [] then none else some (value (s.takeWhile isDigit))

/-- A number with blanks and a sign in front. -/
def scanInt (s : Bytes) : Option Int :=
  match s.dropWhile isSpace with
  | 45 :: s => (scanNat s).map (-Int.ofNat ·)
  | 43 :: s => (scanNat s).map Int.ofNat
  | s => (scanNat s).map Int.ofNat

theorem ofDigit_spec : ∀ d < 10, isDigit (ofDigit d) = true ∧
    (ofDigit d - 48).toNat = d := by decide

theorem decimal_isDigit {n : Nat} {b : UInt8} (h : b ∈ decimal n) :
    isDigit b = true := by
  unfold decimal at h
  split at h
  · obtain rfl := List.mem_singleton.mp h
    decide
  · obtain ⟨d, hd, rfl⟩ := List.mem_map.mp h
    have hlt := Nat.digits_lt_base (by decide) (List.mem_reverse.mp hd)
    exact (ofDigit_spec d hlt).1

theorem decimal_ne_nil (n : Nat) : decimal n ≠ [] := by
  unfold decimal
  split
  · simp
  · rw [ne_eq, List.map_eq_nil_iff, List.reverse_eq_nil_iff]
    exact Nat.digits_ne_nil_iff_ne_zero.mpr ‹¬ n = 0›

theorem value_decimal (n : Nat) : value (decimal n) = n := by
  unfold decimal
  split
  · subst n
    decide
  · have hfold : ∀ ds : List Nat, (∀ d ∈ ds, d < 10) →
        value (ds.reverse.map ofDigit) = Nat.ofDigits 10 ds := by
      intro ds hds
      induction ds with
      | nil => rfl
      | cons d ds ih =>
          rw [List.forall_mem_cons] at hds
          have hrest := ih hds.2
          rw [value] at hrest
          rw [value, List.reverse_cons, List.map_append, List.foldl_append,
            hrest, Nat.ofDigits_cons]
          simp [(ofDigit_spec d hds.1).2, Nat.add_comm]
    rw [hfold _ fun d hd => Nat.digits_lt_base (by decide) hd,
      Nat.ofDigits_digits]

theorem takeWhile_decimal (n : Nat) :
    (decimal n).takeWhile isDigit = decimal n := by
  rw [List.takeWhile_eq_self_iff]
  exact fun b hb => decimal_isDigit hb

theorem scanNat_decimal (n : Nat) : scanNat (decimal n) = some n := by
  rw [scanNat, takeWhile_decimal, if_neg (decimal_ne_nil n), value_decimal]

theorem isDigit_first (b : UInt8) (h : isDigit b = true) :
    isSpace b = false ∧ b ≠ 45 ∧ b ≠ 43 := by
  simp [isDigit, isSpace, UInt8.le_iff_toNat_le, ← UInt8.toNat_inj] at h ⊢
  omega

/-- What is printed is read back. -/
theorem scanInt_decimal (n : Nat) : scanInt (decimal n) = some (n : Int) := by
  have hscan := scanNat_decimal n
  cases hdec : decimal n with
  | nil => exact absurd hdec (decimal_ne_nil n)
  | cons b s =>
      have hb : isDigit b = true :=
        decimal_isDigit (n := n) (by rw [hdec]; exact List.mem_cons_self)
      rw [hdec] at hscan
      obtain ⟨hspace, hminus, hplus⟩ := isDigit_first b hb
      rw [scanInt, List.dropWhile_cons_of_neg (by simp [hspace])]
      split
      · exact absurd (List.cons.inj ‹_›).1 hminus
      · exact absurd (List.cons.inj ‹_›).1 hplus
      · rw [hscan]
        rfl

end Text
