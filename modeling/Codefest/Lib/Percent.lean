import Codefest.Lib.Text

/-!
# Queries of a URL

How the other end reads the query of a URL: the part behind the first `?`, split
at each `&`, each piece at its first `=`, and in the value a `%` with two
hexadecimal digits for the byte that they spell. A `%` without them stands for
itself.

The rules are for a writer. Every part that keeps out of the way of what comes
after it is read back on its own.
-/

namespace Text

def hexValue? (b : UInt8) : Option Nat :=
  if 48 ≤ b ∧ b ≤ 57 then some (b.toNat - 48)
  else if 65 ≤ b ∧ b ≤ 70 then some (b.toNat - 55)
  else if 97 ≤ b ∧ b ≤ 102 then some (b.toNat - 87)
  else none

/-- A digit, in upper case. -/
def hexDigit (d : Nat) : UInt8 :=
  if d < 10 then 48 + UInt8.ofNat d else 55 + UInt8.ofNat d

/-- `n` in hexadecimal. -/
def hexadecimal (n : Nat) : Bytes :=
  if n = 0 then [48] else (Nat.digits 16 n).reverse.map hexDigit

def percentDecode : Bytes → Bytes
  | 37 :: x :: y :: s =>
      match hexValue? x, hexValue? y with
      | some h, some l => UInt8.ofNat (16 * h + l) :: percentDecode s
      | _, _ => 37 :: percentDecode (x :: y :: s)
  | b :: s => b :: percentDecode s
  | [] => []

theorem hexadecimal_small {n : Nat} (h : n < 16) :
    hexadecimal n = [hexDigit n] := by
  unfold hexadecimal
  split
  · subst n
    rfl
  · rw [Nat.digits_of_lt 16 n ‹_› h]
    rfl

theorem hexadecimal_byte {n : Nat} (h : 16 ≤ n) (h' : n < 256) :
    hexadecimal n = [hexDigit (n / 16), hexDigit (n % 16)] := by
  have hdiv : n / 16 < 16 := by omega
  have hne : n / 16 ≠ 0 := by omega
  rw [hexadecimal, if_neg (by omega), Nat.digits_def' (by decide) (by omega),
    Nat.digits_of_lt 16 _ hne hdiv]
  rfl

theorem hexValue?_hexDigit : ∀ d < 16, hexValue? (hexDigit d) = some d := by
  decide

theorem percentDecode_cons {b : UInt8} (h : b ≠ 37) (s : Bytes) :
    percentDecode (b :: s) = b :: percentDecode s := by
  rw [percentDecode]
  rintro x y s' rfl -
  exact h rfl

theorem percentDecode_append {s : Bytes} (h : 37 ∉ s) (t : Bytes) :
    percentDecode (s ++ t) = s ++ percentDecode t := by
  induction s with
  | nil => rfl
  | cons b s ih =>
      rw [List.mem_cons, not_or] at h
      rw [List.cons_append, percentDecode_cons (Ne.symm h.1), ih h.2]
      rfl

theorem percentDecode_self {s : Bytes} (h : 37 ∉ s) : percentDecode s = s := by
  have happ := percentDecode_append h []
  rwa [percentDecode, List.append_nil] at happ

/-- Two digits are read. -/
theorem percentDecode_digits {h l : Nat} (hh : h < 16) (hl : l < 16)
    (s : Bytes) : percentDecode (37 :: hexDigit h :: hexDigit l :: s) =
      UInt8.ofNat (16 * h + l) :: percentDecode s := by
  rw [percentDecode, hexValue?_hexDigit h hh, hexValue?_hexDigit l hl]

/-- What is no digit is not, and the `%` stays. -/
theorem percentDecode_stray {x y : UInt8} (h : hexValue? x = none)
    (s : Bytes) : percentDecode (37 :: x :: y :: s) =
      37 :: percentDecode (x :: y :: s) := by
  rw [percentDecode, h]

/-! ## Queries -/

/-- A name and a value; a piece without a `=` is a name. -/
def readPair (piece : Bytes) : Bytes × Bytes :=
  (piece.takeWhile (· != 61),
    percentDecode ((piece.dropWhile (· != 61)).drop 1))

def readQuery (url : Bytes) : List (Bytes × Bytes) :=
  (((url.dropWhile (· != 63)).drop 1).splitOn 38).map readPair

theorem readPair_append {name : Bytes} (h : 61 ∉ name) (value : Bytes) :
    readPair (name ++ 61 :: value) = (name, percentDecode value) := by
  have hall : ∀ b ∈ name, (b != 61) = true := by
    intro b hb
    rw [bne_iff_ne]
    rintro rfl
    exact h hb
  rw [readPair, List.takeWhile_append_of_pos hall,
    List.dropWhile_append_of_pos hall]
  simp

/-- Everything in front of the first `?` is skipped. -/
theorem readQuery_append {front : Bytes} (h : 63 ∉ front) (query : Bytes) :
    readQuery (front ++ 63 :: query) = (query.splitOn 38).map readPair := by
  have hall : ∀ b ∈ front, (b != 63) = true := by
    intro b hb
    rw [bne_iff_ne]
    rintro rfl
    exact h hb
  rw [readQuery, List.dropWhile_append_of_pos hall]
  simp

theorem splitOn_pieces {first : Bytes} {pieces : List Bytes} (h : 38 ∉ first)
    (hall : ∀ p ∈ pieces, 38 ∉ p) :
    (first ++ pieces.flatMap (38 :: ·)).splitOn 38 = first :: pieces := by
  induction pieces generalizing first with
  | nil =>
      rw [List.flatMap_nil, List.append_nil]
      exact List.splitOn_eq_singleton h
  | cons p pieces ih =>
      rw [List.forall_mem_cons] at hall
      rw [List.flatMap_cons, List.cons_append,
        List.splitOn_append_cons_self_of_not_mem h, ih hall.1 hall.2]

end Text
