import Mathlib.Data.List.Basic

/-!
# The key loop (`main.cpp`, from `char input` on)

The loop reads one unit at a time with `_getch`, puts it into a `char` and
decides by that `char` alone: `q` ends the loop, five letters emit a direction,
anything else prints a complaint. `keyAction` is the test and the switch, and
`keyLoop` runs them over what `_getch` returns. Running out of input models the
call that has not returned yet.

A key is not always one unit. `_getch` answers a special key in two calls, 0 or
0xE0 first and a key code second; `KeyPress.units` is that encoding.
-/

namespace Codefest

def ch (c : Char) : Int8 := Int8.ofNat c.toNat

/-- `char input = _getch()`. -/
def toChar (r : Int) : Int8 := Int8.ofInt r

inductive KeyAction
  | quit
  | drive (direction : String)
  | invalid
  deriving DecidableEq, Repr

/-- The `if` and the `switch` of the loop body. -/
def keyAction (input : Int8) : KeyAction :=
  if input = ch 'q' ∨ input = ch 'Q' then .quit
  else if input = ch 'w' ∨ input = ch 'W' then .drive "3"
  else if input = ch 'a' ∨ input = ch 'A' then .drive "1"
  else if input = ch 's' ∨ input = ch 'S' then .drive "4"
  else if input = ch 'd' ∨ input = ch 'D' then .drive "2"
  else if input = ch 'b' ∨ input = ch 'B' then .drive "b"
  else .invalid

/-- What the loop has done: the directions emitted, the calls of `_getch` that
returned, and whether it has broken out. -/
structure KeyLoop where
  emitted : List String := []
  consumed : Nat := 0
  ended : Bool := false
  deriving DecidableEq, Repr

/-- One turn of the loop; the turns after it only count if it did not end. -/
def turn : KeyAction → KeyLoop → KeyLoop
  | .quit, _ => { consumed := 1, ended := true }
  | .drive direction, l =>
      { l with
        emitted := direction :: l.emitted, consumed := l.consumed + 1 }
  | .invalid, l => { l with consumed := l.consumed + 1 }

def keyLoop : List Int → KeyLoop
  | [] => {}
  | r :: rest => turn (keyAction (toChar r)) (keyLoop rest)

/-- A key press: a character, or a special key with its code. -/
inductive KeyPress
  | ordinary (c : Int8)
  | special (extended : Bool) (code : UInt8)
  deriving DecidableEq, Repr

def KeyPress.units : KeyPress → List Int
  | ordinary c => [c.toUInt8.toNat]
  | special extended code => [if extended then 0xE0 else 0, code.toNat]

def units (keys : List KeyPress) : List Int := keys.flatMap KeyPress.units

/-! ## What the keys stand for

The characters that are commands, and what a press of an ordinary key means.
This is the intent, to be compared with what the loop does. -/

def quitChars : List Int8 := [ch 'q', ch 'Q']

def commands : List (Int8 × String) :=
  [(ch 'w', "3"), (ch 'W', "3"), (ch 'a', "1"), (ch 'A', "1"), (ch 's', "4"),
    (ch 'S', "4"), (ch 'd', "2"), (ch 'D', "2"), (ch 'b', "b"), (ch 'B', "b")]

/-- The characters that the loop is after. -/
def IsCommand (c : Int8) : Prop := c ∈ quitChars ∨ (commands.lookup c).isSome

def KeyPress.isQuit : KeyPress → Bool
  | ordinary c => decide (c ∈ quitChars)
  | special _ _ => false

def KeyPress.direction? : KeyPress → Option String
  | ordinary c => commands.lookup c
  | special _ _ => none

/-- The test and the switch agree with the tables. -/
theorem keyAction_eq (c : Int8) : keyAction c =
    if c ∈ quitChars then .quit
    else match commands.lookup c with
      | some direction => .drive direction
      | none => .invalid := by
  by_cases hq : c ∈ quitChars
  · rw [if_pos hq]
    simp only [quitChars, List.mem_cons, List.not_mem_nil, or_false] at hq
    exact if_pos hq
  · rw [if_neg hq]
    cases hd : commands.lookup c with
    | some direction =>
        obtain ⟨before, after, heq, -⟩ := List.lookup_eq_some_iff.mp hd
        have hmem : (c, direction) ∈ commands := by
          rw [heq]
          exact List.mem_append_right before List.mem_cons_self
        simp only [commands, List.mem_cons, List.not_mem_nil, or_false,
          Prod.mk.injEq] at hmem
        rcases hmem with ⟨rfl, rfl⟩ | ⟨rfl, rfl⟩ | ⟨rfl, rfl⟩ | ⟨rfl, rfl⟩ |
          ⟨rfl, rfl⟩ | ⟨rfl, rfl⟩ | ⟨rfl, rfl⟩ | ⟨rfl, rfl⟩ | ⟨rfl, rfl⟩ |
          ⟨rfl, rfl⟩
        all_goals decide
    | none =>
        rw [List.lookup_eq_none_iff] at hd
        simp only [commands, List.forall_mem_cons, bne_iff_ne, ne_eq] at hd
        simp only [quitChars, List.mem_cons, List.not_mem_nil, or_false,
          not_or] at hq
        simp only [keyAction, hq, hd, or_self, if_false]

theorem keyAction_eq_quit {c : Int8} : keyAction c = .quit ↔ c ∈ quitChars := by
  rw [keyAction_eq]
  split
  · simp_all
  · split <;> simp_all

theorem keyAction_eq_drive {c : Int8} {direction : String}
    (h : keyAction c = .drive direction) :
    commands.lookup c = some direction := by
  rw [keyAction_eq] at h
  split at h
  · cases h
  · split at h
    · rename_i hd
      obtain rfl := KeyAction.drive.inj h
      exact hd
    · cases h

theorem keyAction_eq_invalid {c : Int8} (h : keyAction c = .invalid) :
    commands.lookup c = none := by
  rw [keyAction_eq] at h
  split at h
  · cases h
  · split at h
    · cases h
    · assumption

theorem keyAction_eq_invalid_iff {c : Int8} :
    keyAction c = .invalid ↔ ¬ IsCommand c := by
  rw [keyAction_eq, IsCommand, not_or]
  by_cases hq : c ∈ quitChars
  · simp [hq]
  · cases hd : commands.lookup c with
    | none => simp [hq]
    | some direction => simp [hq]

/-- A character survives the trip through the `int` that `_getch` returns. -/
theorem toChar_toUInt8 (c : Int8) : toChar c.toUInt8.toNat = c := by
  rw [toChar, Int8.ofInt_eq_ofNat, ← UInt8.toInt8_ofNat', UInt8.ofNat_toNat,
    Int8.toInt8_toUInt8]

end Codefest
