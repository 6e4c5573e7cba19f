import Codefest.Main.Keys

/-!
# Special keys in the key loop

The loop decides by one unit at a time and has no memory of the unit before,
so the key code of a special key is read as a character. The first unit, 0 or
0xE0, is always rejected; the second is rejected only when it is not one of
the command letters, and the codes of Delete (0x53), Page Down (0x51) and
others are.

`OnlyOrdinary` is what the loop is meant to do with a sequence of keys. It does
so on the sequences in which no special key pressed before the first `q` has a
command letter for its code, and on no others. One direction is a computation
along the keys. The other is a count: a special key taken for a command adds a
direction, and the only way to make up for it, the loop ending early, is one
the last clause of `OnlyOrdinary` forbids.
-/

namespace Codefest

/-- The directions the keys stand for: those of the ordinary presses before
the first `q`. -/
def directions (keys : List KeyPress) : List String :=
  (keys.takeWhile (!·.isQuit)).filterMap KeyPress.direction?

/-- After `n` units the key just read in full is an ordinary `q`. -/
def EndsAt (keys : List KeyPress) (n : Nat) : Prop :=
  ∃ before c after, keys = before ++ .ordinary c :: after ∧ c ∈ quitChars ∧
    n = (units before).length + 1

/-- Only ordinary presses are commands: the directions emitted are theirs, a
special key emits nothing, and the loop ends at none but an ordinary `q`. -/
structure OnlyOrdinary (keys : List KeyPress) : Prop where
  emitted : (keyLoop (units keys)).emitted = directions keys
  silent : ∀ before extended code after,
    keys = before ++ .special extended code :: after →
    (keyLoop (units (before ++ [.special extended code]))).emitted =
      (keyLoop (units before)).emitted
  ends : (keyLoop (units keys)).ended = true →
    EndsAt keys (keyLoop (units keys)).consumed

/-- No special key pressed before the first `q` has a code that is a command
letter. -/
def HarmlessCodes (keys : List KeyPress) : Prop :=
  ∀ extended code, .special extended code ∈ keys.takeWhile (!·.isQuit) →
    ¬ IsCommand (toChar code.toNat)

theorem keyLoop_ordinary (c : Int8) (keys : List KeyPress) :
    keyLoop (units (.ordinary c :: keys)) =
      turn (keyAction c) (keyLoop (units keys)) := by
  show keyLoop (c.toUInt8.toNat :: units keys) = _
  rw [keyLoop, toChar_toUInt8]

theorem keyLoop_special (extended : Bool) (code : UInt8)
    (keys : List KeyPress) :
    keyLoop (units (.special extended code :: keys)) =
      turn .invalid (turn (keyAction (toChar code.toNat))
        (keyLoop (units keys))) := by
  have hlead : keyAction (toChar (if extended then 0xE0 else 0)) =
      .invalid := by
    cases extended <;> decide
  show keyLoop ((if extended then 0xE0 else 0) :: code.toNat :: units keys) = _
  rw [keyLoop, hlead, keyLoop]

theorem isQuit_ordinary {c : Int8} :
    (KeyPress.ordinary c).isQuit = true ↔ keyAction c = .quit := by
  rw [keyAction_eq_quit, KeyPress.isQuit, decide_eq_true_iff]

theorem isQuit_ordinary_of_ne {c : Int8} (h : keyAction c ≠ .quit) :
    (KeyPress.ordinary c).isQuit = false := by
  rw [← Bool.not_eq_true, isQuit_ordinary]
  exact h

theorem directions_quit {k : KeyPress} (keys : List KeyPress)
    (h : k.isQuit = true) : directions (k :: keys) = [] := by
  simp [directions, h]

theorem directions_some {k : KeyPress} (keys : List KeyPress) {d : String}
    (h : k.isQuit = false) (hd : k.direction? = some d) :
    directions (k :: keys) = d :: directions keys := by
  simp [directions, h, hd]

theorem directions_none {k : KeyPress} (keys : List KeyPress)
    (h : k.isQuit = false) (hd : k.direction? = none) :
    directions (k :: keys) = directions keys := by
  simp [directions, h, hd]

/-! A key in front moves the end by its units, and away from it again unless
the key was the `q` that ended the loop. -/

theorem not_endsAt_zero {keys : List KeyPress} : ¬ EndsAt keys 0 := by
  intro h
  obtain ⟨before, c, after, -, -, h⟩ := h
  omega

theorem EndsAt.cons {keys : List KeyPress} {n : Nat} (h : EndsAt keys n)
    (k : KeyPress) : EndsAt (k :: keys) (n + k.units.length) := by
  obtain ⟨before, c, after, rfl, hc, rfl⟩ := h
  refine ⟨k :: before, c, after, rfl, hc, ?_⟩
  simp only [units, List.flatMap_cons, List.length_append]
  omega

theorem EndsAt.tail {k : KeyPress} {keys : List KeyPress} {n : Nat}
    (hq : k.isQuit = false) (h : EndsAt (k :: keys) (n + k.units.length)) :
    EndsAt keys n := by
  obtain ⟨before, c, after, heq, hc, hn⟩ := h
  cases before with
  | nil =>
      obtain rfl : k = .ordinary c := (List.cons.inj heq).1
      rw [KeyPress.isQuit, decide_eq_false_iff_not] at hq
      exact absurd hc hq
  | cons k' before =>
      obtain ⟨rfl, rfl⟩ := List.cons.inj heq
      refine ⟨before, c, after, rfl, hc, ?_⟩
      simp only [units, List.flatMap_cons, List.length_append] at hn ⊢
      omega

theorem harmlessCodes_nil : HarmlessCodes [] := by
  intro extended code h
  cases h

theorem harmlessCodes_quit {k : KeyPress} (keys : List KeyPress)
    (h : k.isQuit = true) : HarmlessCodes (k :: keys) := by
  intro extended code hmem
  simp [h] at hmem

theorem harmlessCodes_ordinary {c : Int8} {keys : List KeyPress}
    (h : (KeyPress.ordinary c).isQuit = false) :
    HarmlessCodes (.ordinary c :: keys) ↔ HarmlessCodes keys := by
  simp [HarmlessCodes, h]

theorem harmlessCodes_special {extended : Bool} {code : UInt8}
    {keys : List KeyPress} :
    HarmlessCodes (.special extended code :: keys) ↔
      ¬ IsCommand (toChar code.toNat) ∧ HarmlessCodes keys := by
  have h : (KeyPress.special extended code).isQuit = false := rfl
  refine ⟨fun hall => ?_, fun hall => ?_⟩
  · refine ⟨hall extended code (by simp [h]), fun e c hmem => hall e c ?_⟩
    simp [h, hmem]
  · obtain ⟨hcode, hall⟩ := hall
    intro e c hmem
    simp only [h, Bool.not_false, List.takeWhile_cons_of_pos,
      List.mem_cons] at hmem
    rcases hmem with heq | hmem
    · obtain ⟨-, rfl⟩ := KeyPress.special.inj heq
      exact hcode
    · exact hall e c hmem

/-- What was pressed first is harmless if everything pressed is. -/
theorem HarmlessCodes.left {before after : List KeyPress}
    (h : HarmlessCodes (before ++ after)) : HarmlessCodes before := by
  intro extended code hmem
  refine h extended code ?_
  rw [List.takeWhile_append]
  split
  · exact List.mem_append_left _ ((List.takeWhile_sublist _).subset hmem)
  · exact hmem

theorem directions_append_special (before : List KeyPress) (extended : Bool)
    (code : UInt8) : directions (before ++ [.special extended code]) =
      directions before := by
  rw [directions, directions, List.takeWhile_append]
  split
  · rename_i hall
    have hwhole : before.takeWhile (!·.isQuit) = before :=
      (List.takeWhile_prefix _).eq_of_length hall
    have hspecial : [KeyPress.special extended code].takeWhile (!·.isQuit) =
        [.special extended code] := rfl
    rw [hwhole, hspecial, List.filterMap_append]
    exact List.append_nil _
  · rfl

/-! ## Where the loop does what it is meant to -/

/-- With harmless codes the loop emits what it should, and ends where it
should. -/
theorem keyLoop_of_harmless {keys : List KeyPress} (h : HarmlessCodes keys) :
    (keyLoop (units keys)).emitted = directions keys ∧
      ((keyLoop (units keys)).ended = true →
        EndsAt keys (keyLoop (units keys)).consumed) := by
  induction keys with
  | nil => exact ⟨rfl, fun hend => by cases hend⟩
  | cons k keys ih =>
      cases k with
      | ordinary c =>
          rw [keyLoop_ordinary]
          cases hact : keyAction c with
          | quit =>
              have hq := isQuit_ordinary.mpr hact
              rw [directions_quit keys hq]
              exact ⟨rfl, fun _ =>
                ⟨[], c, keys, rfl, keyAction_eq_quit.mp hact, rfl⟩⟩
          | drive d =>
              have hq := isQuit_ordinary_of_ne (by rw [hact]; simp)
              obtain ⟨hem, hend⟩ := ih ((harmlessCodes_ordinary hq).mp h)
              rw [directions_some keys hq (keyAction_eq_drive hact)]
              exact ⟨congrArg (d :: ·) hem,
                fun he => (hend he).cons (.ordinary c)⟩
          | invalid =>
              have hq := isQuit_ordinary_of_ne (by rw [hact]; simp)
              obtain ⟨hem, hend⟩ := ih ((harmlessCodes_ordinary hq).mp h)
              rw [directions_none keys hq (keyAction_eq_invalid hact)]
              exact ⟨hem, fun he => (hend he).cons (.ordinary c)⟩
      | special extended code =>
          obtain ⟨hcode, htail⟩ := harmlessCodes_special.mp h
          obtain ⟨hem, hend⟩ := ih htail
          rw [keyLoop_special, keyAction_eq_invalid_iff.mpr hcode,
            directions_none keys rfl rfl]
          exact ⟨hem, fun he => (hend he).cons (.special extended code)⟩

/-- A loop that ends only where it should emits no fewer directions than it
should, and no more only if every code was harmless. -/
theorem length_directions_le {keys : List KeyPress}
    (hend : (keyLoop (units keys)).ended = true →
      EndsAt keys (keyLoop (units keys)).consumed) :
    (directions keys).length ≤ (keyLoop (units keys)).emitted.length ∧
      ((keyLoop (units keys)).emitted.length ≤ (directions keys).length →
        HarmlessCodes keys) := by
  induction keys with
  | nil => exact ⟨Nat.le_refl _, fun _ => harmlessCodes_nil⟩
  | cons k keys ih =>
      cases k with
      | ordinary c =>
          rw [keyLoop_ordinary] at hend ⊢
          cases hact : keyAction c with
          | quit =>
              have hq := isQuit_ordinary.mpr hact
              rw [directions_quit keys hq]
              exact ⟨Nat.zero_le _, fun _ => harmlessCodes_quit keys hq⟩
          | drive d =>
              have hq := isQuit_ordinary_of_ne (by rw [hact]; simp)
              rw [hact] at hend
              have htail := ih fun he => EndsAt.tail hq (hend he)
              rw [directions_some keys hq (keyAction_eq_drive hact),
                harmlessCodes_ordinary hq]
              simp only [turn, List.length_cons, Nat.add_le_add_iff_right]
              exact htail
          | invalid =>
              have hq := isQuit_ordinary_of_ne (by rw [hact]; simp)
              rw [hact] at hend
              have htail := ih fun he => EndsAt.tail hq (hend he)
              rw [directions_none keys hq (keyAction_eq_invalid hact),
                harmlessCodes_ordinary hq]
              exact htail
      | special extended code =>
          rw [keyLoop_special] at hend ⊢
          rw [directions_none keys rfl rfl]
          cases hact : keyAction (toChar code.toNat) with
          | quit =>
              -- The loop has ended on the second unit of this very key.
              rw [hact] at hend
              exact (not_endsAt_zero (EndsAt.tail rfl (hend rfl))).elim
          | drive d =>
              rw [hact] at hend
              have htail := ih fun he => EndsAt.tail rfl (hend he)
              have hle := htail.1
              simp only [turn, List.length_cons]
              exact ⟨by omega, fun h => absurd h (by omega)⟩
          | invalid =>
              rw [hact] at hend
              have htail := ih fun he => EndsAt.tail rfl (hend he)
              rw [harmlessCodes_special]
              exact ⟨htail.1, fun h =>
                ⟨keyAction_eq_invalid_iff.mp hact, htail.2 h⟩⟩

/-- The loop treats only ordinary presses as commands exactly when no special
key pressed before the first `q` has a command letter for its code. -/
theorem onlyOrdinary_iff (keys : List KeyPress) :
    OnlyOrdinary keys ↔ HarmlessCodes keys := by
  refine ⟨fun h => ?_, fun h => ?_⟩
  · exact (length_directions_le h.ends).2 (Nat.le_of_eq (by rw [h.emitted]))
  · obtain ⟨hem, hend⟩ := keyLoop_of_harmless h
    refine ⟨hem, ?_, hend⟩
    intro before extended code after heq
    subst heq
    have hsplit : before ++ .special extended code :: after =
        (before ++ [.special extended code]) ++ after := by simp
    rw [hsplit] at h
    rw [(keyLoop_of_harmless h.left).1, (keyLoop_of_harmless h.left.left).1,
      directions_append_special]

/-- Delete drives the player and Page Down ends the game. -/
theorem onlyOrdinary_fails :
    ¬ OnlyOrdinary [.special true 0x53] ∧
      ¬ OnlyOrdinary [.special true 0x51] := by
  refine ⟨fun h => ?_, fun h => ?_⟩
  · exact absurd h.emitted (by decide)
  · exact not_endsAt_zero (EndsAt.tail rfl (h.ends rfl))

end Codefest
