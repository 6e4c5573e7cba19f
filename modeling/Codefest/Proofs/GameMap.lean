import Codefest.Game.Game

/-!
# What a map is after updates

Two questions about the grid that a sequence of updates leaves behind. Is it
the grid that was received last? It is, down to the cells, and a cell comes
through exactly when the received integer is one an `int` can hold.

And do the two sizes that the map reports describe it? The column count is the
length of row 0, so the map needs a row 0 and no later row may be shorter.
Nothing establishes that: a fresh game has no row at all, and `updateMap` takes
whatever shape it is sent. The argument runs on the list of row lengths, which
is all the sizes look at and which no in-range write disturbs.
-/

namespace Codefest

open Sio

def FitsInt (v : Int64) : Prop :=
  Int32.minValue.toInt ≤ v.toInt ∧ v.toInt ≤ Int32.maxValue.toInt

/-- The game's map is this grid of received integers, cell for cell. -/
def Received (g : Game) (rows : List (List Int64)) : Prop :=
  g.getMapGame.getMap.map (·.map Int32.toInt) = rows.map (·.map Int64.toInt)

instance (g : Game) (rows : List (List Int64)) : Decidable (Received g rows) :=
  inferInstanceAs (Decidable (_ = _))

theorem toInt_toInt32_eq_iff (v : Int64) :
    v.toInt32.toInt = v.toInt ↔ FitsInt v := by
  have hmin : Int32.minValue.toInt = -2147483648 := by decide
  have hmax : Int32.maxValue.toInt = 2147483647 := by decide
  rw [Int64.toInt_toInt32, FitsInt, hmin, hmax]
  refine ⟨fun h => ?_, fun h => ?_⟩
  · have hlo := Int.le_bmod (x := v.toInt) (m := 2 ^ 32) (by decide)
    have hhi := Int.bmod_lt (x := v.toInt) (m := 2 ^ 32) (by decide)
    rw [h] at hlo hhi
    omega
  · obtain ⟨hlo, hhi⟩ := h
    exact Int.bmod_eq_of_le (by omega) (by omega)

theorem received_narrow_iff (rows : List (List Int64)) :
    Received { mapGame := ⟨narrow rows⟩ } rows ↔
      ∀ row ∈ rows, ∀ v ∈ row, FitsInt v := by
  have hrow : ∀ row : List Int64,
      (row.map Int64.toInt32).map Int32.toInt = row.map Int64.toInt ↔
        ∀ v ∈ row, FitsInt v := by
    intro row
    rw [List.map_map, List.map_inj_left]
    exact forall₂_congr fun v _ => toInt_toInt32_eq_iff v
  show (narrow rows).map (·.map Int32.toInt) = _ ↔ _
  rw [narrow, List.map_map, List.map_inj_left]
  exact forall₂_congr fun row _ => hrow row

/-- After any updates, the map is the last grid received exactly when every
integer in that grid fits an `int`. -/
theorem last_received_iff (g : Game) (earlier : List (List (List Int64)))
    (last : List (List Int64)) :
    (∃ g', g.updateMaps ((earlier ++ [last]).map gridMessages) = .ok g' ∧
      Received g' last) ↔ ∀ row ∈ last, ∀ v ∈ row, FitsInt v := by
  rw [updateMaps_snoc, ← received_narrow_iff]
  refine ⟨fun h => ?_, fun hrec => ?_⟩
  · obtain ⟨g', h, hrec⟩ := h
    obtain rfl := Except.ok.inj h
    exact hrec
  · exact ⟨_, rfl, hrec⟩

/-- A cell of 2^31 comes out as -2^31. -/
theorem last_received_overflow :
    ¬ ∃ g', ({} : Game).updateMaps ([[[2147483648]]].map gridMessages) =
      .ok g' ∧ Received g' [[2147483648]] := by
  intro h
  obtain ⟨g', h, hrec⟩ := h
  obtain rfl := Except.ok.inj ((updateMaps_snoc {} [] _).symm.trans h)
  revert hrec
  decide

/-! ## The sizes a map reports -/

/-- Both sizes can be read, and no cell under them is missing. -/
def SizesDescribe (m : Map) : Prop :=
  ∃ cols, m.getSizeCols = some cols ∧ ∀ row col, row < m.getSizeRows →
    col < cols → (Grid.cell? m.getMap row col).isSome

structure Update where
  row : Int32
  col : Int32
  value : Int32

/-- The position lies within the sizes that the map reports. -/
def Reported (m : Map) (u : Update) : Prop :=
  ∃ cols : Nat, m.getSizeCols = some cols ∧
    0 ≤ u.row.toInt ∧ u.row.toInt < m.getSizeRows ∧
    0 ≤ u.col.toInt ∧ u.col.toInt < cols

/-- The sizes describe the map now, and after each of the updates as long as
they stay within them; none of those updates goes out of bounds. -/
def StaysDescribed (m : Map) : List Update → Prop
  | [] => SizesDescribe m
  | u :: us => SizesDescribe m ∧ (Reported m u →
      ∃ m', m.updatePositionInMap u.row u.col u.value = some m' ∧
        StaysDescribed m' us)

/-- There is a row 0 and no later row is shorter. -/
def FirstRowShortest {α : Type} (rows : List (List α)) : Prop :=
  ∃ row0 rest, rows = row0 :: rest ∧ ∀ row ∈ rest, row0.length ≤ row.length

/-- The same, said of the row lengths alone. -/
theorem firstRowShortest_iff_lengths {α : Type} (rows : List (List α)) :
    FirstRowShortest rows ↔ ∃ c cs, rows.map List.length = c :: cs ∧
      ∀ n ∈ cs, c ≤ n := by
  cases rows with
  | nil => simp [FirstRowShortest]
  | cons row0 rest => simp [FirstRowShortest]

theorem firstRowShortest_narrow (rows : List (List Int64)) :
    FirstRowShortest (narrow rows) ↔ FirstRowShortest rows := by
  have hlen : (narrow rows).map List.length = rows.map List.length := by
    simp [narrow]
  rw [firstRowShortest_iff_lengths, firstRowShortest_iff_lengths, hlen]

theorem sizesDescribe_iff (m : Map) :
    SizesDescribe m ↔ FirstRowShortest m.map := by
  cases hm : m.map with
  | nil => simp [SizesDescribe, FirstRowShortest, Map.getSizeCols, hm]
  | cons row0 rest =>
      have hcols : m.getSizeCols = some row0.length := by
        simp [Map.getSizeCols, hm]
      simp only [SizesDescribe, hcols, Option.some.injEq, exists_eq_left',
        Map.getSizeRows, Map.getMap, ← Grid.covers_iff_cell]
      simp [Grid.Covers, hm, FirstRowShortest]

/-- An update within the reported sizes of a described map finds its cell, and
leaves every row as long as it was. -/
theorem updatePositionInMap_reported {m : Map} {u : Update}
    (hm : SizesDescribe m) (hu : Reported m u) :
    ∃ m', m.updatePositionInMap u.row u.col u.value = some m' ∧
      m'.map.map List.length = m.map.map List.length := by
  obtain ⟨cols, hcols, hr0, hr, hc0, hc⟩ := hu
  obtain ⟨cols', hcols', hcell⟩ := hm
  obtain rfl : cols' = cols := Option.some.inj (hcols'.symm.trans hcols)
  have hsome := hcell u.row.toInt.toNat u.col.toInt.toNat (by omega) (by omega)
  have hset : (Grid.setCell? m.map u.row.toInt.toNat u.col.toInt.toNat
      u.value).isSome := by
    rw [Grid.setCell?_isSome]
    exact hsome
  obtain ⟨map, hmap⟩ := Option.isSome_iff_exists.mp hset
  have hsign : 0 ≤ u.row ∧ 0 ≤ u.col := by
    rw [Int32.le_iff_toInt_le, Int32.le_iff_toInt_le]
    exact ⟨hr0, hc0⟩
  refine ⟨{ m with map := map }, ?_, Grid.setCell?_shape hmap⟩
  rw [Map.updatePositionInMap, if_pos hsign, hmap]
  rfl

/-- A map that its sizes describe stays so under any in-range updates. -/
theorem staysDescribed_iff (m : Map) :
    (∀ us, StaysDescribed m us) ↔ FirstRowShortest m.map := by
  rw [← sizesDescribe_iff]
  refine ⟨fun h => ?_, fun hm => ?_⟩
  · exact h []
  · intro us
    induction us generalizing m with
    | nil => exact hm
    | cons u us ih =>
        refine ⟨hm, fun hu => ?_⟩
        obtain ⟨m', hup, hshape⟩ := updatePositionInMap_reported hm hu
        refine ⟨m', hup, ih m' ?_⟩
        rw [sizesDescribe_iff, firstRowShortest_iff_lengths] at hm ⊢
        rw [hshape]
        exact hm

/-- From a fresh game on, the reported sizes describe the map, and keep doing
so, exactly when there was an update and the last grid received has a row 0 no
longer than its other rows. -/
theorem sizes_describe_iff (payloads : List (List (List Int64))) :
    (∃ g, ({} : Game).updateMaps (payloads.map gridMessages) = .ok g ∧
      ∀ us, StaysDescribed g.getMapGame us) ↔
      ∃ last, payloads.getLast? = some last ∧ FirstRowShortest last := by
  rcases List.eq_nil_or_concat payloads with rfl | ⟨earlier, last, rfl⟩
  · refine ⟨fun h => ?_, fun h => ?_⟩
    · obtain ⟨g, h, hall⟩ := h
      obtain rfl := Except.ok.inj h
      obtain ⟨_, _, hrow, -⟩ := (staysDescribed_iff _).mp hall
      cases hrow
    · obtain ⟨last, h, -⟩ := h
      cases h
  · rw [List.concat_eq_append, updateMaps_snoc, List.getLast?_concat]
    simp only [Except.ok.injEq, exists_eq_left', Option.some.injEq]
    rw [Game.getMapGame, staysDescribed_iff, firstRowShortest_narrow]

/-- With no update at all, and after a grid whose second row is the shorter
one, a size or a cell under the sizes is not there. -/
theorem sizes_describe_fails :
    (¬ ∃ g, ({} : Game).updateMaps ([].map gridMessages) = .ok g ∧
      ∀ us, StaysDescribed g.getMapGame us) ∧
    ¬ ∃ g, ({} : Game).updateMaps ([[[1, 2], [3]]].map gridMessages) = .ok g ∧
      ∀ us, StaysDescribed g.getMapGame us := by
  refine ⟨fun h => ?_, fun h => ?_⟩
  · obtain ⟨g, h, hall⟩ := h
    obtain rfl := Except.ok.inj h
    obtain ⟨cols, hcols, -⟩ := hall []
    cases hcols
  · obtain ⟨g, h, hall⟩ := h
    obtain rfl := Except.ok.inj ((updateMaps_snoc {} [] _).symm.trans h)
    obtain ⟨cols, hcols, hcell⟩ := hall []
    obtain rfl : 2 = cols := Option.some.inj hcols
    exact absurd (hcell 1 1 (by decide) (by decide)) (by decide)

end Codefest
