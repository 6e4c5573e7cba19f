import Codefest.Lib.Grid
import Codefest.Lib.Sequence
import Codefest.Sio.Message

/-!
# The game state (`Map.cpp`, `Game.cpp`)

`Map` is a vector of rows of `int`, and its two sizes are read off the vector:
the row count is its length and the column count is the length of row 0,
whether there is a row 0 or not. `Game::updateMap` fills a fresh vector from an
array message of array messages and replaces the map's with it in one
assignment at the end, so a null pointer on the way leaves the map as it was.

The `int64_t` of a cell goes into an `int` by an implicit conversion. Reading
outside a vector is undefined in C++; here it is `none`.
-/

namespace Codefest

open Sio

structure Map where
  map : List (List Int32) := []
  deriving DecidableEq, Repr

namespace Map

def getSizeRows (m : Map) : Nat := m.map.length

def getSizeCols (m : Map) : Option Nat := m.map[0]?.map List.length

def getMap (m : Map) : List (List Int32) := m.map

def initializeMap (m : Map) (map : List (List Int32)) : Map :=
  { m with map := map }

/-- `_map[row][col] = value`. A negative index becomes, as a `size_t`, larger
than any vector. -/
def updatePositionInMap (m : Map) (row col value : Int32) : Option Map :=
  if 0 ≤ row ∧ 0 ≤ col then
    (Grid.setCell? m.map row.toInt.toNat col.toInt.toNat value).map
      fun map => { m with map := map }
  else none

end Map

/-- The part of `Game` that is read anywhere; a fresh one has an empty map. -/
structure Game where
  mapGame : Map := {}
  deriving DecidableEq, Repr

/-- `row.push_back(r->get_int())`. -/
def readCell (r : Ptr) : Except Fault Int32 := do
  let m ← deref r
  return m.getInt.toInt32

/-- The inner loop of `updateMap`. -/
def readRow (mapRow : Ptr) : Except Fault (List Int32) := do
  let m ← deref mapRow
  m.getVector.mapM readCell

namespace Game

def updateMap (g : Game) (map : List Ptr) : Except Fault Game := do
  let newMap ← map.mapM readRow
  return { g with mapGame := g.mapGame.initializeMap newMap }

def getMapGame (g : Game) : Map := g.mapGame

def updateMaps (g : Game) (maps : List (List Ptr)) : Except Fault Game :=
  maps.foldlM updateMap g

end Game

/-! ## What the loops read -/

open Sequence

theorem readCell_eq_ok {r : Ptr} {v : Int32} :
    readCell r = .ok v ↔ ∃ m, r = some m ∧ m.getInt.toInt32 = v := by
  cases r with
  | none => simp [readCell, bind, Except.bind]
  | some m => simp [readCell, bind, Except.bind, pure, Except.pure]

theorem readRow_eq_ok {mapRow : Ptr} {row : List Int32} :
    readRow mapRow = .ok row ↔ ∃ m, mapRow = some m ∧
      List.Forall₂ (fun r v => readCell r = .ok v) m.getVector row := by
  simp only [readRow, bind_eq_ok, mapM_eq_ok, deref_eq_ok]

theorem updateMap_eq_ok {g g' : Game} {map : List Ptr} :
    g.updateMap map = .ok g' ↔ ∃ newMap,
      List.Forall₂ (fun mapRow row => readRow mapRow = .ok row) map newMap ∧
      g' = { g with mapGame := ⟨newMap⟩ } := by
  simp only [Game.updateMap, bind_eq_ok, mapM_eq_ok]
  refine ⟨fun h => ?_, fun h => ?_⟩
  · obtain ⟨newMap, hread, h⟩ := h
    exact ⟨newMap, hread, (Except.ok.inj h).symm⟩
  · obtain ⟨newMap, hread, rfl⟩ := h
    exact ⟨newMap, hread, rfl⟩

/-- A row fails to be read only at a null pointer: its own, or a cell's. -/
theorem exists_readRow_eq_ok {mapRow : Ptr} :
    (∃ row, readRow mapRow = .ok row) ↔
      ∃ m, mapRow = some m ∧ ∀ r ∈ m.getVector, r ≠ none := by
  have hcell : ∀ r : Ptr, (∃ v, readCell r = .ok v) ↔ r ≠ none := by
    intro r
    cases r with
    | none => simp [readCell_eq_ok]
    | some m => simp [readCell_eq_ok]
  cases mapRow with
  | none => simp [readRow, bind, Except.bind]
  | some m =>
      simp only [readRow, deref_some, bind, Except.bind, exists_mapM_eq_ok,
        hcell, Option.some.injEq, exists_eq_left']

def rowMessage (row : List Int64) : Ptr :=
  some (.array (row.map fun v => some (.integer v)))

/-- The vector that a grid of integers is handed to `updateMap` in. -/
def gridMessages (rows : List (List Int64)) : List Ptr := rows.map rowMessage

/-- What `updateMap` makes of such a grid: the same rows and columns, each
cell cut to an `int`. -/
def narrow (rows : List (List Int64)) : List (List Int32) :=
  rows.map (·.map Int64.toInt32)

theorem readRow_rowMessage (row : List Int64) :
    readRow (rowMessage row) = .ok (row.map Int64.toInt32) := by
  rw [readRow_eq_ok]
  refine ⟨_, rfl, ?_⟩
  rw [Message.getVector, List.forall₂_map_left_iff, List.forall₂_map_right_iff,
    List.forall₂_same]
  intro v _
  rfl

theorem updateMap_gridMessages (g : Game) (rows : List (List Int64)) :
    g.updateMap (gridMessages rows) =
      .ok { g with mapGame := ⟨narrow rows⟩ } := by
  rw [updateMap_eq_ok]
  refine ⟨narrow rows, ?_, rfl⟩
  rw [gridMessages, narrow, List.forall₂_map_left_iff,
    List.forall₂_map_right_iff, List.forall₂_same]
  intro row _
  exact readRow_rowMessage row

/-- Only the last of a sequence of updates is left. -/
theorem updateMaps_snoc (g : Game) (earlier : List (List (List Int64)))
    (last : List (List Int64)) :
    g.updateMaps ((earlier ++ [last]).map gridMessages) =
      .ok { g with mapGame := ⟨narrow last⟩ } := by
  induction earlier generalizing g with
  | nil =>
      show (g.updateMap (gridMessages last) >>= fun g' => pure g') = _
      rw [updateMap_gridMessages]
      rfl
  | cons rows earlier ih =>
      show (g.updateMap (gridMessages rows) >>= fun g' =>
        g'.updateMaps ((earlier ++ [last]).map gridMessages)) = _
      rw [updateMap_gridMessages]
      exact ih _

end Codefest
