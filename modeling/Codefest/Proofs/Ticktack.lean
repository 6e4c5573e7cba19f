import Codefest.Main.Listeners
import Codefest.Sio.Packet

/-!
# Malformed ticks

The listener checks nothing about its payload. A null pointer on the way to
the map or the players stops it with a fault, and the players are looked at
after the map has been replaced; a node of the wrong kind does not stop it at
all, because its accessor answers with a default, so a row that is not an array
becomes an empty row and a cell that is not an integer becomes 0.

`Reads data grid` puts that in one relation: nothing on the way is null, and
`grid` is the payload's map with the defaults in it. The listener succeeds on
exactly the payloads that read as something, and then leaves that grid. Being
all-or-nothing is therefore a matter of the payload being well formed, or of
the defaults making no difference because the grid is already there.
-/

namespace Codefest

open Sio Sequence Listening

/-- An object whose `map_info` is an object with `map` an array of arrays of
integer messages and `players` an array. -/
def WellFormed (data : Ptr) (rows : List (List Int64)) : Prop :=
  ∃ fields info players, data = some (.object fields) ∧
    index fields "map_info" = some (.object info) ∧
    index info "map" = some (.array (gridMessages rows)) ∧
    index info "players" = some (.array players)

/-- The cell is there, and is an integer or counts as 0. -/
def CellReads (r : Ptr) (v : Int32) : Prop :=
  ∃ m, r = some m ∧ m.getInt.toInt32 = v

/-- The row is there, and is an array or counts as empty. -/
def RowReads (mapRow : Ptr) (row : List Int32) : Prop :=
  ∃ m, mapRow = some m ∧ List.Forall₂ CellReads m.getVector row

/-- No pointer that the listener follows is null, and this is the grid in the
payload when every node of a wrong kind counts as empty or as 0. -/
def Reads (data : Ptr) (grid : List (List Int32)) : Prop :=
  ∃ d info map players, data = some d ∧
    index d.getMap "map_info" = some info ∧
    index info.getMap "map" = some map ∧
    index info.getMap "players" = some players ∧
    List.Forall₂ RowReads map.getVector grid

/-- No pointer that the listener follows is null. -/
def NoNull (data : Ptr) : Prop :=
  ∃ d info map players, data = some d ∧
    index d.getMap "map_info" = some info ∧
    index info.getMap "map" = some map ∧
    index info.getMap "players" = some players ∧
    ∀ mapRow ∈ map.getVector, ∃ m, mapRow = some m ∧ ∀ r ∈ m.getVector, r ≠ none

/-- All or nothing, and no null pointer followed. -/
def AllOrNothing (t : Tick) (data : Ptr) : Prop :=
  (exec (onTicktackPlayer data) t).1 = .ok () ∧
    ((∃ rows, WellFormed data rows ∧
        (exec (onTicktackPlayer data) t).2.game.mapGame.map = narrow rows) ∨
      (exec (onTicktackPlayer data) t).2.game.mapGame.map =
        t.game.mapGame.map)

/-! ## What the listener makes of it -/

theorem readRow_eq_ok_iff_reads {mapRow : Ptr} {row : List Int32} :
    readRow mapRow = .ok row ↔ RowReads mapRow row := by
  simp only [readRow_eq_ok, readCell_eq_ok, RowReads]
  rfl

theorem readPayload_eq_ok {data : Ptr} {mapInfo : Fields}
    {grid : List (List Int32)} : readPayload data = .ok (mapInfo, grid) ↔
      ∃ d info map, data = some d ∧ index d.getMap "map_info" = some info ∧
        index info.getMap "map" = some map ∧
        List.Forall₂ RowReads map.getVector grid ∧ mapInfo = info.getMap := by
  have hrows : ∀ map : Message, ∀ grid,
      List.Forall₂ (fun r row => readRow r = .ok row) map.getVector grid ↔
        List.Forall₂ RowReads map.getVector grid := by
    intro map grid
    simp only [readRow_eq_ok_iff_reads]
  simp only [readPayload, bind_eq_ok, deref_eq_ok, mapM_eq_ok, hrows]
  refine ⟨fun h => ?_, fun h => ?_⟩
  · obtain ⟨d, hd, info, hinfo, map, hmap, grid', hgrid, heq⟩ := h
    obtain ⟨rfl, rfl⟩ := Prod.mk.inj (Except.ok.inj heq)
    exact ⟨d, info, map, hd, hinfo, hmap, hgrid, rfl⟩
  · obtain ⟨d, info, map, hd, hinfo, hmap, hgrid, rfl⟩ := h
    exact ⟨d, hd, info, hinfo, map, hmap, grid, hgrid, rfl⟩

/-- The listener gets through exactly when the payload reads as a grid, and
that grid is then the game's map. -/
theorem onTicktackPlayer_ok_iff (data : Ptr) (t : Tick)
    (grid : List (List Int32)) :
    ((exec (onTicktackPlayer data) t).1 = .ok () ∧
      (exec (onTicktackPlayer data) t).2.game.mapGame.map = grid) ↔
      Reads data grid := by
  obtain ⟨hres, hgame⟩ := onTicktackPlayer_game data t
  rw [hres, hgame, updateFromPayload_exec]
  cases hread : readPayload data with
  | error e =>
      have hnot : ¬ Reads data grid := by
        intro hreads
        obtain ⟨d, info, map, players, hd, hinfo, hmap, -, hgrid⟩ := hreads
        have hok := readPayload_eq_ok.mpr
          ⟨d, info, map, hd, hinfo, hmap, hgrid, rfl⟩
        rw [hread] at hok
        cases hok
      refine ⟨fun h => ?_, fun h => ?_⟩
      · obtain ⟨hok, -⟩ := h
        cases hok
      · exact absurd h hnot
  | ok read =>
      obtain ⟨mapInfo, newMap⟩ := read
      obtain ⟨d, info, map, hd, hinfo, hmap, hgrid, rfl⟩ :=
        readPayload_eq_ok.mp hread
      show ((deref (index info.getMap "players")).map fun _ => ()) = .ok () ∧
        newMap = grid ↔ Reads data grid
      refine ⟨fun h => ?_, fun h => ?_⟩
      · obtain ⟨hplayers, rfl⟩ := h
        cases hp : index info.getMap "players" with
        | none =>
            rw [hp] at hplayers
            cases hplayers
        | some players =>
            exact ⟨d, info, map, players, hd, hinfo, hmap, hp, hgrid⟩
      · obtain ⟨d', info', map', players, hd', hinfo', hmap', hp, hgrid'⟩ := h
        have hok := readPayload_eq_ok.mpr
          ⟨d', info', map', hd', hinfo', hmap', hgrid', rfl⟩
        rw [hread] at hok
        obtain ⟨hinfos, rfl⟩ := Prod.mk.inj (Except.ok.inj hok)
        exact ⟨by rw [hinfos, hp]; rfl, rfl⟩

/-- What reads as some grid is what has no null in it. -/
theorem exists_reads_iff {data : Ptr} :
    (∃ grid, Reads data grid) ↔ NoNull data := by
  have hrows : ∀ map : Message,
      (∃ grid, List.Forall₂ RowReads map.getVector grid) ↔
        ∀ mapRow ∈ map.getVector, ∃ m, mapRow = some m ∧
          ∀ r ∈ m.getVector, r ≠ none := by
    intro map
    have hread := exists_mapM_eq_ok (f := readRow) (l := map.getVector)
    simp only [exists_readRow_eq_ok] at hread
    rw [← hread]
    simp only [mapM_eq_ok, readRow_eq_ok_iff_reads]
  refine ⟨fun h => ?_, fun h => ?_⟩
  · obtain ⟨grid, d, info, map, players, hd, hinfo, hmap, hplayers, hgrid⟩ := h
    exact ⟨d, info, map, players, hd, hinfo, hmap, hplayers,
      (hrows map).mp ⟨grid, hgrid⟩⟩
  · obtain ⟨d, info, map, players, hd, hinfo, hmap, hplayers, hall⟩ := h
    obtain ⟨grid, hgrid⟩ := (hrows map).mpr hall
    exact ⟨grid, d, info, map, players, hd, hinfo, hmap, hplayers, hgrid⟩

/-- The listener faults exactly where a pointer on its way is null. -/
theorem onTicktackPlayer_safe_iff (data : Ptr) (t : Tick) :
    (exec (onTicktackPlayer data) t).1 = .ok () ↔ NoNull data := by
  rw [← exists_reads_iff]
  refine ⟨fun hok => ?_, fun hreads => ?_⟩
  · exact ⟨_, (onTicktackPlayer_ok_iff data t _).mp ⟨hok, rfl⟩⟩
  · obtain ⟨grid, hgrid⟩ := hreads
    exact ((onTicktackPlayer_ok_iff data t grid).mpr hgrid).1

/-- The payload that a server sends for a grid of integers. -/
def tickJson (rows : List (List Int64)) (players : List Json) : Json :=
  .object [("map_info", .object
    [("map", .array (rows.map fun row => .array (row.map .int64))),
      ("players", .array players)])]

/-- It comes out of the decoder well formed. -/
theorem wellFormed_fromJson (getInt : Option Json → Int)
    (buffers : List ByteArray) (rows : List (List Int64))
    (players : List Json) :
    WellFormed (fromJson getInt buffers (tickJson rows players)) rows := by
  have hrow : ∀ row : List Int64,
      fromJson getInt buffers (.array (row.map .int64)) = rowMessage row := by
    intro row
    rw [fromJson, fromJsonArray_eq, List.map_map]
    rfl
  have hgrid : fromJsonArray getInt buffers
      (rows.map fun row => .array (row.map .int64)) = gridMessages rows := by
    rw [fromJsonArray_eq, List.map_map, gridMessages]
    exact List.map_congr_left fun row _ => hrow row
  refine ⟨[("map_info", some (.object
    [("map", some (.array (gridMessages rows))),
      ("players", some (.array (fromJsonArray getInt buffers players)))]))],
    _, _, ?_, rfl, rfl, rfl⟩
  simp [tickJson, fromJson, fromJsonMembers, Json.isPlaceholder, assign,
    List.lookup_cons, hgrid]

theorem WellFormed.reads {data : Ptr} {rows : List (List Int64)}
    (h : WellFormed data rows) : Reads data (narrow rows) := by
  obtain ⟨fields, info, players, rfl, hinfo, hmap, hplayers⟩ := h
  refine ⟨_, _, _, _, rfl, hinfo, hmap, hplayers, ?_⟩
  rw [Message.getVector, gridMessages, narrow, List.forall₂_map_left_iff,
    List.forall₂_map_right_iff, List.forall₂_same]
  intro row _
  exact readRow_eq_ok_iff_reads.mp (readRow_rowMessage row)

/-- The listener is all-or-nothing on a payload exactly when the payload is
well formed or reads as the grid that is there already. -/
theorem allOrNothing_iff (t : Tick) (data : Ptr) :
    AllOrNothing t data ↔
      (∃ rows, WellFormed data rows) ∨ Reads data t.game.mapGame.map := by
  refine ⟨fun h => ?_, fun h => ?_⟩
  · obtain ⟨hok, ⟨rows, hrows, -⟩ | hsame⟩ := h
    · exact .inl ⟨rows, hrows⟩
    · exact .inr ((onTicktackPlayer_ok_iff data t _).mp ⟨hok, hsame⟩)
  · rcases h with ⟨rows, hrows⟩ | hreads
    · have hdone := (onTicktackPlayer_ok_iff data t _).mpr hrows.reads
      exact ⟨hdone.1, .inl ⟨rows, hrows, hdone.2⟩⟩
    · have hdone := (onTicktackPlayer_ok_iff data t _).mpr hreads
      exact ⟨hdone.1, .inr hdone.2⟩

/-- What the decoder makes of a text packet whose only value is an object with
these members in its `map_info`. -/
def textPayload (info : List (String × Json)) : Ptr :=
  fromJson (fun _ => 0) [] (.object [("map_info", .object info)])

/-- Without `players` the grid is replaced and a null pointer followed; with a
string for a cell the grid is replaced by one that has a 0 there. -/
theorem allOrNothing_fails :
    ¬ AllOrNothing {} (textPayload [("map", .array [.array [.int64 7]])]) ∧
      ¬ AllOrNothing {} (textPayload
        [("map", .array [.array [.string "x"]]), ("players", .array [])]) := by
  refine ⟨fun h => ?_, fun h => ?_⟩
  · obtain ⟨hok, -⟩ := h
    cases hok
  · obtain ⟨-, ⟨rows, ⟨fields, info, players, hd, hinfo, hmap, -⟩, -⟩ |
      hsame⟩ := h
    · cases hd
      cases hinfo
      have hrows : [some (.array [some (.string "x")])] = gridMessages rows :=
        Message.array.inj (Option.some.inj hmap)
      cases rows with
      | nil => cases hrows
      | cons row rows =>
          have hrow : [some (.string "x")] =
              row.map fun v => some (Message.integer v) :=
            Message.array.inj (Option.some.inj (List.cons.inj hrows).1)
          cases row with
          | nil => cases hrow
          | cons v row => cases hrow
    · cases hsame

end Codefest
