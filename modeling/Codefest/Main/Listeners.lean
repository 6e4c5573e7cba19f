import Codefest.Game.Game
import Codefest.Sio.Socket

/-!
# The messages and the listeners (`main.cpp`, up to `bind_events`)

The program emits two kinds of event, a request to join the room and a drive
command, and listens to two. The `join game` listener only reads two fields.
The `ticktack player` listener replaces the game's map from the payload, looks
at the players after that, and on every so many calls emits a fixed drive: how
many is the business of a static counter that is compared, incremented in
passing and reset.

A listener that follows a null pointer stops there, with whatever it has done
so far done. Its state is therefore threaded through the failure and not
discarded by it.
-/

namespace Codefest

open Sio

structure Emission where
  name : String
  messages : List Message

/-- `GAME_ID`, `PLAYER_ID1` and `PLAYER_ID2`. -/
def gameId : String := "32f808af-ca74-468d-8e6c-ef9f73b9b86a"

def playerId1 : String := "player1-xxx"

def playerId2 : String := "player2-xxx"

/-- What `join_room` emits. -/
def joinRoom (gameId playerId : String) : Emission :=
  { name := "join game"
    messages := [.object (insert (insert [] "game_id" (some (.string gameId)))
      "player_id" (some (.string playerId)))] }

/-- What every branch of the key switch emits, and the listener too. -/
def drivePlayer (direction : String) : Emission :=
  { name := "drive player"
    messages := [.object (insert [] "direction"
      (some (.string direction)))] }

def autoDirection : String := "1111b2222"

/-- The event asks for the player to be let in. -/
def Emission.joins (e : Emission) (playerId : String) : Bool :=
  e.name == "join game" && e.messages.any fun m =>
    (index m.getMap "player_id").any (·.getString == playerId)

def Emission.drives (e : Emission) : Bool := e.name == "drive player"

/-- The two fields that are printed. -/
def onJoinGame (data : Ptr) : Except Fault (String × String) := do
  let data ← deref data
  let gameId ← deref (index data.getMap "game_id")
  let playerId ← deref (index data.getMap "player_id")
  return (gameId.getString, playerId.getString)

/-- What the listener reads and writes: the game, its static `count`, and the
events emitted so far. -/
structure Tick where
  game : Game := {}
  count : Int := 0
  emitted : List Emission := []

/-- A listener body: the state survives the fault. -/
abbrev Listening (σ α : Type) := ExceptT Fault (StateM σ) α

/-- The part of the listener that reads the payload. -/
def updateFromPayload (data : Ptr) : Listening Game Unit := do
  let data ← deref data
  let info ← deref (index data.getMap "map_info")
  let mapInfo := info.getMap
  let map ← deref (index mapInfo "map")
  let elBombGame ← get
  set (← elBombGame.updateMap map.getVector)
  let players ← deref (index mapInfo "players")
  let _players := players.getVector

/-- `count++ > 20`: the test, and the counter after it. -/
def tickTest (count : Int) : Bool × Int := (count > 20, count + 1)

/-- The block at the end of the listener. -/
def autoDrive : Listening Tick Unit := do
  let (fires, count) := tickTest (← get).count
  modify fun t => { t with count := count }
  if fires then
    modify fun t =>
      { t with emitted := t.emitted ++ [drivePlayer autoDirection] }
    modify fun t => { t with count := 0 }

/-- The whole listener: the payload is read into the game, which keeps what a
fault left there, and only without a fault is the last block reached. -/
def onTicktackPlayer (data : Ptr) : Listening Tick Unit := do
  let t ← get
  let update := (updateFromPayload data).run.run t.game
  set { t with game := update.2 }
  liftM update.1
  autoDrive

/-! ## Running a listener body

What one statement does to the result and the state, so that a body is run by
rewriting. -/

namespace Listening

variable {σ α β : Type}

def exec (x : Listening σ α) (s : σ) : Except Fault α × σ := x.run.run s

theorem exec_bind (x : Listening σ α) (f : α → Listening σ β) (s : σ) :
    exec (x >>= f) s = match exec x s with
      | (.ok a, s') => exec (f a) s'
      | (.error e, s') => (.error e, s') := by
  show (match exec x s with
    | (r, s') => (ExceptT.bindCont f r).run s') = _
  rcases exec x s with ⟨r, s'⟩
  cases r <;> rfl

@[simp] theorem exec_pure (a : α) (s : σ) :
    exec (pure a : Listening σ α) s = (.ok a, s) := rfl

@[simp] theorem exec_lift (x : Except Fault α) (s : σ) :
    exec (liftM x : Listening σ α) s = (x, s) := by
  cases x <;> rfl

@[simp] theorem exec_get (s : σ) :
    exec (get : Listening σ σ) s = (.ok s, s) := rfl

@[simp] theorem exec_set (s t : σ) :
    exec (set t : Listening σ PUnit) s = (.ok ⟨⟩, t) := rfl

@[simp] theorem exec_modify (f : σ → σ) (s : σ) :
    exec (modify f : Listening σ PUnit) s = (.ok ⟨⟩, f s) := rfl

end Listening

open Listening

/-- The pointers followed before the update, and the map that comes of it. -/
def readPayload (data : Ptr) : Except Fault (Fields × List (List Int32)) := do
  let data ← deref data
  let info ← deref (index data.getMap "map_info")
  let map ← deref (index info.getMap "map")
  let newMap ← map.getVector.mapM readRow
  return (info.getMap, newMap)

/-- A fault before the update leaves the game alone; a null `players` after it
does not. -/
theorem updateFromPayload_exec (data : Ptr) (g : Game) :
    exec (updateFromPayload data) g =
      match readPayload data with
      | .error e => (.error e, g)
      | .ok (mapInfo, newMap) =>
          ((deref (index mapInfo "players")).map fun _ => (),
            { g with mapGame := ⟨newMap⟩ }) := by
  simp only [updateFromPayload, exec_bind, exec_lift, exec_get, exec_set,
    exec_pure]
  simp only [readPayload, Game.updateMap, bind, Except.bind]
  cases deref data with
  | error e => rfl
  | ok data =>
      dsimp only
      cases deref (index data.getMap "map_info") with
      | error e => rfl
      | ok info =>
          dsimp only
          cases deref (index info.getMap "map") with
          | error e => rfl
          | ok map =>
              dsimp only
              cases map.getVector.mapM readRow with
              | error e => rfl
              | ok newMap =>
                  dsimp only [pure, Except.pure]
                  cases deref (index info.getMap "players") <;> rfl

theorem autoDrive_exec (t : Tick) :
    exec autoDrive t = (.ok (), if t.count > 20 then
        { t with
          emitted := t.emitted ++ [drivePlayer autoDirection], count := 0 }
      else { t with count := t.count + 1 }) := by
  by_cases h : t.count > 20
  · simp [autoDrive, tickTest, exec_bind, h]
  · simp [autoDrive, tickTest, exec_bind, h]

/-- The last block is reached when the payload was read, and starts on the game
that reading it left. -/
theorem onTicktackPlayer_exec (data : Ptr) (t : Tick) :
    exec (onTicktackPlayer data) t =
      match exec (updateFromPayload data) t.game with
      | (.ok _, game) => exec autoDrive { t with game := game }
      | (.error e, game) => (.error e, { t with game := game }) := by
  simp only [onTicktackPlayer, exec_bind, exec_get, exec_set, exec_lift]
  rw [← exec]
  rcases exec (updateFromPayload data) t.game with ⟨result, game⟩
  cases result <;> rfl

/-- The listener faults where reading the payload does, and its game is the
one that reading the payload left. -/
theorem onTicktackPlayer_game (data : Ptr) (t : Tick) :
    (exec (onTicktackPlayer data) t).1 =
        (exec (updateFromPayload data) t.game).1 ∧
      (exec (onTicktackPlayer data) t).2.game =
        (exec (updateFromPayload data) t.game).2 := by
  rw [onTicktackPlayer_exec]
  rcases exec (updateFromPayload data) t.game with ⟨result, game⟩
  cases result with
  | error e => exact ⟨rfl, rfl⟩
  | ok u =>
      show (exec autoDrive { t with game := game }).1 = .ok () ∧
        (exec autoDrive { t with game := game }).2.game = game
      rw [autoDrive_exec]
      exact ⟨rfl, by split <;> rfl⟩

end Codefest
