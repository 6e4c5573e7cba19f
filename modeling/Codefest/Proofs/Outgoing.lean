import Codefest.Proofs.Steps
import Mathlib.Data.List.TakeWhile

/-!
# The outgoing stream

Two producers append to one stream: main, a message for each command typed,
and the tick listener, a message on every 22nd tick. Whatever the interleaving,
the stream is the two requests to join followed by a shuffle of what each
producer made, and what each made is a matter of its own history alone: the
characters typed for main, the number of ticks handled for the listener.

The period is 22 because the counter is compared before it is incremented and
the tick that fires leaves it at 22 for as long as it takes to reset. `Counted`
follows the counter through the listener; between ticks it is the number of
ticks handled, modulo 22.
-/

namespace Codefest

open Sio Sequence Transition System

def Obs.emission? : Obs → Option Emission
  | emitted e => some e
  | _ => none

def outgoing (log : List Obs) : List Emission := log.filterMap Obs.emission?

def Act.typed? : Act → Option Int
  | .main (.getch r) => some r
  | _ => none

def typed (as : List Act) : List Int := as.filterMap Act.typed?

/-- The directions that were asked for before the first `q`. -/
def commandDirections (typed : List Int) : List String :=
  ((typed.map toChar).takeWhile (· ∉ quitChars)).filterMap fun c =>
    commands.lookup c

def Act.handles : Act → Bool
  | .net .tickUnlock => true
  | _ => false

def Act.fires : Act → Bool
  | .net .tickEmit => true
  | _ => false

/-! ## The counter -/

def NetPc.late : NetPc → Bool
  | tickEmit | tickReset | tickUnlock => true
  | _ => false

def KeyAction.direction? : KeyAction → Option String
  | drive direction => some direction
  | _ => none

/-- Reading one more unit, no `q` before it, asks for what the switch makes of
it. -/
theorem commandDirections_snoc {rs : List Int}
    (h : ∀ r ∈ rs, toChar r ∉ quitChars) (r : Int) :
    commandDirections (rs ++ [r]) = commandDirections rs ++
      (keyAction (toChar r)).direction?.toList := by
  have hall : ∀ c ∈ rs.map toChar, decide (c ∉ quitChars) = true := by
    intro c hc
    obtain ⟨r', hr', rfl⟩ := List.mem_map.mp hc
    exact decide_eq_true (h r' hr')
  rw [commandDirections, commandDirections, List.map_append,
    List.takeWhile_append_of_pos hall, List.filterMap_append,
    List.takeWhile_eq_self_iff.2 hall, keyAction_eq]
  congr 1
  by_cases hq : toChar r ∈ quitChars
  · simp [hq, KeyAction.direction?]
  · cases hd : commands.lookup (toChar r) with
    | none => simp [hq, hd, KeyAction.direction?]
    | some direction => simp [hq, hd, KeyAction.direction?]

theorem direction?_notified (pc : MainPc) :
    pc.notified.direction? = pc.direction? := by
  cases pc <;> rfl

/-- Only reading a unit and emitting change what main is about to emit. -/
theorem direction?_effect {s : State} {a : Act} (h : a.enabled s = true)
    (hgetch : ∀ r, a ≠ .main (.getch r)) (hdrive : a ≠ .main .drive) :
    (a.effect s).main.direction? = s.main.direction? := by
  cases a with
  | net a =>
      show (a.effect s).main.direction? = _
      by_cases ha : a = .openNotify
      · subst ha
        exact direction?_notified s.main
      · rw [net_main s ha]
  | main a =>
      cases a with
      | getch r => exact absurd rfl (hgetch r)
      | drive => exact absurd rfl hdrive
      | finish => rfl
      | test =>
          have hat : s.main = .test := by
            simpa [Act.enabled, MainAct.enabled] using h
          rw [Act.effect, MainAct.effect, hat]
          dsimp only
          split <;> rfl
      | _ =>
          have hat := by simpa [Act.enabled, MainAct.enabled] using h
          simp [Act.effect, MainAct.effect, hat, MainPc.direction?]

theorem rank_le_effect {s : State} {a : Act} (h : a.enabled s = true) :
    s.main.rank ≤ (a.effect s).main.rank := by
  cases a with
  | net a => exact Nat.le_of_eq (net_rank s a).symm
  | main a =>
      cases a with
      | finish => exact Nat.le_refl _
      | test =>
          have hat : s.main = .test := by
            simpa [Act.enabled, MainAct.enabled] using h
          rw [Act.effect, MainAct.effect, hat]
          dsimp only
          split <;> decide
      | getch r =>
          have hat : s.main = .getch := by
            simpa [Act.enabled, MainAct.enabled] using h
          rw [Act.effect, MainAct.effect, hat]
          dsimp only
          split <;> simp [MainPc.rank]
      | drive =>
          obtain ⟨direction, hat⟩ := enabled_drive h
          rw [Act.effect, effect_drive hat, hat]
          exact Nat.le_refl 9
      | _ =>
          have hat := by simpa [Act.enabled, MainAct.enabled] using h
          simp [Act.effect, MainAct.effect, hat, MainPc.rank]

/-! ## The stream along a run -/

/-- The requests that main has emitted by the time it has come this far. -/
def joins (rank : Nat) : List Emission :=
  (if 5 < rank then [joinRoom gameId playerId1] else []) ++
    (if 6 < rank then [joinRoom gameId playerId2] else [])

/-- What each producer has put into the stream so far. -/
structure Stream (as : List Act) (s : State) (keys : List String)
    (rest : List Emission) : Prop where
  outgoing : outgoing s.log = joins s.main.rank ++ rest
  late : rest ≠ [] → 6 < s.main.rank
  shuffle : Shuffle (keys.map drivePlayer)
    (List.replicate (as.countP Act.fires) (drivePlayer autoDirection)) rest
  keys : keys ++ s.main.direction?.toList = commandDirections (typed as)
  quit : (∃ r ∈ typed as, toChar r ∈ quitChars) → 9 < s.main.rank

theorem outgoing_effect (s : State) (a : Act) :
    outgoing (a.effect s).log = outgoing s.log ++ outgoing (a.obs s) := by
  rw [effect_log, outgoing, List.filterMap_append]
  rfl

def Act.Emits (a : Act) : Prop :=
  a = .main .joinRoom1 ∨ a = .main .joinRoom2 ∨ a = .main .drive ∨
    a = .net .tickEmit

theorem outgoing_obs {s : State} {a : Act} (ha : ¬ a.Emits) :
    outgoing (a.obs s) = [] := by
  rw [outgoing, List.filterMap_eq_nil_iff]
  intro o ho
  rcases mem_obs.mp ho with ⟨h, -⟩ | ⟨h, -⟩ | ⟨h, -⟩ | ⟨h, -⟩ | ⟨-, -, rfl⟩ |
    ⟨-, rfl⟩ | ⟨_, _, _, -, -, rfl⟩
  · exact absurd (.inl h) ha
  · exact absurd (.inr (.inl h)) ha
  · exact absurd (.inr (.inr (.inl h))) ha
  · exact absurd (.inr (.inr (.inr h))) ha
  all_goals rfl

theorem typed_snoc (as : List Act) (a : Act) :
    typed (as ++ [a]) = typed as ++ a.typed?.toList := by
  rw [typed, List.filterMap_append]
  cases h : a.typed? <;> simp [h, typed]

theorem typed_eq {a : Act} (ha : a.typed? = none) (as : List Act) :
    typed (as ++ [a]) = typed as := by
  rw [typed_snoc, ha]
  exact List.append_nil _

theorem fires_snoc (as : List Act) (a : Act) :
    (as ++ [a]).countP Act.fires =
      as.countP Act.fires + if a.fires then 1 else 0 := by
  rw [List.countP_append, List.countP_singleton]

section Steps

variable {as : List Act} {s : State} {keys : List String}
  {rest : List Emission}

/-- A step that neither emits nor reads a unit leaves everything as it is. -/
theorem stream_silent {a : Act} (hen : a.enabled s = true) (ha : ¬ a.Emits)
    (hgetch : ∀ r, a ≠ .main (.getch r)) (hs : Stream as s keys rest) :
    Stream (as ++ [a]) (a.effect s) keys rest := by
  simp only [Act.Emits, not_or] at ha
  obtain ⟨hjoin₁, hjoin₂, hdrive, htick⟩ := ha
  have h5 := rank_lt_effect hen (b := .joinRoom1) rfl
  have h6 := rank_lt_effect hen (b := .joinRoom2) rfl
  have hle := rank_le_effect hen
  have htyped : typed (as ++ [a]) = typed as := by
    refine typed_eq ?_ as
    cases a with
    | net a => rfl
    | main a =>
        cases a with
        | getch r => exact absurd rfl (hgetch r)
        | _ => rfl
  have hfires : (as ++ [a]).countP Act.fires = as.countP Act.fires := by
    rw [fires_snoc]
    cases a with
    | main a => rfl
    | net a =>
        cases a with
        | tickEmit => exact absurd rfl htick
        | _ => rfl
  have hjoins : joins (a.effect s).main.rank = joins s.main.rank := by
    simp only [joins, h5, h6, hjoin₁, hjoin₂, false_or]
  refine ⟨?_, ?_, ?_, ?_, ?_⟩
  · rw [outgoing_effect, outgoing_obs (by simp [Act.Emits, *]),
      List.append_nil, hjoins]
    exact hs.outgoing
  · intro hrest
    exact h6.mpr (.inr (hs.late hrest))
  · rw [hfires]
    exact hs.shuffle
  · rw [direction?_effect hen hgetch hdrive, htyped]
    exact hs.keys
  · rw [htyped]
    intro hquit
    exact Nat.lt_of_lt_of_le (hs.quit hquit) hle

theorem stream_getch {r : Int} (hat : s.main = .getch)
    (hs : Stream as s keys rest) :
    Stream (as ++ [.main (.getch r)]) (Act.effect s (.main (.getch r))) keys
      rest := by
  have hnone : ∀ r' ∈ typed as, toChar r' ∉ quitChars := by
    intro r' hr' hquit
    have hrank := hs.quit ⟨r', hr', hquit⟩
    rw [hat] at hrank
    exact absurd hrank (by decide)
  have hdir : (Act.effect s (.main (.getch r))).main.direction? =
      (keyAction (toChar r)).direction? := by
    rw [Act.effect, MainAct.effect]
    cases keyAction (toChar r) <;> rfl
  have hrank : 8 < (Act.effect s (.main (.getch r))).main.rank := by
    rw [Act.effect, MainAct.effect]
    cases keyAction (toChar r) <;> simp [MainPc.rank]
  have hkeys := hs.keys
  rw [hat] at hkeys
  refine ⟨?_, ?_, ?_, ?_, ?_⟩
  · have h5 : 5 < (Act.effect s (.main (.getch r))).main.rank := by omega
    have h6 : 6 < (Act.effect s (.main (.getch r))).main.rank := by omega
    have hjoins := hs.outgoing
    rw [hat] at hjoins
    rw [joins, if_pos h5, if_pos h6]
    exact hjoins
  · exact fun _ => by omega
  · rw [fires_snoc]
    exact hs.shuffle
  · rw [hdir, typed_snoc]
    show _ = commandDirections (typed as ++ [r])
    rw [commandDirections_snoc hnone, ← hkeys]
    simp [MainPc.direction?]
  · rintro ⟨r', hr', hquit⟩
    rw [typed_snoc] at hr'
    rcases List.mem_append.mp hr' with hmem | hmem
    · exact absurd hquit (hnone r' hmem)
    · obtain rfl : r' = r := List.mem_singleton.mp hmem
      rw [Act.effect, MainAct.effect, keyAction_eq_quit.mpr hquit]
      show 9 < 10
      omega

theorem stream_drive {direction : String} (hat : s.main = .drive direction)
    (hs : Stream as s keys rest) :
    Stream (as ++ [.main .drive]) (Act.effect s (.main .drive))
      (keys ++ [direction]) (rest ++ [drivePlayer direction]) := by
  have heff : Act.effect s (.main .drive) =
      { s.emit (drivePlayer direction) with main := .getch } :=
    effect_drive hat
  have hjoins := hs.outgoing
  have hkeys := hs.keys
  have hquit := hs.quit
  rw [hat] at hjoins hkeys hquit
  rw [heff]
  refine ⟨?_, ?_, ?_, ?_, ?_⟩
  · show outgoing (s.log ++ [.emitted (drivePlayer direction)]) = _
    rw [outgoing, List.filterMap_append, ← outgoing, hjoins,
      List.append_assoc]
    rfl
  · intro _
    show 6 < 9
    omega
  · rw [fires_snoc, List.map_append]
    exact hs.shuffle.snoc_left _
  · rw [typed_eq rfl]
    simpa [MainPc.direction?] using hkeys
  · rw [typed_eq rfl]
    exact hquit

theorem stream_tickEmit (hrank : 8 < s.main.rank)
    (hs : Stream as s keys rest) :
    Stream (as ++ [.net .tickEmit]) (Act.effect s (.net .tickEmit)) keys
      (rest ++ [drivePlayer autoDirection]) := by
  refine ⟨?_, ?_, ?_, ?_, ?_⟩
  · show outgoing (s.log ++ [.emitted (drivePlayer autoDirection)]) = _
    rw [outgoing, List.filterMap_append, ← outgoing, hs.outgoing,
      List.append_assoc]
    rfl
  · intro _
    show 6 < s.main.rank
    omega
  · rw [fires_snoc]
    show Shuffle _ (List.replicate (as.countP Act.fires + 1) _) _
    rw [List.replicate_succ']
    exact hs.shuffle.snoc_right _
  · rw [typed_eq rfl]
    exact hs.keys
  · rw [typed_eq rfl]
    exact hs.quit

/-- While main makes its requests there is nothing else in the stream. -/
theorem stream_joinRoom {a : Act}
    (ha : a = .main .joinRoom1 ∨ a = .main .joinRoom2)
    (hen : a.enabled s = true) (hs : Stream as s keys rest) :
    Stream (as ++ [a]) (a.effect s) keys rest := by
  have hle := rank_le_effect hen
  have hrest : s.main.rank ≤ 6 → rest = [] := by
    intro hrank
    by_contra hne
    have hlate := hs.late hne
    omega
  have htyped : typed (as ++ [a]) = typed as := by
    rcases ha with rfl | rfl <;> exact typed_eq rfl as
  refine ⟨?_, ?_, ?_, ?_, ?_⟩
  · rw [outgoing_effect, hs.outgoing]
    rcases ha with rfl | rfl
    · obtain ⟨hpre, hpost⟩ := enabled_rank (a := .joinRoom1) hen rfl
      rw [hrest (by omega), hpre]
      rfl
    · obtain ⟨hpre, hpost⟩ := enabled_rank (a := .joinRoom2) hen rfl
      rw [hrest (by omega), hpre]
      rfl
  · intro hne
    exact Nat.lt_of_lt_of_le (hs.late hne) hle
  · rcases ha with rfl | rfl <;>
    · rw [fires_snoc]
      exact hs.shuffle
  · rw [htyped, direction?_effect hen (by rcases ha with rfl | rfl <;> simp)
      (by rcases ha with rfl | rfl <;> simp)]
    exact hs.keys
  · rw [htyped]
    exact fun hq => Nat.lt_of_lt_of_le (hs.quit hq) hle

theorem stream_step {a : Act} (h : program.run as = some s)
    (hen : a.enabled s = true) (hs : Stream as s keys rest) :
    ∃ keys' rest', Stream (as ++ [a]) (a.effect s) keys' rest' := by
  by_cases hjoin : a = .main .joinRoom1 ∨ a = .main .joinRoom2
  · exact ⟨keys, rest, stream_joinRoom hjoin hen hs⟩
  by_cases hdrive : a = .main .drive
  · subst hdrive
    obtain ⟨direction, hat⟩ := enabled_drive hen
    exact ⟨_, _, stream_drive hat hs⟩
  by_cases htick : a = .net .tickEmit
  · subst htick
    have hat := by simpa [Act.enabled, NetAct.enabled] using hen
    have hrank := rank_of_ticking h (by rw [hat.1]; rfl)
    exact ⟨_, _, stream_tickEmit hrank hs⟩
  by_cases hgetch : ∃ r, a = .main (.getch r)
  · obtain ⟨r, rfl⟩ := hgetch
    have hat : s.main = .getch := by
      simpa [Act.enabled, MainAct.enabled] using hen
    exact ⟨keys, rest, stream_getch hat hs⟩
  · refine ⟨keys, rest, stream_silent hen ?_ (not_exists.mp hgetch) hs⟩
    simp only [not_or] at hjoin
    simp [Act.Emits, *]

end Steps

theorem stream_run {as : List Act} {s : State} (h : program.run as = some s) :
    ∃ keys rest, Stream as s keys rest := by
  refine run_induction (R := fun as s => ∃ keys rest, Stream as s keys rest)
    ?_ ?_ h
  · refine ⟨[], [], ?_⟩
    constructor <;> simp [program, outgoing, joins, typed, commandDirections,
      MainPc.rank, MainPc.direction?, Shuffle.nil]
  · intro as s a t hrun hs ha
    obtain ⟨⟨-, hen⟩, rfl⟩ := step_eq_some.mp ha
    obtain ⟨keys, rest, hs⟩ := hs
    exact stream_step hrun hen hs

end Codefest
