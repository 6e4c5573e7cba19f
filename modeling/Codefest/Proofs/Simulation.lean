import Codefest.Proofs.Process

/-!
# The program inside the process

As long as nothing takes the root socket out of the client, the process is the
program: a packet is what the program takes a step for, or nothing to it, and
the timer cannot be seen. So the states that the program can run through are
those of the process in such runs, and what is proved of every run of the
program holds of these as well.

Only the last step is not the same. The program is over as soon as the
connection is, and the process when the timer has nothing left either.
-/

namespace Codefest

open Sio Sequence Transition System

/-- What does not end the root socket is a step of the program, nothing,
or a crash. -/
theorem ProcessStep.simulates {s t : Process} {a : ProcessAct}
    (h : ProcessStep s a t)
    (hstatus : s.program.status = .running) (hs : Sound s)
    (hl : s.lost = none) (hopen : a.closes = false) :
    t.lost = none ∧ ((∃ b, program.step s.program b = some t.program) ∨
      t.program = s.program ∨ t.program.status = .crashed) := by
  have hnone : t.lost = none := by
    rw [← Option.not_isSome_iff_eq_none, h.loses hs hl, hopen]
    simp
  refine ⟨hnone, ?_⟩
  cases h with
  | @step _ b hen hlost =>
      rw [Process.act_program hlost]
      exact .inl ⟨b, step_eq_some.mpr ⟨⟨hstatus, hen⟩, rfl⟩⟩
  | aside hk =>
      rw [hl] at hk
      cases hk
  | lose due _ hcloses =>
      rw [hopen] at hcloses
      cases hcloses
  | crash => exact .inr (.inr rfl)
  | quiet hprogram => exact .inr (.inl hprogram)

theorem simulated_run {as : List ProcessAct} {s : Process}
    (h : process.run as = some s) (hopen : ∀ a ∈ as, a.closes = false) :
    s.lost = none ∧ (s.program.status ≠ .crashed →
      ∃ bs, program.run bs = some s.program) := by
  refine run_induction (R := fun as s => (∀ a ∈ as, a.closes = false) →
    s.lost = none ∧ (s.program.status ≠ .crashed →
      ∃ bs, program.run bs = some s.program)) ?_ ?_ h hopen
  · exact fun _ => ⟨rfl, fun _ => ⟨[], rfl⟩⟩
  · intro as s a t hrun ih ha hopen
    obtain ⟨hl, hbefore⟩ := ih fun b hb => hopen b (List.mem_append_left _ hb)
    obtain ⟨hstatus, hcases⟩ := step_cases ha
    obtain ⟨bs, hbs⟩ := hbefore (by rw [hstatus]; simp)
    obtain ⟨hnone, hsim⟩ :=
      hcases.simulates hstatus (sound_run hrun) hl (hopen a (by simp))
    refine ⟨hnone, fun hnot => ?_⟩
    rcases hsim with ⟨b, hb⟩ | hsame | hcrash
    · exact ⟨bs ++ [b], run_snoc.mpr ⟨_, hbs, hb⟩⟩
    · exact ⟨bs, hsame ▸ hbs⟩
    · exact absurd hcrash hnot

/-! ## And back -/

/-- The label under which the process does what the program does. -/
def Act.label : Act → ProcessAct
  | .net .connectPacket => .packet (Packet.raw [47] .connect)
  | .net (.eventPacket msg packId) =>
      .packet { frame := .message, type := some .event, nsp := [47]
                packId := packId, message := msg }
  | a => .act a

/-- The packet that an event comes in. -/
def eventPacket (msg : Ptr) (packId : Int) : RawPacket :=
  { frame := .message, type := some .event, nsp := [47], packId := packId
    message := msg }

theorem onDecode_eventPacket (msg : Ptr) (packId : Int) :
    onDecode [[47]] (eventPacket msg packId) =
      (unpackEvent msg packId).map fun ev =>
        ev.toList.map (.event [47]) := rfl

theorem closes_label (a : Act) : a.label.closes = false := by
  cases a with
  | main a => rfl
  | net a =>
      cases a with
      | eventPacket msg packId =>
          show (rootNotices (eventPacket msg packId)).any _ = false
          rw [rootNotices, onDecode_eventPacket]
          rcases unpackEvent msg packId with e | _ | ev
          · rfl
          · rfl
          · rfl
      | _ => rfl

theorem decode_connect (s : Process) :
    (s.decode (Packet.raw [47] .connect)).program =
      Act.effect s.program (.net .connectPacket) ∧
      (s.decode (Packet.raw [47] .connect)).lost = s.lost := by
  by_cases hs : s.program.client.socket.isSome = true
  · have hdec : s.decode (Packet.raw [47] .connect) =
        s.act (.net .connectPacket) := by
      rw [Process.decode, namespaces_isSome hs]
      rfl
    rw [hdec]
    exact ⟨Process.act_program fun _ => rfl, s.act_lost _⟩
  · have hdec : s.decode (Packet.raw [47] .connect) = s := by
      rw [Process.decode, namespaces_isNone hs]
      rfl
    have hnone : s.program.client.socket = none := by simpa using hs
    have hclient : s.program.client.onSocket Socket.onConnected =
        s.program.client := by
      rw [Client.onSocket, hnone]
      exact congrArg (fun k => { s.program.client with socket := k }) hnone.symm
    rw [hdec, Act.effect, NetAct.effect, hclient]
    exact ⟨rfl, rfl⟩

theorem decode_eventPacket {s : Process} (msg : Ptr) (packId : Int)
    (hs : s.program.client.socket.isSome = true) :
    (s.decode (eventPacket msg packId)).program =
      s.program.deliver msg packId ∧
      (s.decode (eventPacket msg packId)).lost = s.lost := by
  rw [Process.decode, namespaces_isSome hs, onDecode_eventPacket]
  cases hev : unpackEvent msg packId with
  | error e =>
      rw [State.deliver, hev]
      exact ⟨rfl, rfl⟩
  | ok ev =>
      cases ev with
      | none =>
          rw [State.deliver, hev]
          exact ⟨rfl, rfl⟩
      | some ev =>
          show (s.act (.net (.eventPacket msg packId))).program = _ ∧
            (s.act (.net (.eventPacket msg packId))).lost = _
          exact ⟨Process.act_program fun _ => rfl, s.act_lost _⟩

/-- Every step but the last can be taken. -/
theorem label_step {s : Process} {t : State} {a : Act}
    (hl : s.lost = none) (hfinish : a.finishes = false)
    (h : program.step s.program a = some t) :
    ∃ s', process.step s a.label = some s' ∧ s'.lost = none ∧
      s'.program = t := by
  obtain ⟨⟨hstatus, hen⟩, rfl⟩ := step_eq_some.mp h
  have hact : a.isPacket = false → a.label = .act a →
      ∃ s', process.step s a.label = some s' ∧ s'.lost = none ∧
        s'.program = a.effect s.program := by
    intro hpacket hlabel
    have hcurrent : s.current = s.program := by rw [Process.current, hl]
    have hnot : s.lost.isSome = true → a.onCurrent = false := by
      rw [hl]
      exact fun hsome => by cases hsome
    rw [hlabel]
    refine ⟨s.act a, process_step_eq_some.mpr ⟨⟨hstatus, ?_⟩, rfl⟩,
      (s.act_lost a).trans hl, Process.act_program hnot⟩
    simp [ProcessAct.enabled, hpacket, hfinish, hcurrent, hen]
  cases a with
  | main a => exact hact rfl rfl
  | net a =>
      cases a with
      | connectPacket =>
          have hat := by simpa [Act.enabled, NetAct.enabled] using hen
          obtain ⟨hprogram, hlost⟩ := decode_connect s
          refine ⟨_, process_step_eq_some.mpr ⟨⟨hstatus, ?_⟩, rfl⟩,
            hlost.trans hl, hprogram⟩
          simp [Act.label, ProcessAct.enabled, hat]
      | eventPacket msg packId =>
          have hat := by simpa [Act.enabled, NetAct.enabled] using hen
          obtain ⟨hprogram, hlost⟩ := decode_eventPacket msg packId hat.2.2
          refine ⟨_, process_step_eq_some.mpr ⟨⟨hstatus, ?_⟩, rfl⟩,
            hlost.trans hl, hprogram⟩
          simp [Act.label, ProcessAct.enabled, hat]
      | _ => exact hact rfl rfl

theorem label_run {as : List Act} {s : State} (h : program.run as = some s)
    (hfinish : ∀ a ∈ as, a.finishes = false) :
    ∃ t, process.run (as.map Act.label) = some t ∧ t.lost = none ∧
      t.program = s := by
  refine run_induction (R := fun as s => (∀ a ∈ as, a.finishes = false) →
    ∃ t, process.run (as.map Act.label) = some t ∧ t.lost = none ∧
      t.program = s) ?_ ?_ h hfinish
  · exact fun _ => ⟨{}, rfl, rfl, rfl⟩
  · intro as s a t _ ih ha hfinish
    obtain ⟨u, hu, hl, rfl⟩ := ih fun b hb =>
      hfinish b (List.mem_append_left _ hb)
    obtain ⟨v, hv, hlv, hprogram⟩ := label_step hl (hfinish a (by simp)) ha
    rw [List.map_append]
    exact ⟨v, run_snoc.mpr ⟨u, hu, hv⟩, hlv, hprogram⟩

/-- While the program runs, main has not finished. -/
theorem running_finishes {as : List Act} {s : State}
    (h : program.run as = some s) (hstatus : s.status = .running) :
    ∀ a ∈ as, a.finishes = false := by
  refine run_induction (R := fun as s => s.status = .running →
    ∀ a ∈ as, a.finishes = false) ?_ ?_ h hstatus
  · intro _ a ha
    cases ha
  · intro as s a t _ ih ha hrunning
    obtain ⟨⟨hstatus, -⟩, rfl⟩ := step_eq_some.mp ha
    intro b hb
    rcases List.mem_append.mp hb with hold | hnew
    · exact ih hstatus b hold
    · obtain rfl := List.mem_singleton.mp hnew
      cases hfinish : b.finishes with
      | false => rfl
      | true =>
          unfold Act.finishes at hfinish
          split at hfinish
          · cases hrunning
          · cases hfinish

/-- The states in which the program runs are those in which it does in the runs
of the process that do not end the root socket. -/
theorem reached_iff {s : State} (hstatus : s.status = .running) :
    (∃ as, program.run as = some s) ↔
      ∃ as t, process.run as = some t ∧ (∀ a ∈ as, a.closes = false) ∧
        t.program = s := by
  refine ⟨fun h => ?_, fun h => ?_⟩
  · obtain ⟨as, has⟩ := h
    obtain ⟨t, ht, -, hprogram⟩ := label_run has (running_finishes has hstatus)
    refine ⟨_, t, ht, fun a ha => ?_, hprogram⟩
    obtain ⟨b, -, rfl⟩ := List.mem_map.mp ha
    exact closes_label b
  · obtain ⟨as, t, ht, hopen, rfl⟩ := h
    exact (simulated_run ht hopen).2 (by rw [hstatus]; simp)

end Codefest
