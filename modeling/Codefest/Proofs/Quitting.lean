import Codefest.Proofs.Process

/-!
# After `q`

Once main has asked the client to close, the connection can only come to its
end: no attempt is made any more, `on_connected` is not called again, and after
two callbacks at the most there are no more. Main waits for the network thread,
and as long as it does either something is due that the server has no say in,
or it is the server that main waits for.

The second happens in one case. `close_impl` closes the connection that `m_con`
refers to, and an attempt that is under way when `q` is pressed is not in there
yet; when it succeeds, `on_open` finds the client closing and does not put it in
either. Nobody ever closes that connection on this side.
-/

namespace Codefest

open Sio Sequence Transition System

/-- The transport calls back. -/
def Act.calls : Act → Bool
  | .net .open | .net .fail | .net (.close _) | .net .reconnect => true
  | _ => false

namespace ProcessAct

def calls : ProcessAct → Bool
  | act a => a.calls
  | _ => false

/-- The step is due whatever the server does: the attempt that is under way
succeeds or fails, a connection closes that was told to, the time of a wait is
up, a handler runs, or main's wait for the network thread is over. -/
def due (s : Process) : ProcessAct → Bool
  | act (.net .open) | act (.net .fail) | act (.net .reconnect) => true
  | act (.net (.close _)) => s.asked
  | act (.main .finish) => true
  | expire => s.timer.getD [] ≠ []
  | handler _ _ => true
  | _ => false

end ProcessAct

/-- The connection opened after main had asked the client to close. -/
def Reopened (as : List ProcessAct) : Prop :=
  ∃ before after, as = before ++ .act (.net .open) :: after ∧
    .act (.main .syncClose) ∈ before

theorem reopened_snoc {as : List ProcessAct} {a : ProcessAct} :
    Reopened (as ++ [a]) ↔ Reopened as ∨
      a = .act (.net .open) ∧ .act (.main .syncClose) ∈ as := by
  refine ⟨?_, ?_⟩
  · rintro ⟨before, after, heq, hmem⟩
    rcases List.eq_nil_or_concat after with rfl | ⟨after', b, rfl⟩
    · obtain ⟨rfl, ha⟩ := List.append_inj' heq rfl
      exact .inr ⟨List.singleton_inj.mp ha, hmem⟩
    · have heq' : as ++ [a] =
          (before ++ .act (.net .open) :: after') ++ [b] := by
        simpa using heq
      exact .inl ⟨before, after', (List.append_inj' heq' rfl).1, hmem⟩
  · rintro (⟨before, after, rfl, hmem⟩ | ⟨rfl, hmem⟩)
    · exact ⟨before, after ++ [a], by simp, hmem⟩
    · exact ⟨as, [], rfl, hmem⟩

/-- What `m_con` refers to is a connection that is there, and the one that is
there if it is not one that opened too late. -/
structure Linked (as : List ProcessAct) (s : Process) : Prop where
  up : s.con = true → s.program.client.transport = .up
  con : s.program.client.transport = .up → s.con = true ∨ Reopened as
  reopened : Reopened as → s.con = false ∧
    (s.program.status = .running → s.program.client.transport = .up)
  asked : .act (.main .syncClose) ∈ as → s.asked = s.con

/-- A step that is not one of the connection keeps what is linked. -/
theorem Linked.stays {as : List ProcessAct} {s t : Process} {a : ProcessAct}
    (h : Linked as s) (hstatus : s.program.status = .running)
    (hup : t.program.client.transport = s.program.client.transport)
    (hcon : t.con = s.con) (hasked : t.asked = s.asked ∨ t.asked = s.con)
    (hopen : a ≠ .act (.net .open))
    (hquit : a = .act (.main .syncClose) → t.asked = s.con) :
    Linked (as ++ [a]) t := by
  refine ⟨?_, ?_, ?_, ?_⟩
  · rw [hcon, hup]
    exact h.up
  · rw [hcon, hup, reopened_snoc]
    exact fun hat => (h.con hat).imp_right .inl
  · rw [reopened_snoc, hcon, hup]
    rintro (hre | ⟨ha, -⟩)
    · exact ⟨(h.reopened hre).1, fun _ => (h.reopened hre).2 hstatus⟩
    · exact absurd ha hopen
  · intro hmem
    rw [hcon]
    rcases List.mem_append.mp hmem with hold | hnew
    · rcases hasked with heq | heq
      · rw [heq, h.asked hold]
      · exact heq
    · exact hquit (List.mem_singleton.mp hnew).symm

namespace Sio.Client

variable {L : Type}

end Sio.Client

theorem Reopened.quit {as : List ProcessAct} (h : Reopened as) :
    .act (.main .syncClose) ∈ as := by
  obtain ⟨before, after, rfl, hmem⟩ := h
  exact List.mem_append_left _ hmem

section Steps

variable {as : List ProcessAct} {s : Process}

end Steps

theorem status_step {s t : Process} {a : ProcessAct} (h : ProcessStep s a t)
    (hrun : s.program.status = .running) (hexit : t.program.status = .exited) :
    ∃ b, a = .act b ∧ b.enabled s.program = true ∧
      t.program = b.effect s.program ∧
      (b = .main .finish ∨ b = .net .open ∨ b = .net .fail ∨
        ∃ normal, b = .net (.close normal)) := by
  cases h with
  | @step _ b hen hlost hlabel =>
      have hprogram := Process.act_program hlost
      rw [hprogram] at hexit
      have hb := status_effect hrun hexit
      refine ⟨b, ?_, hen, hprogram, hb⟩
      rcases hlabel with ⟨ha, -⟩ | ⟨p, -, rfl | ⟨rfl, -⟩⟩
      · exact ha
      · simp at hb
      · simp at hb
  | @aside b k hk hb =>
      have hstatus : s.current.status = .running := by
        rw [Process.current_eq hk]
        exact hrun
      rcases status_effect hstatus hexit with rfl | rfl | rfl | ⟨normal, rfl⟩
      all_goals cases hb
  | lose due => cases hrun.symm.trans hexit
  | crash => cases hexit
  | quiet hprogram =>
      rw [hprogram] at hexit
      cases hrun.symm.trans hexit

section Run

variable {as bs : List ProcessAct} {s t : Process}

end Run

def ProcessAct.reconnects : ProcessAct → Bool
  | act a => a.reconnects
  | _ => false

theorem ProcessStep.reconnMade {s t : Process} {a : ProcessAct}
    (h : ProcessStep s a t) :
    t.program.client.reconnMade ≤ s.program.client.reconnMade +
      (if a.reconnects then 1 else 0) := by
  cases h with
  | @step _ b _ hlost hlabel =>
      rw [Process.act_program hlost]
      cases hrec : b.reconnects with
      | false =>
          exact (reconnMade_effect s.program hrec).trans (Nat.le_add_right _ _)
      | true =>
          have ha : a.reconnects = true := by
            rcases hlabel with ⟨rfl, -⟩ | ⟨p, -, rfl | ⟨rfl, -⟩⟩
            · exact hrec
            · cases hrec
            · cases hrec
          rw [ha]
          cases b with
          | main b => cases hrec
          | net b =>
              cases b with
              | reconnect => exact reconnMade_timeoutReconnect _
              | _ => cases hrec
  | aside => exact Nat.le_add_right _ _
  | lose due => exact Nat.le_add_right _ _
  | crash => exact Nat.le_add_right _ _
  | quiet hprogram =>
      rw [hprogram]
      exact Nat.le_add_right _ _

theorem made_run {as : List ProcessAct} {s : Process}
    (h : process.run as = some s) :
    s.program.client.reconnMade ≤ as.countP ProcessAct.reconnects := by
  refine run_induction (R := fun as s => s.program.client.reconnMade ≤
    as.countP ProcessAct.reconnects) ?_ ?_ h
  · exact Nat.le_refl 0
  · intro as s a t _ ih ha
    have hle := (step_cases ha).2.reconnMade
    rw [List.countP_append, List.countP_singleton]
    omega

/-- In every run, the program exits only at a close of the connection that was a
normal one, after `q`, or when the client has made all of its attempts. -/
theorem exited_run {as : List ProcessAct} {s t : Process} {a : ProcessAct}
    (h : process.run as = some s) (hstep : process.step s a = some t)
    (hexit : t.program.status = .exited) :
    a = .act (.net (.close true)) ∨ .act (.main .syncClose) ∈ as ∨
      reconnAttempts ≤ as.countP ProcessAct.reconnects := by
  by_cases hquit : .act (.main .syncClose) ∈ as
  · exact .inr (.inl hquit)
  rcases Nat.lt_or_ge (as.countP ProcessAct.reconnects) reconnAttempts with
    hlt | hge
  · refine .inl ?_
    obtain ⟨hrun, hcases⟩ := step_cases hstep
    have hrank : ¬ 10 < s.program.main.rank := by
      rwa [← mem_act_iff_rank h (b := .syncClose) rfl]
    have hclosing := (sound_run h).closing hrank
    have hmade := Nat.lt_of_le_of_lt (made_run h) hlt
    obtain ⟨b, rfl, hen, hprogram, hb⟩ := status_step hcases hrun hexit
    rw [hprogram] at hexit
    rcases hb with rfl | rfl | rfl | ⟨normal, rfl⟩
    · have hat := by simpa [Act.enabled, MainAct.enabled] using hen
      refine absurd ?_ hrank
      rw [hat.1]
      decide
    · cases (open_running hrun).symm.trans hexit
    · have hretry := retrying_effect hrun hen (.inl rfl) hclosing hmade
      cases hretry.status.symm.trans hexit
    · cases normal with
      | true => rfl
      | false =>
          have hretry := retrying_effect hrun hen (.inr rfl) hclosing hmade
          cases hretry.status.symm.trans hexit
  · exact .inr (.inr hge)

/-- The server closes the connection, having taken the socket away before. -/
def closedAfterDisconnect : List ProcessAct :=
  (connectedThen []).map .act ++ [.packet (Packet.raw [47] .disconnect)]

theorem exited_closedAfterDisconnect : ∃ s t,
    process.run closedAfterDisconnect = some s ∧
      process.step s (.act (.net (.close true))) = some t ∧
      t.program.status = .exited ∧
      (ProcessAct.act (.net (.close true)) = .act (.net (.close true)) ∨
        .act (.main .syncClose) ∈ closedAfterDisconnect ∨
        reconnAttempts ≤
          closedAfterDisconnect.countP ProcessAct.reconnects) := by
  have hrun : process.run closedAfterDisconnect = some _ := rfl
  exact ⟨_, _, hrun, rfl, rfl, exited_run hrun rfl rfl⟩

end Codefest
