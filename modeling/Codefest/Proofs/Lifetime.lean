import Codefest.Sio.Lifetime

/-!
# A socket ends once, and when it has to

Once a socket has let go of its client it stays as it is, whatever is called
and whichever handlers are still due. Before that, the timer cannot be seen: the
socket is what the calls alone make of it, which is the socket of `Sio.Socket`.

What is due is never lost. A socket that was told to close while it was
connected has a handler on the way that closes it, and so has one that asks for
its namespace and gets no answer. The two wait for different things. The first
may have been cancelled and closes all the same; the second only counts as long
as its time is not up or was up in time.
-/

namespace Codefest.Sio

open Transition System Lifetime

variable {L : Type} {opened : Bool}

/-- A handler that is due runs, or something else happens. -/
theorem step_handler {s t : Lifetime L} {w : Wait} {cancelled : Bool}
    (h : (LifeAct.handler w cancelled).step s = some t) :
    (w, cancelled) ∈ s.due ∧
      t = { s with due := s.due.erase (w, cancelled) }.handle cancelled w := by
  rw [LifeAct.step] at h
  split at h
  · exact ⟨List.contains_iff_mem.mp ‹_›, (Option.some.inj h).symm⟩
  · cases h

theorem step_expire {s t : Lifetime L} (h : LifeAct.expire.step s = some t) :
    ∃ waits, s.timer = some waits ∧ t = { s with
      timer := some [], due := s.due ++ waits.map (·, false) } := by
  rw [LifeAct.step] at h
  split at h
  · cases h
  · exact ⟨_, ‹_›, (Option.some.inj h).symm⟩

theorem onClose_ended {s : Lifetime L} (h : s.client = false) :
    s.onClose = s := by
  rw [Lifetime.onClose, h]
  rfl

theorem onClose_client {s : Lifetime L} (h : s.client = true) :
    s.onClose = { s.cancel with
      client := false
      socket := s.socket.onClose
      closings := s.closings + 1 } := if_pos h

/-- Without a client no method does anything. -/
theorem step_ended {s t : Lifetime L} {a : LifeAct} (hs : s.client = false)
    (h : a.step s = some t) :
    t.client = false ∧ t.socket = s.socket ∧ t.closings = s.closings := by
  cases a with
  | expire =>
      obtain ⟨waits, -, rfl⟩ := step_expire h
      exact ⟨hs, rfl, rfl⟩
  | handler w cancelled =>
      obtain ⟨-, rfl⟩ := step_handler h
      cases w with
      | connect =>
          simp only [Lifetime.handle, Lifetime.timeoutConnection, hs]
          simp
      | close =>
          have hsame := onClose_ended (s := { s with
            due := s.due.erase (.close, cancelled) }) hs
          rw [Lifetime.handle, hsame]
          exact ⟨hs, rfl, rfl⟩
  | _ =>
      cases h
      simp [Lifetime.sendConnect, Lifetime.onConnected, Lifetime.onDisconnect,
        Lifetime.onClose, Lifetime.close, Lifetime.sendPacket, hs]

/-- With a client a step either keeps it, or ends the socket. -/
theorem step_client {s t : Lifetime L} {a : LifeAct} (hs : s.client = true)
    (h : a.step s = some t) :
    t.client = true ∧ t.closings = s.closings ∨
      t.client = false ∧ t.closings = s.closings + 1 ∧
        t.socket = s.socket.onClose := by
  have hclose : ∀ {s' : Lifetime L}, s'.client = true →
      s'.onClose.client = false ∧ s'.onClose.closings = s'.closings + 1 ∧
        s'.onClose.socket = s'.socket.onClose := by
    intro s' hs'
    rw [onClose_client hs']
    exact ⟨rfl, rfl, rfl⟩
  cases a with
  | expire =>
      obtain ⟨waits, -, rfl⟩ := step_expire h
      exact .inl ⟨hs, rfl⟩
  | handler w cancelled =>
      obtain ⟨-, rfl⟩ := step_handler h
      cases w with
      | connect =>
          rw [Lifetime.handle, Lifetime.timeoutConnection]
          split
          · exact .inr (hclose hs)
          · exact .inl ⟨hs, rfl⟩
      | close => exact .inr (hclose hs)
  | onClose =>
      cases h
      exact .inr (hclose hs)
  | close =>
      cases h
      rw [Lifetime.close]
      split <;> exact .inl ⟨hs, rfl⟩
  | _ =>
      cases h
      simp [Lifetime.sendConnect, Lifetime.onConnected, Lifetime.onDisconnect,
        Lifetime.sendPacket, Lifetime.arm, Lifetime.cancel, hs]

theorem create_client (L : Type) (opened : Bool) :
    (create opened : Lifetime L).client = true ∧
      (create opened : Lifetime L).closings = 0 := by
  cases opened <;> exact ⟨rfl, rfl⟩

/-- The closings count whether there is a client. -/
theorem closings_run {as : List LifeAct} {s : Lifetime L}
    (h : (lifetime L opened).run as = some s) :
    s.closings = if s.client then 0 else 1 := by
  refine run_induction (R := fun _ (s : Lifetime L) =>
    s.closings = if s.client then 0 else 1) ?_ ?_ h
  · obtain ⟨hclient, hzero⟩ := create_client L opened
    show (create opened : Lifetime L).closings = _
    rw [hzero]
    exact (if_pos hclient).symm
  · intro as s a t _ ih ha
    cases hs : s.client with
    | true =>
        rw [hs] at ih
        rcases step_client hs ha with ⟨ht, hsame⟩ | ⟨ht, hmore, -⟩
        · rw [ht, hsame, ih]
        · rw [ht, hmore, ih]
          rfl
    | false =>
        rw [hs] at ih
        obtain ⟨ht, -, hsame⟩ := step_ended hs ha
        rw [ht, hsame, ih]

/-- The socket is empty when the client goes. -/
theorem emptied_run {as : List LifeAct} {s : Lifetime L}
    (h : (lifetime L opened).run as = some s) (hs : s.client = false) :
    s.socket.connected = false ∧ s.socket.packetQueue = [] := by
  refine run_induction (R := fun _ (s : Lifetime L) => s.client = false →
    s.socket.connected = false ∧ s.socket.packetQueue = []) ?_ ?_ h hs
  · intro hfalse
    have hclient : (create opened : Lifetime L).client = false := hfalse
    rw [(create_client L opened).1] at hclient
    cases hclient
  · intro as s a t _ ih ha ht
    cases hs : s.client with
    | true =>
        rcases step_client hs ha with ⟨hclient, -⟩ | ⟨-, -, hsocket⟩
        · rw [ht] at hclient
          cases hclient
        · rw [hsocket]
          exact ⟨rfl, rfl⟩
    | false =>
        rw [(step_ended hs ha).2.1]
        exact ih hs

/-- Once the client is gone the socket is empty and stays as it is, and it has
been closed once. -/
theorem ended_run {as : List LifeAct} {s : Lifetime L}
    (h : (lifetime L opened).run as = some s) :
    s.closings ≤ 1 ∧ ∀ before after t, as = before ++ after →
      (lifetime L opened).run before = some t → t.client = false →
        s.client = false ∧ s.socket = t.socket ∧ s.closings = 1 ∧
          s.socket.connected = false ∧ s.socket.packetQueue = [] := by
  have hclosings := closings_run h
  refine ⟨by rw [hclosings]; split <;> simp, ?_⟩
  rintro before after t rfl ht hclient
  obtain ⟨t', ht', hafter⟩ := run_append.mp h
  obtain rfl : t = t' := Option.some.inj (ht.symm.trans ht')
  obtain ⟨hs, hsocket⟩ := runFrom_invariant
    (I := fun s => s.client = false ∧ s.socket = t.socket)
    (fun s a s' hs ha => by
      obtain ⟨hclient', hsocket', -⟩ := step_ended hs.1 ha
      exact ⟨hclient', hsocket'.trans hs.2⟩) ⟨hclient, rfl⟩ hafter
  have hempty := emptied_run ht hclient
  rw [hs] at hclosings
  rw [hsocket]
  exact ⟨hs, rfl, hclosings, hempty.1, hempty.2⟩

/-- The server closes the namespace, and the program goes on. -/
theorem ended_closed : ∃ s t : Lifetime Unit,
    (lifetime Unit true).run [.onConnected, .onClose, .sendPacket .connect,
        .onOpen] = some s ∧
      (lifetime Unit true).run [.onConnected, .onClose] = some t ∧
      s.socket = t.socket := by
  have hrun : (lifetime Unit true).run [.onConnected, .onClose,
      .sendPacket .connect, .onOpen] = some _ := rfl
  have hclosed : (lifetime Unit true).run [.onConnected, .onClose] =
      some _ := rfl
  have hsame := (ended_run hrun).2 [.onConnected, .onClose] _ _ rfl hclosed rfl
  exact ⟨_, _, hrun, hclosed, hsame.2.1⟩

/-! ## The handlers on the way -/

/-- What a step does to the waits and the handlers that are due. -/
inductive Timed (s t : Lifetime L) : LifeAct → Prop
  | ended {a : LifeAct} : t.client = false → Timed s t a
  | same {a : LifeAct} : t.timer = s.timer → t.due = s.due → Timed s t a
  | cancelled : t.timer = none → t.due = s.cancel.due →
      Timed s t .onConnected
  | armed {a : LifeAct} {w : Wait} : t.timer = some [w] →
      t.due = s.cancel.due → Timed s t a
  | expired {waits : List Wait} : s.timer = some waits →
      t.due = s.due ++ waits.map (·, false) → Timed s t .expire
  | heard : t.timer = s.timer → t.due = s.due.erase (.connect, true) →
      Timed s t (.handler .connect true)

theorem onClose_closed (s : Lifetime L) : s.onClose.client = false := by
  rw [Lifetime.onClose]
  split
  · rfl
  · simpa using ‹¬ s.client = true›

theorem step_timed {s t : Lifetime L} {a : LifeAct} (h : a.step s = some t) :
    Timed s t a := by
  cases hs : s.client with
  | false => exact .ended (step_ended hs h).1
  | true =>
      cases a with
      | onOpen =>
          cases h
          rw [Lifetime.sendConnect, if_pos hs]
          exact .armed rfl rfl
      | onConnected =>
          cases h
          rw [Lifetime.onConnected, if_pos hs]
          exact .cancelled rfl rfl
      | onDisconnect =>
          cases h
          rw [Lifetime.onDisconnect, if_pos hs]
          exact .same rfl rfl
      | onClose =>
          cases h
          exact .ended (onClose_closed s)
      | close =>
          cases h
          rw [Lifetime.close]
          split
          · exact .armed rfl rfl
          · exact .same rfl rfl
      | sendPacket p =>
          cases h
          rw [Lifetime.sendPacket, if_pos hs]
          exact .same rfl rfl
      | expire =>
          obtain ⟨waits, htimer, rfl⟩ := step_expire h
          exact .expired htimer rfl
      | handler w cancelled =>
          obtain ⟨-, rfl⟩ := step_handler h
          cases w with
          | close => exact .ended (onClose_closed _)
          | connect =>
              rw [Lifetime.handle, Lifetime.timeoutConnection]
              split
              · exact .ended (onClose_closed _)
              · rename_i hnot
                have hcancelled : cancelled = true := by
                  simpa [hs] using hnot
                subst hcancelled
                exact .heard rfl rfl

/-- The handler will run, or has a wait on the timer. -/
def Pending (w : Wait) (s : Lifetime L) : Prop :=
  w ∈ s.timer.getD [] ∨ ∃ cancelled, (w, cancelled) ∈ s.due

theorem pending_cancel {w : Wait} {s : Lifetime L} (h : Pending w s) :
    ∃ cancelled, (w, cancelled) ∈ s.cancel.due := by
  rcases h with hmem | ⟨cancelled, hmem⟩
  · exact ⟨true, List.mem_append_right _ (List.mem_map.mpr ⟨w, hmem, rfl⟩)⟩
  · exact ⟨cancelled, List.mem_append_left _ hmem⟩

/-- The socket is closed, or a handler that closes it is on the way. -/
def Closing (s : Lifetime L) : Prop := s.client = false ∨ Pending .close s

/-- A wait for closing is never given up: cancelled, it is due. -/
theorem step_closing {s t : Lifetime L} {a : LifeAct} (hs : Closing s)
    (h : a.step s = some t) : Closing t := by
  rcases hs with hs | hs
  · exact .inl (step_ended hs h).1
  · cases step_timed h with
    | ended ht => exact .inl ht
    | same htimer hdue =>
        right
        rwa [Pending, htimer, hdue]
    | cancelled _ hdue =>
        rw [Closing, Pending, hdue]
        exact .inr (.inr (pending_cancel hs))
    | armed _ hdue =>
        rw [Closing, Pending, hdue]
        exact .inr (.inr (pending_cancel hs))
    | expired htimer hdue =>
        rw [Closing, Pending, hdue]
        rcases hs with hmem | ⟨cancelled, hmem⟩
        · rw [htimer] at hmem
          exact .inr (.inr ⟨false, List.mem_append_right _
            (List.mem_map.mpr ⟨_, hmem, rfl⟩)⟩)
        · exact .inr (.inr ⟨cancelled, List.mem_append_left _ hmem⟩)
    | heard htimer hdue =>
        rw [Closing, Pending, htimer, hdue]
        rcases hs with hmem | ⟨cancelled, hmem⟩
        · exact .inr (.inl hmem)
        · exact .inr (.inr ⟨cancelled,
            (List.mem_erase_of_ne (by simp)).mpr hmem⟩)

/-- A socket that was told to close while it was connected is closed, or a
handler that closes it is on the way. -/
theorem closing_run {before after : List LifeAct} {t s : Lifetime L}
    (ht : (lifetime L opened).run before = some t)
    (hclient : t.client = true) (hconnected : t.socket.connected = true)
    (h : (lifetime L opened).run (before ++ .close :: after) = some s) :
    Closing s := by
  obtain ⟨t', ht', hafter⟩ := run_append.mp h
  obtain rfl : t = t' := Option.some.inj (ht.symm.trans ht')
  obtain ⟨u, hu, hafter⟩ := Option.bind_eq_some_iff.mp hafter
  refine runFrom_invariant (I := Closing) (fun s a s' hs ha =>
    step_closing hs ha) ?_ hafter
  have hclose : t.close = u := Option.some.inj hu
  rw [Lifetime.close, if_pos ⟨hclient, hconnected⟩] at hclose
  subst hclose
  exact .inr (.inl (List.mem_singleton.mpr rfl))

/-- The server connects a socket that is being closed, which cancels the wait
and closes it at once. -/
theorem closing_connected : ∃ s t : Lifetime Unit,
    (lifetime Unit true).run [.onConnected] = some t ∧
      (lifetime Unit true).run ([.onConnected] ++ .close :: [.onConnected]) =
        some s ∧ Closing s := by
  have ht : (lifetime Unit true).run [.onConnected] = some _ := rfl
  have hs : (lifetime Unit true).run ([.onConnected] ++ .close ::
      [.onConnected]) = some _ := rfl
  exact ⟨_, _, ht, hs, closing_run ht rfl rfl hs⟩

/-- The socket is closed, its time for an answer runs or is up, or it is told
to close. -/
def Asking (s : Lifetime L) : Prop :=
  Closing s ∨ .connect ∈ s.timer.getD [] ∨ (.connect, false) ∈ s.due

theorem step_asking {s t : Lifetime L} {a : LifeAct} (hs : Asking s)
    (ha : a ≠ .onConnected) (h : a.step s = some t) : Asking t := by
  rcases hs with hs | hs
  · exact .inl (step_closing hs h)
  · cases step_timed h with
    | ended ht => exact .inl (.inl ht)
    | same htimer hdue =>
        right
        rwa [htimer, hdue]
    | cancelled _ _ => exact absurd rfl ha
    | @armed _ w htimer _ =>
        cases w with
        | connect =>
            right
            rw [htimer]
            exact .inl (List.mem_singleton.mpr rfl)
        | close =>
            left
            rw [Closing, Pending, htimer]
            exact .inr (.inl (List.mem_singleton.mpr rfl))
    | expired htimer hdue =>
        right
        rw [hdue]
        rcases hs with hmem | hmem
        · rw [htimer] at hmem
          exact .inr (List.mem_append_right _
            (List.mem_map.mpr ⟨_, hmem, rfl⟩))
        · exact .inr (List.mem_append_left _ hmem)
    | heard htimer hdue =>
        right
        rw [htimer, hdue]
        exact hs.imp_right (List.mem_erase_of_ne (by simp)).mpr

/-- With nothing on the timer and nothing due, such a socket is closed. -/
theorem Asking.closed {s : Lifetime L} (h : Asking s)
    (htimer : s.timer.getD [] = []) (hdue : s.due = []) :
    s.client = false := by
  rw [Asking, Closing, Pending, htimer, hdue] at h
  simpa using h

/-- The constructor asks when the client is connected, and `on_open` asks. -/
theorem asking_sendConnect (s : Lifetime L) : Asking s.sendConnect := by
  rw [Lifetime.sendConnect]
  split
  · exact .inr (.inl (List.mem_singleton.mpr rfl))
  · rename_i hclosed
    exact .inl (.inl (by simpa using hclosed))

/-- A socket that has asked for its namespace, when it was made or when the
connection opened, and is not answered is closed, or a handler that closes it is
on the way: drops in between do not matter. When nothing is on the way any more,
it is closed. -/
theorem asking_run {before after : List LifeAct} {s : Lifetime L}
    (h : (lifetime L opened).run (before ++ after) = some s)
    (hasks : before = [] ∧ opened = true ∨ before.getLast? = some .onOpen)
    (hafter : ∀ a ∈ after, a ≠ .onConnected) :
    Asking s ∧ (s.timer.getD [] = [] → s.due = [] → s.client = false) := by
  obtain ⟨u, hu, hrest⟩ := run_append.mp h
  have hfirst : Asking u := by
    rcases hasks with ⟨rfl, rfl⟩ | hlast
    · obtain rfl : Lifetime.create true = u := Option.some.inj hu
      exact asking_sendConnect { socket := {} }
    · obtain ⟨before, rfl⟩ := List.getLast?_eq_some_iff.mp hlast
      obtain ⟨t, -, hopen⟩ := run_snoc.mp hu
      obtain rfl : t.sendConnect = u := Option.some.inj hopen
      exact asking_sendConnect t
  have hasking : Asking s :=
    runFrom_keeps (I := Asking) (P := (· ≠ .onConnected))
      (fun s a s' hs ha hstep => step_asking hs ha hstep) hafter hfirst hrest
  exact ⟨hasking, hasking.closed⟩

/-- The socket is made over an open connection, which drops before the server
has answered. -/
theorem asking_dropped : ∃ s : Lifetime Unit,
    (lifetime Unit true).run ([] ++ [.onDisconnect, .expire]) = some s ∧
      Asking s ∧ (s.timer.getD [] = [] → s.due = [] → s.client = false) := by
  have hs : (lifetime Unit true).run ([] ++ [.onDisconnect, .expire]) =
      some _ := rfl
  exact ⟨_, hs, asking_run hs (.inl ⟨rfl, rfl⟩) (by simp)⟩

/-! ## Until then -/

/-- What the socket itself does of it. -/
def LifeAct.call? : LifeAct → Option (Socket L → Socket L)
  | onOpen => some Socket.onOpen
  | onConnected => some Socket.onConnected
  | onDisconnect => some Socket.onDisconnect
  | close => some Socket.close
  | sendPacket p => some (·.sendPacket p)
  | _ => none

/-- The calls, one after the other. -/
def calls (k : Socket L) (as : List LifeAct) : Socket L :=
  (as.filterMap LifeAct.call?).foldl (fun k f => f k) k

theorem calls_append (k : Socket L) (as bs : List LifeAct) :
    calls k (as ++ bs) = calls (calls k as) bs := by
  rw [calls, List.filterMap_append, List.foldl_append]
  rfl

theorem step_socket {s t : Lifetime L} {a : LifeAct} (h : a.step s = some t)
    (ht : t.client = true) :
    s.client = true ∧ t.socket = calls s.socket [a] := by
  have hs : s.client = true := by
    rw [← Bool.not_eq_false]
    intro hs
    rw [(step_ended hs h).1] at ht
    cases ht
  have hopen : ∀ s' : Lifetime L, s'.onClose.client ≠ true := by
    intro s'
    rw [onClose_closed s']
    simp
  refine ⟨hs, ?_⟩
  cases a with
  | onOpen =>
      cases h
      rw [Lifetime.sendConnect, if_pos hs]
      rfl
  | onConnected =>
      cases h
      rw [Lifetime.onConnected, if_pos hs]
      rfl
  | onDisconnect =>
      cases h
      rw [Lifetime.onDisconnect, if_pos hs]
      rfl
  | onClose =>
      cases h
      exact absurd ht (hopen s)
  | close =>
      cases h
      rw [Lifetime.close]
      split
      · rfl
      · rename_i hnot
        have hdown : ¬ s.socket.connected = true := fun hup => hnot ⟨hs, hup⟩
        exact (if_neg hdown).symm
  | sendPacket p =>
      cases h
      rw [Lifetime.sendPacket, if_pos hs]
      rfl
  | expire =>
      obtain ⟨waits, -, rfl⟩ := step_expire h
      rfl
  | handler w cancelled =>
      obtain ⟨-, rfl⟩ := step_handler h
      cases w with
      | close => exact absurd ht (hopen _)
      | connect =>
          rw [Lifetime.handle, Lifetime.timeoutConnection] at ht ⊢
          split at ht
          · exact absurd ht (hopen _)
          · rw [if_neg ‹_›]
            rfl

/-- As long as the socket has its client, the timer and its handlers cannot be
seen: it is what the calls make of it. -/
theorem socket_run {as : List LifeAct} {s : Lifetime L}
    (h : (lifetime L opened).run as = some s) (hs : s.client = true) :
    s.socket = calls (Socket.create opened) as := by
  refine run_induction (R := fun as (s : Lifetime L) => s.client = true →
    s.socket = calls (Socket.create opened) as) ?_ ?_ h hs
  · intro _
    cases opened <;> rfl
  · intro as s a t _ ih ha ht
    obtain ⟨hclient, hsocket⟩ := step_socket ha ht
    rw [hsocket, ih hclient, calls_append]

/-- A drop and a new connection, in time. -/
theorem socket_reopened : ∃ s : Lifetime Unit,
    (lifetime Unit true).run [.onDisconnect, .onOpen, .handler .connect true,
        .onConnected] = some s ∧
      s.socket = calls (Socket.create true) [.onDisconnect, .onOpen,
        .handler .connect true, .onConnected] := by
  have hrun : (lifetime Unit true).run [.onDisconnect, .onOpen,
      .handler .connect true, .onConnected] = some _ := rfl
  exact ⟨_, hrun, socket_run hrun rfl⟩

end Codefest.Sio
