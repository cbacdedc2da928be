import Liso.Server.Request

/-! Several connections and the one global `request`: when the calls made for one
of them do not disturb the others. -/

namespace Liso

structure Connection where
  peer : Peer
  closed : Bool

structure System (peers : Nat) where
  request : Ptr RequestCell
  connections : Fin peers → Connection

/-- What a call made for peer `p` works on. -/
def System.session {peers : Nat} (sys : System peers) (p : Fin peers) : Session :=
  ⟨sys.request, (sys.connections p).peer, (sys.connections p).closed⟩

def System.update {peers : Nat} (sys : System peers) (p : Fin peers) (s : Session) :
    System peers :=
  ⟨s.request, Function.update sys.connections p ⟨s.peer, s.closed⟩⟩

def sysStep {peers : Nat} (cfg : Config) (sys : System peers) (event : Fin peers × PeerEvent) :
    Except Fault (System peers) :=
  (sessionStep cfg (sys.session event.1) event.2).map (sys.update event.1)

def sysRun {peers : Nat} (cfg : Config) (events : List (Fin peers × PeerEvent))
    (sys : System peers) : Except Fault (System peers) :=
  Run.run (sysStep cfg) events sys

def eventsOf {peers : Nat} (p : Fin peers) (events : List (Fin peers × PeerEvent)) :
    List PeerEvent :=
  events.filterMap fun event => if event.1 = p then some event.2 else none

/-- A request is taken only while no request of another peer is underway. -/
def alone {peers : Nat} (sys : System peers) (event : Fin peers × PeerEvent) : Bool :=
  !(sys.session event.1).takes event.2 ||
    decide (∀ q, q ≠ event.1 → (sys.session q).underway = false)

variable {peers : Nat} {cfg : Config}

theorem eventsOf_snoc_same (p : Fin peers) (past : List (Fin peers × PeerEvent))
    (event : PeerEvent) : eventsOf p (past ++ [(p, event)]) = eventsOf p past ++ [event] := by
  simp [eventsOf]

theorem eventsOf_snoc_other {p q : Fin peers} (other : q ≠ p) (past : List (Fin peers × PeerEvent))
    (event : PeerEvent) : eventsOf q (past ++ [(p, event)]) = eventsOf q past := by
  simp [eventsOf, other.symm]

theorem System.session_update_same (sys : System peers) (p : Fin peers) (s : Session) :
    (sys.update p s).session p = s := by
  simp [System.update, System.session]

theorem System.session_update_other (sys : System peers) {p q : Fin peers} (other : q ≠ p)
    (s : Session) : (sys.update p s).session q = { sys.session q with request := s.request } := by
  simp [System.update, System.session, other]

/-- Each peer is where its own events alone would have led it, and at most one has a request
underway, with its own Request to come back to. -/
structure Agrees (cfg : Config) (start : System peers) (past : List (Fin peers × PeerEvent))
    (sys : System peers) : Prop where
  solo : ∀ p, ∃ request,
    sessionRun cfg (eventsOf p past) (start.session p) = .ok { sys.session p with request } ∧
      ({ sys.session p with request } : Session).Inv ∧
      ({ sys.session p with request } : Session).Owns p ∧
      ((sys.session p).underway = true → request = sys.request)
  one : ∀ p q, (sys.session p).underway = true → (sys.session q).underway = true → p = q

theorem Agrees.step {start sys next : System peers} {past : List (Fin peers × PeerEvent)}
    {event : Fin peers × PeerEvent} (agrees : Agrees cfg start past sys)
    (own : event.2.own = true) (guard : alone sys event = true)
    (stepped : sysStep cfg sys event = .ok next) : Agrees cfg start (past ++ [event]) next := by
  obtain ⟨p, event⟩ := event
  rw [sysStep] at stepped
  cases ran : sessionStep cfg (sys.session p) event with
  | error fault =>
      simp only [ran] at stepped
      cases stepped
  | ok t =>
      simp only [ran] at stepped
      cases stepped
      obtain ⟨request, reached, inv, owns, same⟩ := agrees.solo p
      have valid : (sys.session p).Inv := inv
      -- while another peer has a request underway, this one neither has nor takes one
      have quiet (q : Fin peers) (other : q ≠ p) (underway : (sys.session q).underway = true) :
          t.request = sys.request ∧ t.underway = false := by
        have idle : (sys.session p).underway = false := by
          by_contra both
          exact other (agrees.one q p underway (by simpa using both))
        have noTake : (sys.session p).takes event = false := by
          by_contra takes
          have taken : (sys.session p).takes event = true := by simpa using takes
          simp only [alone, taken, Bool.not_true, Bool.false_or, decide_eq_true_eq] at guard
          rw [guard q other] at underway
          cases underway
        exact sessionStep_quiet valid own idle noTake ran
      constructor
      · intro q
        by_cases mine : q = p
        · cases mine
          obtain ⟨after, stepped, kept⟩ := (sessionStep_agrees valid own same).2 t ran
          rw [System.session_update_same, eventsOf_snoc_same]
          refine ⟨after, Run.run_append_ok.mpr ⟨_, reached, ?_⟩, ?_, ?_, kept⟩
          · exact Run.run_cons_ok.mpr ⟨_, stepped, rfl⟩
          · exact sessionStep_inv inv stepped
          · exact sessionStep_owns own inv owns stepped
        · obtain ⟨request, reached, inv, owns, same⟩ := agrees.solo q
          rw [System.session_update_other sys mine, eventsOf_snoc_other mine]
          refine ⟨request, reached, inv, owns, fun underway => ?_⟩
          exact (same underway).trans (quiet q mine underway).1.symm
      · intro q r first second
        by_cases mine : q = p <;> by_cases yours : r = p
        · exact mine.trans yours.symm
        · cases mine
          rw [System.session_update_same] at first
          rw [System.session_update_other sys yours] at second
          rw [(quiet r yours second).2] at first
          cases first
        · cases yours
          rw [System.session_update_same] at second
          rw [System.session_update_other sys mine] at first
          rw [(quiet q mine first).2] at second
          cases second
        · rw [System.session_update_other sys mine] at first
          rw [System.session_update_other sys yours] at second
          exact agrees.one q r first second

theorem Agrees.fails {start sys : System peers} {past events : List (Fin peers × PeerEvent)}
    {event : Fin peers × PeerEvent} {fault : Fault} (agrees : Agrees cfg start past sys)
    (own : event.2.own = true) (failed : sysStep cfg sys event = .error fault) :
    ∃ p, sessionRun cfg (eventsOf p (past ++ event :: events)) (start.session p) =
      .error fault := by
  obtain ⟨p, event⟩ := event
  rw [sysStep] at failed
  cases ran : sessionStep cfg (sys.session p) event with
  | ok t =>
      simp only [ran] at failed
      cases failed
  | error other =>
      simp only [ran] at failed
      cases failed
      obtain ⟨request, reached, inv, owns, same⟩ := agrees.solo p
      have valid : (sys.session p).Inv := inv
      have stuck := (sessionStep_agrees valid own same).1 _ ran
      have split : eventsOf p (past ++ (p, event) :: events) =
          eventsOf p past ++ event :: eventsOf p events := by simp [eventsOf]
      refine ⟨p, ?_⟩
      rw [split]
      exact Run.run_append_error reached stuck

theorem sysRun_agrees {start sys next : System peers} {past events : List (Fin peers × PeerEvent)}
    (agrees : Agrees cfg start past sys) (own : ∀ event ∈ events, event.2.own = true)
    (guard : Run.guarded (sysStep cfg) alone events sys = true)
    (ran : sysRun cfg events sys = .ok next) : Agrees cfg start (past ++ events) next := by
  induction events generalizing past sys with
  | nil =>
      cases ran
      rwa [List.append_nil]
  | cons event events ih =>
      obtain ⟨now, later⟩ := Run.guarded_cons guard
      obtain ⟨middle, stepped, rest⟩ := Run.run_cons_ok.mp ran
      have reached := agrees.step (own event List.mem_cons_self) now stepped
      have all := ih reached (fun other member => own other (List.mem_cons_of_mem event member))
        (later middle stepped) rest
      rwa [List.append_assoc] at all

theorem sysRun_fails {start sys : System peers} {past events : List (Fin peers × PeerEvent)}
    {fault : Fault} (agrees : Agrees cfg start past sys)
    (own : ∀ event ∈ events, event.2.own = true)
    (guard : Run.guarded (sysStep cfg) alone events sys = true)
    (ran : sysRun cfg events sys = .error fault) :
    ∃ p, sessionRun cfg (eventsOf p (past ++ events)) (start.session p) = .error fault := by
  induction events generalizing past sys with
  | nil => cases ran
  | cons event events ih =>
      obtain ⟨now, later⟩ := Run.guarded_cons guard
      have mine := own event List.mem_cons_self
      cases stepped : sysStep cfg sys event with
      | error other =>
          rw [sysRun, Run.run, stepped] at ran
          cases ran
          exact agrees.fails mine stepped
      | ok middle =>
          rw [sysRun, Run.run, stepped] at ran
          have all := ih (agrees.step mine now stepped)
            (fun other member => own other (List.mem_cons_of_mem event member))
            (later middle stepped) ran
          rwa [List.append_assoc] at all

/-- The bytes put for a peer and the codes returned for it are those of its own events alone; so
is the fault, if there is one; and a request that is underway is there to come back to. -/
structure Undisturbed (cfg : Config) (start : System peers)
    (events : List (Fin peers × PeerEvent)) : Prop where
  same : ∀ sys, sysRun cfg events start = .ok sys → ∀ p, ∃ s,
    sessionRun cfg (eventsOf p events) (start.session p) = .ok s ∧
      Trace.puts s.peer.trace = Trace.puts (sys.connections p).peer.trace ∧
      Trace.codes s.peer.trace = Trace.codes (sys.connections p).peer.trace
  fails : ∀ fault, sysRun cfg events start = .error fault →
    ∃ p, sessionRun cfg (eventsOf p events) (start.session p) = .error fault
  resumes : ∀ sys, sysRun cfg events start = .ok sys → ∀ p task,
    (sys.connections p).closed = false → (sys.connections p).peer.httpTask = .live task →
    task.state ≠ .recvHeader →
    ∃ cell, sys.request = .live cell ∧ cell.conn = p ∧ cell.req = task.requests

def System.Fresh (start : System peers) : Prop :=
  ∀ p, ∃ slot newClientSock clientAddr, Vacant slot ∧
    start.session p = freshSession start.request slot newClientSock clientAddr p

theorem System.Fresh.agrees {start : System peers} (fresh : start.Fresh) :
    Agrees cfg start [] start := by
  have idle (p : Fin peers) : (start.session p).underway = false := by
    obtain ⟨slot, sock, addr, _, shape⟩ := fresh p
    rw [shape]
    rfl
  constructor
  · intro p
    obtain ⟨slot, sock, addr, vacant, shape⟩ := fresh p
    refine ⟨start.request, rfl, ?_, ?_, fun _ => rfl⟩
    · change (start.session p).Inv
      rw [shape]
      exact freshSession_inv vacant start.request sock addr p
    · change (start.session p).Owns p
      rw [shape]
      refine ⟨rfl, ?_⟩
      rintro _ _ ⟨⟩ other
      exact absurd rfl other
  · intro p q first
    rw [idle p] at first
    cases first

/-- When requests are taken one at a time, no connection disturbs another. -/
theorem connections_undisturbed {start : System peers} (fresh : start.Fresh)
    (events : List (Fin peers × PeerEvent)) (own : ∀ event ∈ events, event.2.own = true)
    (guard : Run.guarded (sysStep cfg) alone events start = true) :
    Undisturbed cfg start events := by
  constructor
  · intro sys ran p
    obtain ⟨request, reached, _⟩ := (sysRun_agrees fresh.agrees own guard ran).solo p
    exact ⟨_, reached, rfl, rfl⟩
  · intro fault ran
    exact sysRun_fails fresh.agrees own guard ran
  · intro sys ran p task isOpen live state
    obtain ⟨request, _, _, owns, same⟩ := (sysRun_agrees fresh.agrees own guard ran).solo p
    have underway : (sys.session p).underway = true := by
      simp [Session.underway, System.session, isOpen, live, state]
    cases same underway
    exact owns.own isOpen task live state

def twoPeers : System 2 where
  request := .null
  connections p := ⟨acceptInto createPeer (5 + p) ⟨str "1.2.3.4", 80⟩ p, false⟩

theorem twoPeers_fresh : twoPeers.Fresh := fun p =>
  ⟨createPeer, 5 + p, ⟨str "1.2.3.4", 80⟩, createPeer_vacant, rfl⟩

def inTurn : List (Fin 2 × PeerEvent) :=
  [(0, .deliver (str "POST / HTTP/1.1\r\nContent-Length: 1\r\n\r\n")), (0, .call (sampleOs true)),
   (1, .deliver (str "PUT / HTTP/1.1\r\n\r\n")), (0, .deliver (str "x")), (0, .call (sampleOs true)),
   (1, .call (sampleOs true))]

theorem connections_undisturbed_inTurn : Undisturbed sampleConfig twoPeers inTurn :=
  connections_undisturbed twoPeers_fresh inTurn (by decide) (by decide +kernel)

def atOnce : List (Fin 2 × PeerEvent) :=
  [(0, .deliver (str "POST / HTTP/1.1\r\nContent-Length: 1\r\n\r\n")), (0, .call (sampleOs true)),
   (1, .deliver (str "POST /cgi/x HTTP/1.1\r\nContent-Length: 1\r\n\r\n")), (1, .call (sampleOs true)),
   (0, .deliver (str "x")), (0, .call (sampleOs true))]

/-- The first peer's body is handed to a child for the second peer's request. -/
theorem connections_disturbed : ¬ Undisturbed sampleConfig twoPeers atOnce := by
  intro undisturbed
  have among : ((sysRun sampleConfig atOnce twoPeers).map
      fun sys => (Trace.puts (sys.connections 0).peer.trace).isEmpty) = .ok true := by
    decide +kernel
  have alone : ((sessionRun sampleConfig (eventsOf 0 atOnce) (twoPeers.session 0)).map
      fun s => (Trace.puts s.peer.trace).isEmpty) = .ok false := by
    decide +kernel
  cases ran : sysRun sampleConfig atOnce twoPeers with
  | error fault =>
      rw [ran] at among
      cases among
  | ok sys =>
      rw [ran] at among
      obtain ⟨s, reached, puts, _⟩ := undisturbed.same sys ran 0
      rw [reached] at alone
      have silent : (Trace.puts (sys.connections 0).peer.trace).isEmpty = true :=
        Except.ok.inj among
      have answered : (Trace.puts s.peer.trace).isEmpty = false := Except.ok.inj alone
      rw [puts, silent] at answered
      cases answered

end Liso
