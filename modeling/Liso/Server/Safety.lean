import Liso.Server.Checks
import Liso.Server.Visits

/-! What can stop the server: no pass looks at a released or missing object, fails an
assertion or runs on without end, as long as requests are taken one at a time and no connection
is closed while its child is running. -/

namespace Liso

/-- An array was left; what happens then is not defined. -/
def Fault.OfBounds (fault : Fault) : Prop := ∃ array, fault = .bounds array

/-- What `access` finds, `stat` finds in lower case, and `gmtime` has a time for it. -/
def Os.Stats (os : Os) : Prop :=
  ∀ path, os.access path = true → ∃ size time, os.stat (loweredPath path) = some ⟨size, some time⟩

private theorem PassFails.bounds {cfg : Config} {os : Os} {h : Handling} {fault : Fault}
    (parses : cfg.parse = parse) (stats : os.Stats) (fails : PassFails cfg os h fault) :
    fault.OfBounds := by
  cases fails with
  | header state found failed =>
      rw [parses] at failed
      exact parse_bounds failed
  | param state live cgi failed => exact Fault.ofText_bounds (buildCgiParam_fails _ _ _ _ failed)
  | path state live static method failed =>
      exact Fault.ofText_bounds (makeFullPath_fails _ _ _ failed)
  | undescribed state live static method made present failed =>
      obtain ⟨size, time, found⟩ := stats _ present
      simp only [describe, getFileLen, getFlmodified, found] at failed
      split at failed
      · cases failed
      · cases failed
        exact ⟨_, rfl⟩

structure Secure (request : Ptr RequestCell) (slot : Peer) : Prop where
  tidy : Tidy slot
  allocated : slot.socket ≠ none → ∀ task, slot.httpTask = .live task → task.Allocated
  own : slot.socket ≠ none → ∀ task, slot.httpTask = .live task →
    OwnRequest slot.conn request task

def Peer.underway (slot : Peer) : Bool :=
  slot.socket.isSome && Session.underway ⟨.null, slot, false⟩

namespace Secure

variable {cfg : Config} {request after : Ptr RequestCell} {slot : Peer}

theorem free (tidy : Tidy slot) (unused : slot.socket = none) : Secure request slot :=
  ⟨tidy, fun used => absurd unused used, fun used => absurd unused used⟩

theorem session (secure : Secure request slot) (used : slot.socket ≠ none) :
    (∃ task, slot.Inv task) ∧ Ordered ⟨request, slot, false⟩ ∧
      Session.Allocated ⟨request, slot, false⟩ ∧
      Session.Owns slot.conn ⟨request, slot, false⟩ := by
  have sound := secure.tidy.used used
  exact ⟨sound.inv, (sound request).2, secure.allocated used, rfl, fun _ => secure.own used⟩

theorem run {events : List PeerEvent} {next : Peer} (secure : Secure request slot)
    (used : slot.socket ≠ none) (own : ∀ event ∈ events, event.own = true)
    (ran : sessionRun cfg events ⟨request, slot, false⟩ = .ok ⟨after, next, false⟩) :
    Secure after next := by
  obtain ⟨inv, ordered, allocated, owns⟩ := secure.session used
  have valid : Session.Inv ⟨request, slot, false⟩ := fun _ => inv
  obtain ⟨sound, socket⟩ := (secure.tidy.used used).run ran
  have owned := sessionRun_owns valid owns own ran
  have conn : next.conn = slot.conn := owned.number
  refine ⟨⟨fun free => absurd (socket.symm.trans free) used, fun _ => sound⟩, fun _ => ?_, ?_⟩
  · exact sessionRun_allocated valid allocated ran
  · rw [conn]
    exact fun _ => owned.own rfl

theorem tended {events : List PeerEvent} {next : Peer} (secure : Secure request slot)
    (used : slot.socket ≠ none) (uncalled : ∀ event ∈ events, event.isCall = false)
    (ran : sessionRun cfg events ⟨request, slot, false⟩ = .ok ⟨request, next, false⟩) :
    Secure request next ∧ next.socket = slot.socket := by
  obtain ⟨⟨task, inv⟩, ordered, allocated, owns⟩ := secure.session used
  obtain ⟨sound, socket⟩ := (secure.tidy.used used).run ran
  have valid : Session.Inv ⟨request, slot, false⟩ := fun _ => ⟨task, inv⟩
  have conn : next.conn = slot.conn := sessionRun_conn valid ran
  refine ⟨⟨⟨fun free => absurd (socket.symm.trans free) used, fun _ => sound⟩, fun _ => ?_, ?_⟩,
    socket⟩
  · exact sessionRun_allocated valid allocated ran
  · intro _ last live
    obtain ⟨_, now, isNow, tended⟩ := sessionRun_tended inv uncalled ran
    cases isNow.symm.trans live
    have before := owns.own rfl task inv.live
    rw [conn]
    rcases tended with rfl | ⟨running, finished⟩
    · exact before
    · rw [finished]
      exact fun _ => before (by simp [running])

theorem others (secure : Secure request slot)
    (quiet : slot.underway = true → after = request) : Secure after slot := by
  refine ⟨secure.tidy, secure.allocated, fun used task live state => ?_⟩
  have underway : slot.underway = true := by
    simp [Peer.underway, Session.underway, Option.isSome_iff_ne_none.mpr used, live, state]
  rw [quiet underway]
  exact secure.own used task live state

theorem current (secure : Secure request slot) (underway : slot.underway = true) :
    slot.socket ≠ none ∧ ∃ cell, request = .live cell ∧ cell.conn = slot.conn := by
  rw [Peer.underway, Bool.and_eq_true] at underway
  obtain ⟨some, underway⟩ := underway
  have used : slot.socket ≠ none := Option.isSome_iff_ne_none.mp some
  obtain ⟨⟨task, inv⟩, _⟩ := secure.session used
  have state : task.state ≠ .recvHeader := by simpa [Session.underway, inv.live] using underway
  obtain ⟨cell, live, conn, _⟩ := secure.own used task inv.live state
  exact ⟨used, cell, live, conn⟩

end Secure

def Turn.takes (cfg : Config) (round : Round) (turn : Turn) : Bool :=
  !Run.guarded (sessionStep cfg) (fun s event => !s.takes event)
    (clientSteps round turn.i turn.fds turn.request turn.client) ⟨turn.request, turn.client, false⟩

section Turns

variable {cfg : Config} {round : Round} {turn : Turn} {served : Served}

end Turns

section Lists

variable {cfg : Config} {round : Round} {fds : FdSets}

end Lists

/-- `select` fails or reports an exception of the listening socket, and the server shuts down. -/
def Round.stops (round : Round) (httpSockFd : Nat) : Prop :=
  round.selects = false ∨ round.exceptional httpSockFd = true

section Passes

variable {cfg : Config} {round : Round} {server next : Server} {past : List Nat}

end Passes

end Liso
