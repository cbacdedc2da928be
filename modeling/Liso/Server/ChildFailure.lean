import Liso.Http.Heads
import Liso.Http.Replies
import Liso.Server.Streams

/-! A child that fails before it has put out anything, and the response its client
gets. -/

namespace Liso

section Steps

variable {cfg : Config} {s t : Session} {task : HttpTask} {event : PeerEvent}

theorem StepCases.keeps {P : HttpTask → List Event → Prop}
    (keeps : ∀ {task next trace events}, Replies task next events → P task trace →
      P next (trace ++ events))
    (inv : s.peer.Inv task) (start : P task s.peer.trace) (step : StepCases cfg s task event t) :
    ∃ next, t.peer.httpTask = .live next ∧ P next t.peer.trace := by
  have live := inv.live
  have quiet {task : HttpTask} {trace : List Event} (event : Event)
      (silent : Trace.puts [event] = [])
      (still : ∀ outputs, [event].foldl Trace.childrenStep outputs = outputs) (kept : P task trace) :
      P task (trace ++ [event]) :=
    keeps (.quiet silent still rfl id id id) kept
  have stays {peer : Peer} (same : peer.httpTask = s.peer.httpTask) (kept : P task peer.trace) :
      ∃ next, peer.httpTask = .live next ∧ P next peer.trace := ⟨task, same.trans live, kept⟩
  have received {peer : Peer} (received : Receives s.peer peer) : P task peer.trace := by
    cases received with
    | nothing => exact start
    | bytes bufInv content => exact quiet _ rfl (fun _ => rfl) start
  cases step with
  | deliver got => exact stays got.httpTask (received got)
  | recv got => exact stays got.httpTask (received got)
  | @call os code h called effect valid =>
      obtain ⟨_, ⟨⟩, kept⟩ := handleHttp_keeps keeps inv start called
      have after : P h.task (h.peer.trace ++ [.returned code]) := quiet _ rfl (fun _ => rfl) kept
      cases code <;> exact ⟨h.task, rfl, after⟩
  | send sent =>
      cases sent with
      | nothing empty => exact stays rfl start
      | accepted count answered bufInv left => exact stays rfl (quiet _ rfl (fun _ => rfl) start)
      | failed bufInv => exact stays rfl start
  | toCgi child sent =>
      cases sent with
      | nothing empty => exact stays rfl start
      | accepted count bufInv left => exact stays rfl (quiet _ rfl (fun _ => rfl) start)
      | failed bufInv refused => exact stays rfl start
  | @fromCgi answer executor status peer child piped =>
      have linked := inv.child
      rw [child] at linked
      obtain ⟨running, _, req⟩ := linked
      cases piped with
      | full => exact stays rfl start
      | failed => exact stays rfl start
      | ended isLive =>
          cases isLive.symm.trans live
          have done : Replies task { task with state := .finished } [.cgiEnded executor.req] :=
            .ended rfl rfl running rfl
          exact ⟨_, rfl, keeps done start⟩
      | @piped bytes data next taken puts =>
          obtain ⟨sendingBuffer, rfl⟩ := puts.frame
          refine stays rfl ?_
          change P task (s.peer.trace ++ [.cgiRead data] ++ _)
          rw [List.append_assoc]
          refine keeps (.piped data ?_ ?_ running rfl) start
          · rw [Trace.puts_append, Trace.puts_map_put, req]
            rfl
          · intro read
            rw [List.foldl_append]
            exact Trace.children_ofPass (Trace.ofPass_put _) _
  | noChild => exact stays rfl start
  | others => exact stays rfl start

end Steps

def Session.Now (P : HttpTask → List Event → Prop) (s : Session) : Prop :=
  ∃ task, s.peer.httpTask = .live task ∧ P task s.peer.trace

theorem Session.Now.of_live {P : HttpTask → List Event → Prop} {s : Session} {task : HttpTask}
    (now : s.Now P) (live : s.peer.httpTask = .live task) : P task s.peer.trace := by
  obtain ⟨current, isCurrent, holds⟩ := now
  cases isCurrent.symm.trans live
  exact holds

theorem sessionRun_now {cfg : Config} {P : HttpTask → List Event → Prop}
    (keeps : ∀ {task next trace events}, Replies task next events → P task trace →
      P next (trace ++ events))
    {events : List PeerEvent} {s t : Session} (inv : s.Inv) (start : s.Now P)
    (ran : sessionRun cfg events s = .ok t) : t.Now P :=
  sessionRun_keeps (P := Session.Now P)
    (fun _ valid now _ step => step.keeps keeps valid (now.of_live valid.live)) inv start
    (fun _ _ => trivial) ran

/-- `read` from such a child gets what `execve_error_handler` and the lines after it have written,
as many bytes at a time as the event has, and the end only behind them. -/
def heard (s : Session) (event : PeerEvent) : PeerEvent :=
  match event, s.peer.cgiExecutor with
  | .fromCgi (some bytes), .live executor =>
      match executor.failure with
      | none => .fromCgi (some bytes)
      | some text =>
          let unread := text.drop (Trace.childOutput s.peer.trace).length
          .fromCgi (some (unread.take (max 1 bytes.length)))
  | _, _ => event

def hearStep (cfg : Config) (s : Session) (event : PeerEvent) : Except Fault Session :=
  sessionStep cfg s (heard s event)

def hearRun (cfg : Config) (events : List PeerEvent) (s : Session) : Except Fault Session :=
  Run.run (hearStep cfg) events s

theorem hearRun_session {cfg : Config} {events : List PeerEvent} {s t : Session}
    (ran : hearRun cfg events s = .ok t) : ∃ heards, sessionRun cfg heards s = .ok t := by
  induction events generalizing s with
  | nil => exact ⟨[], ran⟩
  | cons event events ih =>
      obtain ⟨next, stepped, later⟩ := Run.run_cons_ok.mp ran
      obtain ⟨heards, rest⟩ := ih later
      exact ⟨heard s event :: heards, Run.run_cons_ok.mpr ⟨next, stepped, rest⟩⟩

/-- What was read from a child that could not be executed, and the text that there is to read. -/
def FailureRead (P : Bytes → Bytes → Prop) (s : Session) : Prop :=
  ∀ executor text, s.peer.cgiExecutor = .live executor → executor.failure = some text →
    (∃ client errno, text = execveFailure client errno) ∧ P text (Trace.childOutput s.peer.trace)

def HeardFailure : Session → Prop := FailureRead fun text output => output <+: text

section Heard

variable {cfg : Config} {s t : Session} {task : HttpTask} {event : PeerEvent}

private theorem FailureRead.frame {P : Bytes → Bytes → Prop} (kept : FailureRead P s)
    (child : t.peer.cgiExecutor = s.peer.cgiExecutor)
    (read : Trace.childOutput t.peer.trace = Trace.childOutput s.peer.trace) :
    FailureRead P t := by
  intro executor text live failed
  rw [child] at live
  rw [read]
  exact kept executor text live failed

private theorem CallEffect.failureRead {P : Bytes → Bytes → Prop} {h : Handling}
    (none : ∀ text, P text []) (effect : CallEffect ⟨s.request, task, s.peer⟩ h)
    (kept : FailureRead P s) (code : Code) :
    FailureRead P (afterCall code h.request { h.peer with httpTask := .live h.task }) := by
  have returned (trace : List Event) :
      Trace.childOutput (trace ++ [.returned code]) = Trace.childOutput trace :=
    Trace.childOutput_still fun _ => rfl
  have after (now : FailureRead P ⟨h.request, h.peer, false⟩) :
      FailureRead P (afterCall code h.request { h.peer with httpTask := .live h.task }) := by
    cases code <;> exact now.frame rfl (returned _)
  refine after ?_
  cases effect with
  | moved events moves =>
      refine kept.frame moves.executor ?_
      rw [moves.trace]
      exact Trace.childOutput_still (Trace.children_ofPass moves.passes)
  | started events middle moves start state =>
      intro executor text live failed
      refine ⟨⟨_, start.failure executor text live failed⟩, ?_⟩
      obtain ⟨_, _, _, shape⟩ := start.started
      have fresh : Trace.childOutput h.peer.trace = [] := by
        rw [shape]
        change Trace.childOutput (middle.peer.trace ++ _) = []
        exact Trace.childOutput_started fun _ => rfl
      change P text (Trace.childOutput h.peer.trace)
      rw [fresh]
      exact none text

/-- Only a read from the child changes what was read from it. -/
private theorem hearStep_failureRead {P : Bytes → Bytes → Prop} (none : ∀ text, P text [])
    (reads : ∀ executor text bytes, s.peer.cgiExecutor = .live executor →
      executor.failure = some text → heard s event = .fromCgi (some bytes) →
      P text (Trace.childOutput s.peer.trace) →
      P text (Trace.childOutput s.peer.trace ++ bytes.take (bufAvailable s.peer.sendingBuffer)))
    (isOpen : s.closed = false) (inv : s.peer.Inv task) (kept : FailureRead P s)
    (stepped : hearStep cfg s event = .ok t) : FailureRead P t := by
  have step := sessionStep_cases isOpen inv stepped
  generalize hears : heard s event = actual at step reads
  cases step with
  | deliver received =>
      cases received with
      | nothing => exact kept
      | bytes =>
          refine kept.frame rfl ?_
          exact Trace.childOutput_still fun _ => rfl
  | recv received =>
      cases received with
      | nothing => exact kept
      | bytes =>
          refine kept.frame rfl ?_
          exact Trace.childOutput_still fun _ => rfl
  | call called effect valid => exact effect.failureRead none kept _
  | send sent =>
      cases sent with
      | nothing => exact kept
      | accepted =>
          refine kept.frame rfl ?_
          exact Trace.childOutput_still fun _ => rfl
      | failed => exact kept
  | toCgi child sent =>
      cases sent with
      | nothing => exact kept
      | accepted count cgiInv left =>
          rintro _ text ⟨⟩ failed
          obtain ⟨written, read⟩ := kept _ text child failed
          refine ⟨written, ?_⟩
          change P text (Trace.childOutput (s.peer.trace ++ [.cgiWritten _]))
          rwa [Trace.childOutput_still fun _ => rfl]
      | failed cgiInv refused =>
          rintro _ text ⟨⟩ failed
          exact kept _ text child failed
  | fromCgi child piped =>
      cases piped with
      | full => exact kept
      | failed => exact kept
      | ended => exact nofun
      | piped taken puts =>
          obtain ⟨sendingBuffer, rfl⟩ := puts.frame
          intro executor text live failed
          cases child.symm.trans live
          obtain ⟨written, read⟩ := kept _ text child failed
          refine ⟨written, ?_⟩
          change P text (Trace.childOutput (s.peer.trace ++ [.cgiRead _] ++ _))
          rw [Trace.childOutput_still (Trace.children_ofPass (Trace.ofPass_put _)),
            Trace.childOutput_read fun _ => rfl]
          subst taken
          exact reads _ text _ child failed rfl read
  | noChild => exact kept
  | others => exact kept

private theorem heard_prefix {executor : CgiExecutor} {text bytes : Bytes} {answer : PeerEvent}
    (child : s.peer.cgiExecutor = .live executor) (failed : executor.failure = some text)
    (read : Trace.childOutput s.peer.trace <+: text)
    (hears : heard s answer = .fromCgi (some bytes)) (room : Nat) :
    Trace.childOutput s.peer.trace ++ bytes.take room <+: text := by
  obtain ⟨rest, rfl⟩ := read
  have next : bytes <+: rest := by
    cases answer with
    | fromCgi answer =>
        cases answer with
        | none => cases hears
        | some given =>
            simp only [heard, child, failed, List.drop_left] at hears
            cases hears
            exact List.take_prefix _ _
    | _ => cases hears
  exact (List.prefix_append_right_inj _).mpr ((List.take_prefix _ _).trans next)

private theorem hearStep_heardFailure (isOpen : s.closed = false) (inv : s.peer.Inv task)
    (failure : HeardFailure s) (stepped : hearStep cfg s event = .ok t) : HeardFailure t :=
  hearStep_failureRead (fun _ => List.nil_prefix)
    (fun _ _ _ child failed hears read => heard_prefix child failed read hears _) isOpen inv
    failure stepped

end Heard

/-- `read` is at the end of the child's output. -/
def readsEnd (s : Session) (event : PeerEvent) : Bool :=
  match s.closed, s.peer.cgiExecutor, event with
  | false, .live _, .fromCgi (some []) => !bufFull s.peer.sendingBuffer
  | _, _, _ => false

/-- `read` from the child, or `write` of the rest of the body to it, fails. -/
def pipeFails (s : Session) (event : PeerEvent) : Bool :=
  match s.closed, s.peer.cgiExecutor, event with
  | false, .live _, .fromCgi none => !bufFull s.peer.sendingBuffer
  | false, .live executor, .toCgi .error => !executor.pending.isEmpty
  | false, .live executor, .toCgi .wouldBlock => !executor.pending.isEmpty
  | _, _, _ => false

/-- The child's program was not executed, or has not put out anything that was read. -/
def fruitless (s : Session) : Bool :=
  match s.peer.cgiExecutor with
  | .live executor => executor.failure.isSome || (Trace.childOutput s.peer.trace).isEmpty
  | _ => true

/-- `read` gets what a child that could not be executed has written. -/
def readsFailure (s : Session) (event : PeerEvent) : Bool :=
  match s.closed, s.peer.cgiExecutor, event with
  | false, .live executor, .fromCgi (some (_ :: _)) =>
      executor.failure.isSome && !bufFull s.peer.sendingBuffer
  | _, _, _ => false

/-- The child ends, its pipe fails or tells of a failed `execve`, with nothing from its program. -/
def childFails (s : Session) (event : PeerEvent) : Bool :=
  readsFailure s event || fruitless s && (readsEnd s event || pipeFails s event)

def childFinishes (s : Session) (event : PeerEvent) : Bool :=
  !fruitless s && readsEnd s event

def Session.Past (req : Nat) (s : Session) : Prop :=
  ∃ task, s.peer.httpTask = .live task ∧ (req < task.requests ∨ req = task.requests ∧ task.Between)

/-- In every state of the run the client of a child gets what the child's program puts out and
nothing else, and when the child fails first one whole 500 response and nothing else. -/
structure AnswersChildren (cfg : Config) (events : List PeerEvent) (start : Session) : Prop where
  flows : ∀ front back s, events = front ++ back → hearRun cfg front start = .ok s →
    s.closed = false →
    Trace.sent s.peer.trace ++ s.peer.sendingBuffer.content = Trace.puts s.peer.trace
  running : ∀ front back s executor, events = front ++ back →
    hearRun cfg front start = .ok s → s.closed = false →
    s.peer.cgiExecutor = .live executor → executor.failure = none →
    Trace.output executor.req s.peer.trace = Trace.childOutput s.peer.trace
  unexecuted : ∀ front back s executor, events = front ++ back →
    hearRun cfg front start = .ok s → s.closed = false →
    s.peer.cgiExecutor = .live executor → executor.failure.isSome = true →
    ∃ head, WellFormedHead internalServerErrorNum head ∧
      Trace.output executor.req s.peer.trace <+: head
  finished : ∀ front event middle back s t executor,
    events = front ++ event :: (middle ++ back) → hearRun cfg front start = .ok s →
    s.peer.cgiExecutor = .live executor → childFinishes s (heard s event) = true →
    hearRun cfg (event :: middle) s = .ok t →
    Trace.output executor.req t.peer.trace = Trace.childOutput s.peer.trace
  goesOn : ∀ front event back s t, events = front ++ event :: back →
    hearRun cfg front start = .ok s → childFails s (heard s event) = true →
    hearStep cfg s event = .ok t → t.closed = false ∧ t.peer.closeConn = s.peer.closeConn
  failed : ∀ front event middle back s t executor,
    events = front ++ event :: (middle ++ back) → hearRun cfg front start = .ok s →
    s.peer.cgiExecutor = .live executor → childFails s (heard s event) = true →
    hearRun cfg (event :: middle) s = .ok t → t.closed = false → t.Past executor.req →
    WellFormedHead internalServerErrorNum (Trace.output executor.req t.peer.trace)

section Ends

variable (cfg : Config) {s : Session} {task : HttpTask} {event : PeerEvent}

theorem readsEnd_open (ends : readsEnd s event = true) : s.closed = false := by
  unfold readsEnd at ends
  split at ends
  · assumption
  · cases ends

theorem pipeFails_open (fails : pipeFails s event = true) : s.closed = false := by
  unfold pipeFails at fails
  split at fails
  · assumption
  · assumption
  · assumption
  · cases fails

theorem readsFailure_open (reads : readsFailure s event = true) : s.closed = false := by
  unfold readsFailure at reads
  split at reads
  · assumption
  · cases reads

theorem childFails_cases (fails : childFails s event = true) :
    readsFailure s event = true ∨
      fruitless s = true ∧ (readsEnd s event = true ∨ pipeFails s event = true) := by
  rwa [childFails, Bool.or_eq_true, Bool.and_eq_true, Bool.or_eq_true] at fails

theorem readsEnd_step (inv : s.peer.Inv task) (ends : readsEnd s event = true) :
    ∃ executor t, s.peer.cgiExecutor = .live executor ∧
      sessionStep cfg s event = .ok t ∧ t.closed = false ∧
      t.peer.httpTask = .live { task with state := .finished } ∧
      t.peer.trace = s.peer.trace ++ [.cgiEnded executor.req] := by
  unfold readsEnd at ends
  split at ends
  · next executor isOpen child =>
      have room : bufFull s.peer.sendingBuffer = false := by simpa using ends
      have piped : pipeFromCgiProcessToClient s.peer (some []) = .ok (.success, ({ s.peer with
          httpTask := .live { task with state := .finished }
          cgiExecutor := .null } : Peer).record [.cgiEnded executor.req]) := by
        simp only [pipeFromCgiProcessToClient, room, inv.live, child, Ptr.deref, freeCgiExecutor,
          ok_bind, pure_ok, executorReq]
        rfl
      have stepped : sessionStep cfg s (.fromCgi (some [])) = .ok ⟨s.request, ({ s.peer with
          httpTask := .live { task with state := .finished }
          cgiExecutor := .null } : Peer).record [.cgiEnded executor.req], false⟩ := by
        unfold sessionStep
        rw [if_neg (by simp [isOpen])]
        simp only [withChild, child, piped]
        rfl
      exact ⟨executor, _, child, stepped, rfl, rfl, rfl⟩
  · cases ends

private theorem toCgi_refused (inv : s.peer.Inv task) {executor : CgiExecutor}
    (isOpen : s.closed = false) (child : s.peer.cgiExecutor = .live executor)
    {answer : WriteAnswer} (refused : ∀ count, answer ≠ .accepted count)
    (waits : executor.pending ≠ []) :
    ∃ t, sessionStep cfg s (.toCgi answer) = .ok t ∧ t.closed = true := by
  have linked := inv.child
  rw [child] at linked
  obtain ⟨⟨status, peer⟩, ran, sent⟩ := sendToCgiProcess_sent linked.2.1 child answer
  refine ⟨⟨s.request, peer, status = .failure⟩, ?_, ?_⟩
  · unfold sessionStep
    rw [if_neg (by simp [isOpen])]
    simp only [withChild, child, ran]
  · cases sent with
    | nothing empty => exact absurd empty waits
    | accepted count => exact absurd rfl (refused count)
    | failed => rfl

theorem pipeFails_step (inv : s.peer.Inv task) (fails : pipeFails s event = true) :
    ∃ t, sessionStep cfg s event = .ok t ∧ t.closed = true := by
  unfold pipeFails at fails
  split at fails
  · next executor isOpen child =>
      have room : bufFull s.peer.sendingBuffer = false := by simpa using fails
      refine ⟨⟨s.request, s.peer, true⟩, ?_, rfl⟩
      unfold sessionStep
      rw [if_neg (by simp [isOpen])]
      simp [withChild, child, pipeFromCgiProcessToClient, room]
  · next executor isOpen child =>
      exact toCgi_refused cfg inv isOpen child (by simp) (by simpa using fails)
  · next executor isOpen child =>
      exact toCgi_refused cfg inv isOpen child (by simp) (by simpa using fails)
  · cases fails

theorem readsFailure_step (inv : s.peer.Inv task) (reads : readsFailure s event = true) :
    ∃ executor t, executor.failure.isSome = true ∧ sessionStep cfg s event = .ok t ∧
      t.closed = false ∧ t.peer.cgiExecutor = .live executor ∧
      Trace.childOutput t.peer.trace ≠ [] := by
  unfold readsFailure at reads
  split at reads
  · next executor first more isOpen child =>
      rw [Bool.and_eq_true, Bool.not_eq_true'] at reads
      obtain ⟨failed, room⟩ := reads
      obtain ⟨⟨status, peer⟩, ran, piped⟩ :=
        pipeFromCgiProcessToClient_piped inv.sending inv.live child (some (first :: more))
      have stepped : sessionStep cfg s (.fromCgi (some (first :: more))) =
          .ok ⟨s.request, peer, status = .failure⟩ := by
        unfold sessionStep
        rw [if_neg (by simp [isOpen])]
        simp only [withChild, child, ran]
      refine ⟨executor, _, failed, stepped, ?_⟩
      cases piped with
      | full noRoom => cases room.symm.trans noRoom
      | @piped _ data _ taken puts =>
          obtain ⟨sendingBuffer, rfl⟩ := puts.frame
          refine ⟨rfl, child, ?_⟩
          change Trace.childOutput (s.peer.trace ++ [.cgiRead data] ++ _) ≠ []
          rw [Trace.childOutput_still (Trace.children_ofPass (Trace.ofPass_put _)),
            Trace.childOutput_read fun _ => rfl]
          have some : data ≠ [] := by
            rw [bufFull, beq_eq_false_iff_ne] at room
            simp [taken, List.take_eq_nil_iff, room]
          exact fun none => some (List.append_eq_nil_iff.mp none).2
  · cases reads

end Ends

section Failure

variable {cfg : Config} {s t : Session}

private theorem HeardFailure.not_head {executor : CgiExecutor} (failure : HeardFailure s)
    (child : s.peer.cgiExecutor = .live executor) (nothing : fruitless s = true)
    (responseCode : Int) : ¬ WellFormedHead responseCode (Trace.childOutput s.peer.trace) := by
  rintro ⟨reason, headers, _, _, same⟩
  have first : (Trace.childOutput s.peer.trace).head? = some 0x48 := by
    rw [same]
    rfl
  simp only [fruitless, child, Bool.or_eq_true, List.isEmpty_iff] at nothing
  rcases nothing with unexecuted | empty
  · obtain ⟨text, failed⟩ := Option.isSome_iff_exists.mp unexecuted
    obtain ⟨⟨client, errno, rfl⟩, rest, split⟩ := failure executor text child failed
    have start : (execveFailure client errno).head? = some 0x5b := rfl
    rw [← split, List.head?_append, first] at start
    cases start
  · rw [empty] at first
    cases first

/-- Its first byte is not that of a response. -/
private theorem HeardFailure.not_begins {executor : CgiExecutor} (failure : HeardFailure s)
    (child : s.peer.cgiExecutor = .live executor) (failed : executor.failure.isSome = true)
    (some : Trace.childOutput s.peer.trace ≠ []) {responseCode : Int} {head : Bytes}
    (formed : WellFormedHead responseCode head) : ¬ Trace.childOutput s.peer.trace <+: head := by
  obtain ⟨reason, headers, _, _, rfl⟩ := formed
  obtain ⟨text, failed⟩ := Option.isSome_iff_exists.mp failed
  obtain ⟨⟨client, errno, rfl⟩, heard⟩ := failure executor text child failed
  obtain ⟨c, rest, same⟩ := List.exists_cons_of_ne_nil some
  rw [same] at heard ⊢
  intro begins
  have bracket : c = 0x5b := (List.cons_prefix_cons.mp heard).1
  have letter : c = 0x48 := (List.cons_prefix_cons.mp begins).1
  cases bracket.symm.trans letter

private theorem hearRun_heardFailure {events : List PeerEvent} (valid : s.Inv)
    (failure : HeardFailure s) (ran : hearRun cfg events s = .ok t) : HeardFailure t := by
  have step (s : Session) (event : PeerEvent) (t : Session) (kept : s.Inv ∧ HeardFailure s)
      (_ : True) (stepped : hearStep cfg s event = .ok t) : t.Inv ∧ HeardFailure t := by
    refine ⟨sessionStep_inv kept.1 stepped, ?_⟩
    cases isOpen : s.closed with
    | true =>
        rw [hearStep, sessionStep_closed isOpen] at stepped
        cases stepped
        exact kept.2
    | false =>
        obtain ⟨task, inv⟩ := kept.1 isOpen
        exact hearStep_heardFailure isOpen inv kept.2 stepped
  exact (Run.run_invariant step ⟨valid, failure⟩ (fun _ _ => trivial) ran).2

/-- What is put for a child's request while it runs is what was read from it. -/
private theorem hearRun_output {events : List PeerEvent} {executor : CgiExecutor} (valid : s.Inv)
    (replied : s.Now Replied) (ran : hearRun cfg events s = .ok t) (isOpen : t.closed = false)
    (child : t.peer.cgiExecutor = .live executor) :
    ∃ task, t.peer.Inv task ∧ executor.req = task.requests ∧
      Trace.output executor.req t.peer.trace = Trace.childOutput t.peer.trace := by
  obtain ⟨heards, session⟩ := hearRun_session ran
  obtain ⟨task, inv⟩ := sessionRun_inv valid session isOpen
  have linked := inv.child
  rw [child] at linked
  obtain ⟨state, _, req⟩ := linked
  refine ⟨task, inv, req, ?_⟩
  rw [req]
  exact ((sessionRun_now Replies.replied valid replied session).of_live inv.live).running state

end Failure

theorem AnswersChildren.guarded {cfg : Config} {events : List PeerEvent} {start : Session}
    (answers : AnswersChildren cfg events start) (valid : start.Inv) (replied : start.Now Replied)
    (failure : HeardFailure start) :
    Run.guarded (hearStep cfg) (fun s event => !childFails s (heard s event)) events start =
      true := by
  rw [Run.guarded_iff]
  intro front event back s split reached
  by_contra unguarded
  have fails : childFails s (heard s event) = true := by simpa using unguarded
  obtain ⟨heards, session⟩ := hearRun_session reached
  rcases childFails_cases fails with reads | ⟨nothing, ends | broken⟩
  · obtain ⟨task, inv⟩ := sessionRun_inv valid session (readsFailure_open reads)
    obtain ⟨executor, t, failed, stepped, stays, child, some⟩ := readsFailure_step cfg inv reads
    have further : hearRun cfg (front ++ [event]) start = .ok t :=
      Run.run_append_ok.mpr ⟨s, reached, Run.run_cons_of_ok stepped []⟩
    obtain ⟨_, _, _, output⟩ := hearRun_output valid replied further stays child
    obtain ⟨head, formed, begins⟩ := answers.unexecuted (front ++ [event]) back t executor
      (by rw [split, List.append_assoc]; rfl) further stays child failed
    rw [output] at begins
    exact (hearRun_heardFailure valid failure further).not_begins child failed some formed begins
  · obtain ⟨task, inv⟩ := sessionRun_inv valid session (readsEnd_open ends)
    obtain ⟨executor, t, child, stepped, stays, live, trace⟩ := readsEnd_step cfg inv ends
    have linked := inv.child
    rw [child] at linked
    obtain ⟨state, _, req⟩ := linked
    have now := (sessionRun_now Replies.replied valid replied session).of_live inv.live
    have output : Trace.output executor.req t.peer.trace = Trace.childOutput s.peer.trace := by
      rw [trace, Trace.output_append, req, now.running state]
      exact List.append_nil _
    have formed := answers.failed front event [] back s t executor split reached child fails
      (Run.run_cons_of_ok stepped []) stays ⟨_, live, .inr ⟨req, .inr rfl⟩⟩
    rw [output] at formed
    exact (hearRun_heardFailure valid failure reached).not_head child nothing _ formed
  · obtain ⟨task, inv⟩ := sessionRun_inv valid session (pipeFails_open broken)
    obtain ⟨t, stepped, closed⟩ := pipeFails_step cfg inv broken
    have goesOn := answers.goesOn front event back s t split reached fails stepped
    rw [closed] at goesOn
    cases goesOn.1

end Liso
