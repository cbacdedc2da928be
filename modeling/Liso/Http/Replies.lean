import Liso.Http.Effect

/-! What is put for each request: where in its course a request is answered, and
that a request given to a child is answered by the child alone. -/

namespace Liso

namespace Trace

def output (req : Nat) (trace : List Event) : Bytes :=
  ((puts trace).filter fun byte => byte.req = req).map OutByte.val

def childrenStep : List Bytes → Event → List Bytes
  | outputs, .cgiBuffered _ => outputs ++ [[]]
  | outputs, .cgiRead data => outputs.dropLast ++ [outputs.getLastD [] ++ data]
  | outputs, _ => outputs

/-- What was read from each child, in the order in which they were started. -/
def children (trace : List Event) : List Bytes := trace.foldl childrenStep []

def childOutput (trace : List Event) : Bytes := (children trace).getLastD []

variable {req : Nat} {front back : List Event}

theorem output_append :
    output req (front ++ back) = output req front ++ output req back := by
  simp [output]

theorem output_none (other : ∀ byte ∈ puts front, byte.req ≠ req) : output req front = [] := by
  have none : ((puts front).filter fun byte => byte.req = req) = [] :=
    List.filter_eq_nil_iff.mpr fun byte member => by simpa using other byte member
  rw [output, none, List.map_nil]

theorem output_map {data : Bytes} (put : puts front = data.map (⟨·, req⟩)) :
    output req front = data := by
  have all : ((puts front).filter fun byte => byte.req = req) = puts front := by
    refine List.filter_eq_self.mpr fun byte member => ?_
    rw [put] at member
    obtain ⟨c, _, rfl⟩ := List.mem_map.mp member
    exact decide_eq_true rfl
  rw [output, all, put, List.map_map, Function.comp_def, List.map_id']

theorem children_append (front back : List Event) :
    children (front ++ back) = back.foldl childrenStep (children front) :=
  List.foldl_append

theorem children_ofPass {events : List Event} (passes : ∀ event ∈ events, event.ofPass = true)
    (outputs : List Bytes) : events.foldl childrenStep outputs = outputs := by
  refine foldl_ofPass (fun outputs event pass => ?_) passes outputs
  cases event <;> first | rfl | cases pass

theorem childrenStep_read (outputs : List Bytes) (output data : Bytes) :
    childrenStep (outputs ++ [output]) (.cgiRead data) = outputs ++ [output ++ data] := by
  simp only [childrenStep, List.dropLast_concat, List.getLastD_concat]

theorem childOutput_still (still : ∀ outputs, back.foldl childrenStep outputs = outputs) :
    childOutput (front ++ back) = childOutput front := by
  rw [childOutput, children_append, still, childOutput]

theorem childOutput_started
    (started : ∀ outputs, back.foldl childrenStep outputs = outputs ++ [[]]) :
    childOutput (front ++ back) = [] := by
  rw [childOutput, children_append, started, List.getLastD_concat]

theorem childOutput_read {data : Bytes}
    (read : ∀ outputs, back.foldl childrenStep outputs =
      outputs.dropLast ++ [outputs.getLastD [] ++ data]) :
    childOutput (front ++ back) = childOutput front ++ data := by
  rw [childOutput, children_append, read, List.getLastD_concat, childOutput]

theorem ofPass_put (bytes : List OutByte) :
    ∀ event ∈ bytes.map Event.put, event.ofPass = true := by
  intro event member
  obtain ⟨byte, _, rfl⟩ := List.mem_map.mp member
  rfl

end Trace

namespace HttpTask

def Unanswered (task : HttpTask) : Prop := task.state = .recvBody ∨ task.state = .checkCgi

def Between (task : HttpTask) : Prop := task.state = .recvHeader ∨ task.state = .finished

end HttpTask

/-- What the steps of a connection do to its task and its output. -/
inductive Replies (task next : HttpTask) (events : List Event) : Prop
  | quiet (silent : Trace.puts events = [])
      (still : ∀ outputs, events.foldl Trace.childrenStep outputs = outputs)
      (requests : next.requests = task.requests)
      (unanswered : next.Unanswered → task.Unanswered) (between : task.Between → next.Between)
      (running : next.state = .processingCgi → task.state = .processingCgi)
  | parsed (silent : Trace.puts events = []) (requests : next.requests = task.requests + 1)
      (idle : next.state ≠ .processingCgi)
  | put (tags : ∀ byte ∈ Trace.puts events, byte.req = task.requests)
      (requests : next.requests = task.requests) (answering : ¬ task.Between)
      (after : next.state = .sendBody ∨ next.state = .finished)
  | started (silent : Trace.puts events = [])
      (fresh : ∀ outputs, events.foldl Trace.childrenStep outputs = outputs ++ [[]])
      (requests : next.requests = task.requests) (unanswered : task.Unanswered)
      (running : next.state = .processingCgi)
  | piped (data : Bytes) (puts : Trace.puts events = data.map (⟨·, task.requests⟩))
      (reads : ∀ outputs, events.foldl Trace.childrenStep outputs =
        outputs.dropLast ++ [outputs.getLastD [] ++ data])
      (running : task.state = .processingCgi) (same : next = task)
  | ended (silent : Trace.puts events = []) (requests : next.requests = task.requests)
      (running : task.state = .processingCgi) (finished : next.state = .finished)

/-- The output up to now belongs to requests that were parsed, that of a child's request is the
child's, and nothing is put for a request before it is clear who answers it. -/
structure Replied (task : HttpTask) (trace : List Event) : Prop where
  bound : ∀ byte ∈ Trace.puts trace, byte.req ≤ task.requests
  unanswered : task.Unanswered → ∀ byte ∈ Trace.puts trace, byte.req < task.requests
  running : task.state = .processingCgi →
    Trace.output task.requests trace = Trace.childOutput trace

section Steps

variable {task next : HttpTask} {trace events : List Event}

private theorem unanswered_idle (unanswered : task.Unanswered) : task.state ≠ .processingCgi := by
  rcases unanswered with state | state <;> simp [state]

private theorem between_idle (between : task.Between) :
    ¬ task.Unanswered ∧ task.state ≠ .processingCgi := by
  rcases between with state | state <;> simp [HttpTask.Unanswered, state]

theorem Replies.replied (replies : Replies task next events) (replied : Replied task trace) :
    Replied next (trace ++ events) := by
  have silence (silent : Trace.puts events = []) :
      Trace.puts (trace ++ events) = Trace.puts trace := by
    rw [Trace.puts_append, silent, List.append_nil]
  have nothing (silent : Trace.puts events = []) (req : Nat) : Trace.output req events = [] := by
    rw [Trace.output, silent]
    rfl
  cases replies with
  | quiet silent still requests unanswered between running =>
      refine ⟨?_, ?_, ?_⟩
      · rw [silence silent, requests]
        exact replied.bound
      · rw [silence silent, requests]
        exact fun waits => replied.unanswered (unanswered waits)
      · intro state
        calc
          Trace.output next.requests (trace ++ events) = Trace.output task.requests trace := by
            rw [requests, Trace.output_append, nothing silent, List.append_nil]
          _ = Trace.childOutput trace := replied.running (running state)
          _ = Trace.childOutput (trace ++ events) := (Trace.childOutput_still still).symm
  | parsed silent requests idle =>
      have later (byte : OutByte) (member : byte ∈ Trace.puts (trace ++ events)) :
          byte.req < next.requests := by
        rw [silence silent] at member
        have bound := replied.bound byte member
        omega
      exact ⟨fun byte member => (later byte member).le, fun _ => later,
        fun state => absurd state idle⟩
  | put tags requests answering after =>
      refine ⟨?_, ?_, ?_⟩
      · intro byte member
        rw [Trace.puts_append, List.mem_append] at member
        rw [requests]
        rcases member with before | now
        · exact replied.bound byte before
        · exact (tags byte now).le
      · intro waits
        rcases waits with state | state <;> rcases after with last | last <;>
          · rw [last] at state
            cases state
      · intro state
        rcases after with last | last <;>
          · rw [last] at state
            cases state
  | started silent fresh requests unanswered running =>
      refine ⟨?_, ?_, ?_⟩
      · rw [silence silent, requests]
        exact replied.bound
      · exact fun waits => absurd running (unanswered_idle waits)
      · intro _
        calc
          Trace.output next.requests (trace ++ events) = Trace.output task.requests trace := by
            rw [requests, Trace.output_append, nothing silent, List.append_nil]
          _ = [] := Trace.output_none fun byte member =>
              (replied.unanswered unanswered byte member).ne
          _ = Trace.childOutput (trace ++ events) := (Trace.childOutput_started fresh).symm
  | piped data puts reads running same =>
      subst same
      refine ⟨?_, ?_, ?_⟩
      · intro byte member
        rw [Trace.puts_append, List.mem_append, puts] at member
        rcases member with before | now
        · exact replied.bound byte before
        · obtain ⟨c, _, rfl⟩ := List.mem_map.mp now
          exact Nat.le_refl _
      · exact fun waits => absurd running (unanswered_idle waits)
      · intro _
        calc
          Trace.output next.requests (trace ++ events) =
              Trace.output next.requests trace ++ data := by
            rw [Trace.output_append, Trace.output_map puts]
          _ = Trace.childOutput trace ++ data := by rw [replied.running running]
          _ = Trace.childOutput (trace ++ events) := (Trace.childOutput_read reads).symm
  | ended silent requests running finished =>
      have between : next.Between := .inr finished
      refine ⟨?_, ?_, ?_⟩
      · rw [silence silent, requests]
        exact replied.bound
      · exact fun waits => absurd waits (between_idle between).1
      · exact fun state => absurd state (between_idle between).2

end Steps

theorem Taken.runs {cfg : Config} {task next : HttpTask} {request : Request}
    (took : Taken cfg task request next) : next.state ≠ .processingCgi := by
  cases took <;> simp

section Passes

variable {cfg : Config} {os : Os} {h : Handling} {task next : HttpTask} {events : List Event}

private theorem Replies.silent (silent : Trace.puts events = [])
    (still : ∀ outputs, events.foldl Trace.childrenStep outputs = outputs)
    (requests : next.requests = task.requests)
    (course : next.state = task.state ∨
      ¬ next.Unanswered ∧ ¬ task.Between ∧ next.state ≠ .processingCgi) :
    Replies task next events := by
  refine .quiet silent still requests ?_ ?_ ?_
  · intro unanswered
    rcases course with same | ⟨answered, _⟩
    · rwa [HttpTask.Unanswered, same] at unanswered
    · exact absurd unanswered answered
  · intro between
    rcases course with same | ⟨_, within, _⟩
    · rwa [HttpTask.Between, same]
    · exact absurd between within
  · intro running
    rcases course with same | ⟨_, _, idle⟩
    · exact same.symm.trans running
    · exact absurd running idle

private theorem FileStreamed.replies {file : File} {status : StreamStatus} {fp : Ptr File}
    {peer : Peer} (next : HttpTask) (inv : h.Inv) (state : h.task.state = .sendBody)
    (opened : h.task.fp = .live file) (streamed : FileStreamed file h.peer (status, fp, peer))
    (requests : next.requests = h.task.requests)
    (after : next.state = .sendBody ∨ next.state = .finished) :
    ∃ events, peer.trace = h.peer.trace ++ events ∧ Replies h.task next events := by
  have req := inv.openedFor state opened
  obtain ⟨bytes, put, events, puts, tags, closing, shape⟩ := streamed.puts
  obtain ⟨sendingBuffer, rfl⟩ := puts.frame
  have silent : Trace.puts events = [] := by
    rcases closing with rfl | rfl <;> rfl
  refine ⟨bytes.map .put ++ events, ?_, .put ?_ requests ?_ after⟩
  · rw [← List.append_assoc]
    exact congrArg Peer.trace shape
  · rw [Trace.puts_append, Trace.puts_map_put, silent, List.append_nil]
    exact fun byte member => (tags byte member).trans req
  · simp [HttpTask.Between, state]

theorem PassCases.replies {pass : Pass} (inv : h.Inv) (result : PassCases cfg os h pass) :
    ∃ events, pass.handling.peer.trace = h.peer.trace ++ events ∧
      Replies h.task pass.handling.task events := by
  have nothing (peer : Peer) : peer.trace = peer.trace ++ [] := (List.append_nil _).symm
  cases result with
  | headerShort state scanning read =>
      cases read
      exact ⟨[], nothing _, .silent rfl (fun _ => rfl) rfl (.inl rfl)⟩
  | headerLong state scanning read =>
      cases read
      exact ⟨[], nothing _, .silent rfl (fun _ => rfl) rfl (.inl rfl)⟩
  | headerBad state scanning read whole bad =>
      cases read
      exact ⟨_, rfl, .parsed rfl rfl (by simp [Pass.handling, state])⟩
  | headerGood state scanning read whole good took =>
      cases read
      refine ⟨_, rfl, .parsed ?_ took.requests took.runs⟩
      split <;> rfl
  | bodyShort state part read =>
      cases read
      exact ⟨[], nothing _, .silent rfl (fun _ => rfl) rfl (.inl rfl)⟩
  | bodyWhole state part read =>
      cases read
      refine ⟨_, rfl, .quiet rfl (fun _ => rfl) rfl (fun _ => .inl state) ?_ ?_⟩
      · simp [HttpTask.Between, state]
      · simp [Pass.handling]
  | generated state written =>
      obtain ⟨responseBuf, rfl⟩ := written.frame
      refine ⟨[], nothing _, .silent rfl (fun _ => rfl) rfl (.inr ?_)⟩
      simp [HttpTask.Unanswered, HttpTask.Between, Pass.handling, state]
  | headSent state sent =>
      obtain ⟨front, puts, start⟩ := sent.puts
      obtain ⟨responseBuf, rfl, _, _⟩ := sent.left
      obtain ⟨sendingBuffer, rfl⟩ := puts.frame
      refine ⟨_, rfl, .put ?_ rfl ?_ (afterHead_cases _)⟩
      · rw [Trace.puts_map_put]
        exact fun byte member => inv.task.tags byte (start.subset member)
      · simp [HttpTask.Between, state]
  | cgiStarted state live cgi started =>
      obtain ⟨executor, _, _, rfl⟩ := started.started
      exact ⟨_, rfl, .started rfl (fun _ => rfl) rfl (.inr state) rfl⟩
  | staticHead state live static method found =>
      have course {next : HttpTask} {code : Int} : ¬ HttpTask.Unanswered { next with
            responseCode := code
            state := if code = okNum then .sendHeader else .generateHeader } ∧
          ¬ h.task.Between ∧
          (if code = okNum then HttpState.sendHeader else .generateHeader) ≠ .processingCgi := by
        split <;> simp [HttpTask.Unanswered, HttpTask.Between, state]
      cases found with
      | missing path absent =>
          exact ⟨[], rfl, .silent rfl (fun _ => rfl) rfl (.inr course)⟩
      | unopened path present written described noFile =>
          obtain ⟨responseBuf, rfl⟩ := written.frame
          exact ⟨[], rfl, .silent rfl (fun _ => rfl) rfl (.inr course)⟩
      | opened path present written described hasFile =>
          obtain ⟨responseBuf, rfl⟩ := written.frame
          exact ⟨_, rfl, .silent rfl (fun _ => rfl) rfl (.inr course)⟩
  | staticPost state live static post =>
      refine ⟨[], nothing _, .silent rfl (fun _ => rfl) rfl (.inr ?_)⟩
      simp [HttpTask.Unanswered, HttpTask.Between, Pass.handling, state]
  | fileWaits state opened streamed => exact streamed.replies _ inv state opened rfl (.inl state)
  | fileFails state opened streamed => exact streamed.replies _ inv state opened rfl (.inl state)
  | fileDone state opened streamed => exact streamed.replies _ inv state opened rfl (.inr rfl)

theorem httpLoop_keeps {P : HttpTask → List Event → Prop}
    (keeps : ∀ {task next trace events}, Replies task next events → P task trace →
      P next (trace ++ events))
    {fuel : Nat} {last : Handling} {code : Code} (inv : h.Inv) (start : P h.task h.peer.trace)
    (ran : httpLoop cfg os fuel h = some (.ok (code, last))) : P last.task last.peer.trace := by
  have passed {middle : Handling} {pass : Pass} (valid : middle.Inv)
      (kept : P middle.task middle.peer.trace) (result : PassCases cfg os middle pass) :
      P pass.handling.task pass.handling.peer.trace := by
    obtain ⟨events, trace, replies⟩ := result.replies valid
    rw [trace]
    exact keeps replies kept
  refine httpLoop_rule (P := fun h => P h.task h.peer.trace)
    (Q := fun _ next => P next.task next.peer.trace) ?_ ?_ ?_ inv start ran
  · exact fun h next valid kept result => passed valid kept result
  · exact fun h code next valid kept result => passed valid kept result
  · intro h code next valid kept finished done
    have reset (events : List Event) (silent : Trace.puts events = [])
        (still : ∀ outputs, events.foldl Trace.childrenStep outputs = outputs) :
        Replies h.task (resetHttpTask h.task) events :=
      .quiet silent still rfl (by simp [HttpTask.Unanswered, resetHttpTask])
        (fun _ => .inl rfl) nofun
    rcases finishRequest_cases done with ⟨rfl, ⟨_, rfl⟩ | ⟨_, _, rfl⟩⟩
    · have kept := keeps (reset [] rfl fun _ => rfl) kept
      rwa [List.append_nil] at kept
    · exact keeps (reset _ rfl fun _ => rfl) kept

theorem handleHttp_keeps {P : HttpTask → List Event → Prop}
    (keeps : ∀ {task next trace events}, Replies task next events → P task trace →
      P next (trace ++ events))
    {request after : Ptr RequestCell} {peer left : Peer} {code : Code} (inv : peer.Inv task)
    (start : P task peer.trace) (called : handleHttp cfg os request peer = .ok (code, after, left)) :
    ∃ last, left.httpTask = .live last ∧ P last left.trace := by
  rcases handleHttp_cases inv.live called with ⟨_, _, _, rfl⟩ | ⟨_, last, _, rfl, ran⟩
  · exact ⟨task, inv.live, start⟩
  · have ready : Handling.Inv ⟨request, task, peer⟩ := ⟨inv.valid, inv.sending, inv.receiving⟩
    exact ⟨last.task, rfl, httpLoop_keeps keeps ready start ran⟩

end Passes

end Liso
