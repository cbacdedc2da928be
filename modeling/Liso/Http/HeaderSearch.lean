import Liso.Http.Handler

/-! The search of `read_header_data` over a whole stream, however it is cut into calls, and
the second search for the same terminator that `parse` makes. -/

namespace Liso

def headerRead (task : HttpTask) : Bytes := task.parseBuf.read task.parseBufIdx

def arrives (peer : Peer) (piece : Bytes) : Peer :=
  { peer with receivingBuffer := (bufWrite peer.receivingBuffer piece).2 }

theorem arrives_fits (peer : Peer) (piece : Bytes) (receiving : peer.receivingBuffer.Inv)
    (fits : peer.receivingBuffer.content.length + piece.length ≤ bufDataMaxsize) :
    (arrives peer piece).receivingBuffer.Inv ∧
      (arrives peer piece).receivingBuffer.content = peer.receivingBuffer.content ++ piece := by
  obtain ⟨buf, wrote, inv, content⟩ := receiving.write_fits piece fits
  rw [arrives, wrote]
  exact ⟨inv, content⟩

/-- The calls of `read_header_data` for one header, with the pieces that arrive after each of
them. The last call is looked at after `passes` passes of its loop. -/
def headerCalls (passes : Nat) : List Bytes → HttpTask → Peer →
    Except Fault (HeaderStatus × HttpTask × Peer × List Bytes)
  | [], task, peer =>
      match readHeaderLoop passes task peer.receivingBuffer with
      | .error fault => .error fault
      | .ok (status, task, receivingBuffer) => .ok (status, task, { peer with receivingBuffer }, [])
  | piece :: pieces, task, peer =>
      match readHeaderData task peer with
      | .error fault => .error fault
      | .ok (.emptyRecvBuf, task, peer) => headerCalls passes pieces task (arrives peer piece)
      | .ok (status, task, peer) => .ok (status, task, peer, piece :: pieces)

/-- Where a search in `stream` stands when `later` has not been read. The status counts the
bytes of the terminator that end what was read, until `EXIT_SUCCESS` resets it. -/
structure Searched (stream : Bytes) (status : HeaderStatus) (task : HttpTask) (later : Bytes) :
    Prop where
  whole : stream = headerRead task ++ later
  short : (headerRead task).length ≤ bufDataMaxsize
  border : status ≠ .ready →
    task.headerTermTokenStatus = Matcher.border terminator (headerRead task)
  clear : status ≠ .ready → Matcher.Clear terminator (headerRead task)
  found : status = .ready → Matcher.cutAfter terminator stream = some (headerRead task, later)
  overflow : status ≠ .ready →
    (status = .parserBufOverflow ↔ (headerRead task).length = bufDataMaxsize)

private theorem HeaderPasses.searched {task next : HttpTask} {text : Bytes}
    {recv left : Cbuf UInt8} {passes : Nat} {status : HeaderStatus} (coming : Bytes)
    (passed : HeaderPasses task text recv passes (status, next, left)) :
    left.Inv ∧ Searched (text ++ recv.content ++ coming) status next (left.content ++ coming) := by
  cases passed with
  | ready size read whole cut short inv =>
      subst read
      refine ⟨inv, ?_, short, fun other => absurd rfl other, fun other => absurd rfl other,
        fun _ => ?_, fun other => absurd rfl other⟩
      · rw [whole, List.append_assoc]
        rfl
      · rw [whole, List.append_assoc]
        exact cut _
  | emptyRecvBuf scanning inv rest =>
      have read := scanning.read
      have short := scanning.short
      refine ⟨inv, ?_, ?_, fun _ => ?_, fun _ => ?_, fun other => ?_, fun _ => ?_⟩
      · have split := List.take_append_drop passes recv.content
        calc text ++ recv.content ++ coming
            = text ++ (recv.content.take passes ++ recv.content.drop passes) ++ coming := by
              rw [split]
          _ = text ++ recv.content.take passes ++ (recv.content.drop passes ++ coming) := by
              simp only [List.append_assoc]
          _ = _ := by rw [headerRead, read, rest]
      · rw [headerRead, read]
        exact Nat.le_of_lt short
      · rw [headerRead, read]
        exact scanning.status
      · rw [headerRead, read]
        exact scanning.clear
      · cases other
      · rw [headerRead, read]
        exact ⟨nofun, fun full => absurd full (Nat.ne_of_lt short)⟩
  | parserBufOverflow read status whole clear full inv =>
      subst read
      refine ⟨inv, ?_, Nat.le_of_eq full, fun _ => status, fun _ => clear, fun other => ?_,
        fun _ => ?_⟩
      · rw [whole, List.append_assoc]
        rfl
      · cases other
      · exact ⟨fun _ => full, fun _ => rfl⟩

private theorem headerCalls_waits {passes : Nat} {piece : Bytes} {pieces : List Bytes}
    {task next : HttpTask} {peer after : Peer}
    (read : readHeaderData task peer = .ok (.emptyRecvBuf, next, after)) :
    headerCalls passes (piece :: pieces) task peer =
      headerCalls passes pieces next (arrives after piece) := by
  rw [headerCalls, read]

theorem headerCalls_searched (passes : Nat) (pieces : List Bytes) {task : HttpTask} {peer : Peer}
    {text : Bytes} (scanning : Scanning task text) (receiving : peer.receivingBuffer.Inv)
    (fits : ∀ piece ∈ pieces, piece.length ≤ bufDataMaxsize) :
    ∃ status next after coming, headerCalls passes pieces task peer =
        .ok (status, next, after, coming) ∧
      Searched (text ++ peer.receivingBuffer.content ++ pieces.flatten) status next
        (after.receivingBuffer.content ++ coming.flatten) ∧
      (bufDataMaxsize ≤ passes → status = .emptyRecvBuf →
        after.receivingBuffer.content ++ coming.flatten = []) := by
  induction pieces generalizing task peer text with
  | nil =>
      obtain ⟨⟨status, next, left⟩, ran, passed⟩ :=
        readHeaderLoop_passes passes scanning receiving
      have searched := (passed.searched []).2
      rw [headerCalls, ran]
      refine ⟨_, _, _, _, rfl, searched, fun all waits => ?_⟩
      subst waits
      cases passed with
      | emptyRecvBuf scanning inv rest =>
          have bound := receiving.content_fits
          rw [List.flatten_nil, List.append_nil]
          refine rest.trans (List.drop_eq_nil_iff.mpr (Nat.le_trans bound all))
  | cons piece pieces ih =>
      obtain ⟨⟨status, next, left⟩, ran, passed⟩ :=
        readHeaderLoop_passes peer.receivingBuffer.numByte scanning receiving
      have searched := passed.searched (piece :: pieces).flatten
      have read : readHeaderData task peer =
          .ok (status, next, { peer with receivingBuffer := left }) := by
        rw [readHeaderData, ran]
      cases status with
      | ready =>
          rw [headerCalls, read]
          exact ⟨_, _, _, _, rfl, searched.2, nofun⟩
      | parserBufOverflow =>
          rw [headerCalls, read]
          exact ⟨_, _, _, _, rfl, searched.2, nofun⟩
      | emptyRecvBuf =>
          rw [headerCalls_waits read]
          cases passed with
          | @emptyRecvBuf parseBuf parseBufIdx headerTermTokenStatus _ scanning inv rest =>
              have all := peer.receivingBuffer.content_length
              rw [← all, List.take_length] at scanning
              rw [← all, List.drop_length] at rest
              have room := fits piece List.mem_cons_self
              have arrived := arrives_fits { peer with receivingBuffer := left } piece inv
                (by simpa [rest])
              have more := ih scanning arrived.1
                fun other member => fits other (List.mem_cons_of_mem _ member)
              simpa [arrived.2, rest] using more

private theorem Searched.overflow_iff {stream : Bytes} {status : HeaderStatus} {task : HttpTask}
    {later : Bytes} (searched : Searched stream status task later)
    (all : status = .emptyRecvBuf → later = []) :
    status = .parserBufOverflow ↔ bufDataMaxsize ≤ stream.length ∧
      Matcher.Clear terminator (stream.take bufDataMaxsize) := by
  have whole := searched.whole
  cases status with
  | ready =>
      refine ⟨nofun, fun ⟨_, clear⟩ => ?_⟩
      have ends := (Matcher.cutAfter_some _ _ (searched.found rfl)).2
      have front : headerRead task <+: stream.take bufDataMaxsize :=
        List.prefix_take_iff.mpr ⟨⟨later, whole.symm⟩, searched.short⟩
      exact absurd ends (clear _ front)
  | emptyRecvBuf =>
      refine ⟨nofun, fun ⟨long, _⟩ => ?_⟩
      rw [whole, all rfl, List.append_nil] at long
      have full := Nat.le_antisymm searched.short long
      exact (searched.overflow nofun).mpr full
  | parserBufOverflow =>
      refine ⟨fun _ => ?_, fun _ => rfl⟩
      have full := (searched.overflow nofun).mp rfl
      rw [whole, ← full, List.take_left, List.length_append]
      exact ⟨Nat.le_add_right _ _, searched.clear nofun⟩

/-- `read_header_data` finds the first terminator of any stream, cut into calls in any way. -/
theorem readHeaderData_exact (passes : Nat) (pieces : List Bytes) (task : HttpTask) (peer : Peer)
    (size : task.parseBuf.size = bufDataMaxsize) (index : task.parseBufIdx = 0)
    (status : task.headerTermTokenStatus = 0) (receiving : peer.receivingBuffer.Inv)
    (fits : ∀ piece ∈ pieces, piece.length ≤ bufDataMaxsize) :
    ∃ status next after coming, headerCalls passes pieces task peer =
        .ok (status, next, after, coming) ∧
      Searched (peer.receivingBuffer.content ++ pieces.flatten) status next
        (after.receivingBuffer.content ++ coming.flatten) ∧
      (bufDataMaxsize ≤ passes →
        (status = .parserBufOverflow ↔
          bufDataMaxsize ≤ (peer.receivingBuffer.content ++ pieces.flatten).length ∧
            Matcher.Clear terminator
              ((peer.receivingBuffer.content ++ pieces.flatten).take bufDataMaxsize))) := by
  have scanning : Scanning task [] := by
    refine ⟨size, ?_, ?_, Matcher.Clear.nil (by decide), by decide⟩
    · rw [index, Block.read_zero]
    · rw [status, Matcher.border_nil]
  obtain ⟨status, next, after, coming, ran, searched, all⟩ :=
    headerCalls_searched passes pieces scanning receiving fits
  rw [List.nil_append] at searched
  exact ⟨status, next, after, coming, ran, searched, fun whole =>
    searched.overflow_iff (all whole)⟩

theorem readHeaderData_exact_pieces :
    ∃ status next after coming, headerCalls bufDataMaxsize
        [str "GET / HTTP/1.1\r\nHost: a\r\n\r", str "\nGET"] createHttpTask createPeer =
        .ok (status, next, after, coming) ∧
      Searched (createPeer.receivingBuffer.content ++
          [str "GET / HTTP/1.1\r\nHost: a\r\n\r", str "\nGET"].flatten) status next
        (after.receivingBuffer.content ++ coming.flatten) ∧
      (bufDataMaxsize ≤ bufDataMaxsize →
        (status = .parserBufOverflow ↔
          bufDataMaxsize ≤ (createPeer.receivingBuffer.content ++
              [str "GET / HTTP/1.1\r\nHost: a\r\n\r", str "\nGET"].flatten).length ∧
            Matcher.Clear terminator ((createPeer.receivingBuffer.content ++
              [str "GET / HTTP/1.1\r\nHost: a\r\n\r", str "\nGET"].flatten).take
                bufDataMaxsize))) :=
  readHeaderData_exact bufDataMaxsize _ createHttpTask createPeer rfl rfl rfl
    (Cbuf.reset_inv _) (by decide)

def ParseState.part : ParseState → Bytes
  | .start => []
  | .cr => [cl]
  | .crlf => [cl, rf]
  | .crlfcr => [cl, rf, cl]
  | .crlfcrlf => terminator

def crRun (text : Bytes) : Nat := (text.reverse.takeWhile (· = cl)).length

theorem crRun_snoc_cr (text : Bytes) : crRun (text ++ [cl]) = crRun text + 1 := by
  simp [crRun]

theorem crRun_snoc_other (text : Bytes) (data : UInt8) (other : data ≠ cl) :
    crRun (text ++ [data]) = 0 := by
  simp [crRun, other]

theorem ParseState.step_part (state : ParseState) (unfinished : state ≠ .crlfcrlf) (data : UInt8) :
    (state.step data).part = [] ∨ (state.step data).part = state.part ++ [data] := by
  cases state with
  | crlfcrlf => exact absurd rfl unfinished
  | start | crlf =>
      by_cases same : data = cl
      · right
        simp [step, part, same]
      · left
        simp [step, part, same]
  | cr | crlfcr =>
      by_cases same : data = rf
      · right
        simp [step, part, same, terminator]
      · left
        simp [step, part, same]

/-- Where the scan stands after a text without terminator: in the middle of a CR LF exactly
when an odd number of CR bytes ends the text. -/
structure Scanned (text : Bytes) (state : ParseState) : Prop where
  unfinished : state ≠ .crlfcrlf
  ends : state.part <:+ text
  odd : state = .cr ∨ state = .crlfcr ↔ ¬ crRun text % 2 = 0

theorem Scanned.snoc {text : Bytes} {state : ParseState} {data : UInt8}
    (scanned : Scanned text state) (none : ¬ terminator <:+ text ++ [data]) :
    Scanned (text ++ [data]) (state.step data) := by
  have ends : (state.step data).part <:+ text ++ [data] := by
    rcases state.step_part scanned.unfinished data with empty | longer
    · rw [empty]
      exact List.nil_suffix
    · obtain ⟨front, whole⟩ := scanned.ends
      rw [longer, ← whole, List.append_assoc]
      exact List.suffix_append _ _
  refine ⟨fun finished => ?_, ends, ?_⟩
  · rw [finished] at ends
    exact none ends
  · have odd := scanned.odd
    by_cases isCr : data = cl
    · subst isCr
      rw [crRun_snoc_cr]
      cases state with
      | crlfcrlf => exact absurd rfl scanned.unfinished
      | start | crlf =>
          simp only [ParseState.step, if_true]
          simp at odd ⊢
          omega
      | cr | crlfcr =>
          simp only [ParseState.step, if_neg (show cl ≠ rf by decide)]
          simp at odd ⊢
          omega
    · rw [crRun_snoc_other text data isCr]
      cases state with
      | crlfcrlf => exact absurd rfl scanned.unfinished
      | start | crlf => simp [ParseState.step, isCr]
      | cr | crlfcr =>
          simp only [ParseState.step]
          split <;> simp

theorem parseScan_clear (text : Bytes) (clear : Matcher.Clear terminator text) :
    ∃ state, Scanned text state ∧
      ∀ rest, parseScan .start (text ++ rest) 0 = parseScan state rest text.length := by
  induction text using List.reverseRecOn with
  | nil => exact ⟨.start, ⟨by decide, List.nil_suffix, by decide⟩, fun rest => rfl⟩
  | append_singleton text data ih =>
      have before : Matcher.Clear terminator text := fun front start =>
        clear front (start.trans (List.prefix_append _ _))
      obtain ⟨state, scanned, ran⟩ := ih before
      refine ⟨state.step data, scanned.snoc (clear _ (List.prefix_refl _)), fun rest => ?_⟩
      calc
        parseScan .start (text ++ [data] ++ rest) 0 =
            parseScan state (data :: rest) text.length := by
          rw [List.append_assoc, ran, List.singleton_append]
        _ = parseScan (state.step data) rest (text.length + 1) :=
          parseScan_cons _ scanned.unfinished _ _ _
        _ = parseScan (state.step data) rest (text ++ [data]).length := by
          rw [List.length_append, List.length_singleton]

def crsBefore (block : Bytes) : Nat := crRun (block.take (block.length - terminator.length))

/-- `parse` hands the whole block to the grammar. -/
def HandedOn (block : Bytes) : Prop := parseScan .start block 0 = (.crlfcrlf, block.length)

theorem handedOn_block (block : Bytes) (ends : terminator <:+ block)
    (earliest : ∀ front, front <+: block → terminator <:+ front → front = block) :
    HandedOn block ↔ crsBefore block % 2 = 0 := by
  obtain ⟨text, rfl⟩ := ends
  have proper (front : Bytes) (start : front <+: text ++ [cl, rf, cl]) :
      ¬ terminator <:+ front := by
    intro inside
    have longer : text ++ [cl, rf, cl] <+: text ++ terminator := ⟨[rf], by simp [terminator]⟩
    have same := earliest front (start.trans longer) inside
    have short := start.length_le
    rw [same] at short
    simp [terminator] at short
  have clear : Matcher.Clear terminator text := fun front start =>
    proper front (start.trans (List.prefix_append _ _))
  have before : crsBefore (text ++ terminator) = crRun text := by
    rw [crsBefore, List.length_append, Nat.add_sub_cancel, List.take_left]
  obtain ⟨state, scanned, ran⟩ := parseScan_clear text clear
  have odd := scanned.odd
  rw [HandedOn, ran, before, List.length_append]
  cases state with
  | crlfcrlf => exact absurd rfl scanned.unfinished
  | start =>
      have even : crRun text % 2 = 0 := by simpa using odd
      exact ⟨fun _ => even, fun _ => rfl⟩
  | crlf =>
      -- CR LF before the terminator would be the first half of an earlier one
      obtain ⟨front, rfl⟩ := scanned.ends
      refine absurd ?_ (proper (front ++ [cl, rf] ++ [cl, rf]) ?_)
      · rw [List.append_assoc]
        exact List.suffix_append _ _
      · exact ⟨[cl], by simp [ParseState.part]⟩
  | cr | crlfcr =>
      have isOdd : ¬ crRun text % 2 = 0 := by simpa using odd
      refine ⟨fun handed => ?_, fun even => absurd even isOdd⟩
      have stuck := congrArg Prod.fst handed
      cases stuck

/-- `parse` takes over the block of a finished search exactly when an even number of CR bytes
stands before its terminator. -/
theorem handedOn_iff (passes : Nat) (pieces : List Bytes) (task : HttpTask) (peer : Peer)
    (size : task.parseBuf.size = bufDataMaxsize) (index : task.parseBufIdx = 0)
    (status : task.headerTermTokenStatus = 0) (receiving : peer.receivingBuffer.Inv)
    (fits : ∀ piece ∈ pieces, piece.length ≤ bufDataMaxsize) (next : HttpTask) (after : Peer)
    (coming : List Bytes)
    (ran : headerCalls passes pieces task peer = .ok (.ready, next, after, coming)) :
    HandedOn (headerRead next) ↔ crsBefore (headerRead next) % 2 = 0 := by
  obtain ⟨_, _, _, _, same, searched, _⟩ :=
    readHeaderData_exact passes pieces task peer size index status receiving fits
  cases ran.symm.trans same
  have found := searched.found rfl
  refine handedOn_block _ (Matcher.cutAfter_some _ _ found).2 fun front start ends => ?_
  exact Matcher.cutAfter_earliest found start ends

private theorem headerCalls_read {stream block : Bytes}
    (found : (headerCalls bufDataMaxsize [] createHttpTask (arrives createPeer stream)).map
      (fun result => (result.1, headerRead result.2.1, result.2.2.2)) = .ok (.ready, block, [])) :
    ∃ next after, headerCalls bufDataMaxsize [] createHttpTask (arrives createPeer stream) =
      .ok (.ready, next, after, []) ∧ headerRead next = block := by
  cases ran : headerCalls bufDataMaxsize [] createHttpTask (arrives createPeer stream) with
  | error fault =>
      rw [ran] at found
      cases found
  | ok result =>
      obtain ⟨status, next, after, coming⟩ := result
      rw [ran] at found
      simp only [Except.map, Except.ok.injEq, Prod.mk.injEq] at found
      obtain ⟨rfl, read, rfl⟩ := found
      exact ⟨next, after, rfl, read⟩

/-- A header line that ends in CR CR LF. -/
theorem handedOn_doubled_cr : ∃ next after,
    headerCalls bufDataMaxsize [] createHttpTask
      (arrives createPeer (str "GET / HTTP/1.1\r\nHost: a\r\r\n\r\n")) =
        .ok (.ready, next, after, []) ∧ ¬ HandedOn (headerRead next) := by
  have found : (headerCalls bufDataMaxsize [] createHttpTask
      (arrives createPeer (str "GET / HTTP/1.1\r\nHost: a\r\r\n\r\n"))).map
        (fun result => (result.1, headerRead result.2.1, result.2.2.2)) =
      .ok (.ready, str "GET / HTTP/1.1\r\nHost: a\r\r\n\r\n", []) := by decide +kernel
  obtain ⟨next, after, ran, read⟩ := headerCalls_read found
  refine ⟨next, after, ran, ?_⟩
  rw [read, HandedOn]
  decide +kernel

theorem handedOn_plain : ∃ next after,
    headerCalls bufDataMaxsize [] createHttpTask
      (arrives createPeer (str "GET / HTTP/1.1\r\nHost: a\r\n\r\n")) =
        .ok (.ready, next, after, []) ∧ HandedOn (headerRead next) := by
  have found : (headerCalls bufDataMaxsize [] createHttpTask
      (arrives createPeer (str "GET / HTTP/1.1\r\nHost: a\r\n\r\n"))).map
        (fun result => (result.1, headerRead result.2.1, result.2.2.2)) =
      .ok (.ready, str "GET / HTTP/1.1\r\nHost: a\r\n\r\n", []) := by decide +kernel
  obtain ⟨next, after, ran, read⟩ := headerCalls_read found
  have arrived := arrives_fits createPeer (str "GET / HTTP/1.1\r\nHost: a\r\n\r\n")
    (Cbuf.reset_inv _) (by decide)
  refine ⟨next, after, ran, ?_⟩
  refine (handedOn_iff _ [] createHttpTask _ rfl rfl rfl arrived.1
    (List.forall_mem_nil _) next after [] ran).mpr ?_
  rw [read]
  decide +kernel

end Liso
