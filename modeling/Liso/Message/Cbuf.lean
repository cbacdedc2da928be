import Liso.Lib.RingBuffer
import Liso.Lib.Run

/-! The ring buffer `cbuf_t` of message.c and its refinement of the bounded
queue with undo. The code never looks into a cell, so the cell type is a
parameter: plain bytes on the receiving side, bytes with their origin on the
sending side. -/

namespace Liso

open RingBuffer

def bufDataMaxsize : Nat := 1024 * 8

inductive ExitStatus
  | success
  | failure
  deriving DecidableEq, Repr

/-- `cbuf_t`. The array `data` is its memory; `Cbuf.Inv` keeps both indices inside it. -/
structure Cbuf (α : Type) where
  data : Nat → α
  head : Nat
  tail : Nat
  size : Nat
  numByte : Nat

variable {α : Type}

def bufReset (c : Cbuf α) : Cbuf α :=
  { c with head := 0, tail := 0, size := bufDataMaxsize, numByte := 0 }

def bufAvailable (c : Cbuf α) : Nat := c.size - c.numByte

def bufEmpty (c : Cbuf α) : Bool := bufAvailable c == c.size

def bufFull (c : Cbuf α) : Bool := bufAvailable c == 0

def bufPut (c : Cbuf α) (value : α) : ExitStatus × Cbuf α :=
  if !bufFull c then
    (.success, { c with
      data := store c.data c.head value
      head := (c.head + 1) % c.size
      numByte := c.numByte + 1 })
  else (.failure, c)

/-- `some` is EXIT_SUCCESS with the byte stored through `data`, `none` EXIT_FAILURE. -/
def bufGet (c : Cbuf α) : Option α × Cbuf α :=
  if !bufEmpty c then
    (some (c.data c.tail), { c with tail := (c.tail + 1) % c.size, numByte := c.numByte - 1 })
  else (none, c)

def bufPutback (c : Cbuf α) : ExitStatus × Cbuf α :=
  if !bufFull c then
    let tail := if c.tail = 0 then c.size else c.tail
    (.success, { c with tail := tail - 1, numByte := c.numByte + 1 })
  else (.failure, c)

def bufReadLoop : Nat → Cbuf α → Option (List α) × Cbuf α
  | 0, c => (some [], c)
  | count + 1, c =>
      match bufGet c with
      | (none, c) => (none, c)
      | (some value, c) =>
          let (rest, c) := bufReadLoop count c
          (rest.map (value :: ·), c)

/-- `some values` is the returned count with the bytes stored in `data`, `none` EXIT_FAILURE. -/
def bufRead (c : Cbuf α) (numBytes : Nat) : Option (List α) × Cbuf α :=
  bufReadLoop (if numBytes > c.numByte then c.numByte else numBytes) c

def bufWriteLoop : List α → Cbuf α → ExitStatus × Cbuf α
  | [], c => (.success, c)
  | value :: rest, c =>
      match bufPut c value with
      | (.failure, c) => (.failure, c)
      | (.success, c) => bufWriteLoop rest c

/-- The return value of the C function: the count written, or -1. -/
def bufWrite (c : Cbuf α) (values : List α) : Int × Cbuf α :=
  if values.length > bufAvailable c then (-1, c)
  else
    match bufWriteLoop values c with
    | (.failure, c) => (-1, c)
    | (.success, c) => (values.length, c)

namespace Cbuf

def content (c : Cbuf α) : List α := window c.size c.data c.tail c.numByte

structure Inv (c : Cbuf α) : Prop where
  size_eq : c.size = bufDataMaxsize
  head_lt : c.head < c.size
  tail_lt : c.tail < c.size
  num_le : c.numByte ≤ c.size
  head_eq : c.head = (c.tail + c.numByte) % c.size

/-- The free cells behind `tail` still hold the latest removals, as far back as there are any. -/
def Backed (c : Cbuf α) (removed : List α) : Prop :=
  ∀ k value, removed[k]? = some value → k < c.size - c.numByte →
    c.data (behind c.size c.tail k) = value

/-- The buffer holds the queue, and behind it the values that can be put back. -/
structure Refines (c : Cbuf α) (q : Fifo α) : Prop where
  inv : c.Inv
  queue : c.content = q.queue
  backed : c.Backed q.removed

@[simp] theorem content_length (c : Cbuf α) : c.content.length = c.numByte := by
  simp [content]

theorem Inv.size_pos {c : Cbuf α} (inv : c.Inv) : 0 < c.size := by
  have := inv.tail_lt
  omega

theorem Inv.full_iff {c : Cbuf α} (inv : c.Inv) : bufFull c = true ↔ c.numByte = c.size := by
  have := inv.num_le
  simp only [bufFull, bufAvailable, beq_iff_eq]
  omega

theorem Inv.empty_iff {c : Cbuf α} (inv : c.Inv) : bufEmpty c = true ↔ c.numByte = 0 := by
  have := inv.num_le
  have := inv.size_pos
  simp only [bufEmpty, bufAvailable, beq_iff_eq]
  omega

theorem Inv.refines {c : Cbuf α} (inv : c.Inv) : c.Refines ⟨c.content, []⟩ :=
  ⟨inv, rfl, by simp [Backed]⟩

theorem Refines.length_eq {c : Cbuf α} {q : Fifo α} (refines : c.Refines q) :
    q.queue.length = c.numByte := by
  rw [← refines.queue, content_length]

theorem Refines.fits {c : Cbuf α} {q : Fifo α} (refines : c.Refines q) :
    q.queue.length ≤ bufDataMaxsize := by
  rw [refines.length_eq, ← refines.inv.size_eq]
  exact refines.inv.num_le

theorem Refines.available {c : Cbuf α} {q : Fifo α} (refines : c.Refines q) :
    bufAvailable c = bufDataMaxsize - q.queue.length := by
  rw [bufAvailable, refines.length_eq, refines.inv.size_eq]

theorem Refines.full_iff {c : Cbuf α} {q : Fifo α} (refines : c.Refines q) :
    bufFull c = true ↔ q.queue.length = bufDataMaxsize := by
  rw [refines.inv.full_iff, refines.length_eq, refines.inv.size_eq]

theorem Refines.empty_iff {c : Cbuf α} {q : Fifo α} (refines : c.Refines q) :
    bufEmpty c = true ↔ q.queue = [] := by
  rw [refines.inv.empty_iff, ← refines.length_eq, List.length_eq_zero_iff]

theorem reset_refines (c : Cbuf α) : (bufReset c).Refines ⟨[], []⟩ where
  inv := by constructor <;> simp [bufReset, bufDataMaxsize]
  queue := rfl
  backed := by simp [Backed]

theorem Refines.put_full {c : Cbuf α} {q : Fifo α} (refines : c.Refines q)
    (full : q.queue.length = bufDataMaxsize) (value : α) : bufPut c value = (.failure, c) := by
  simp [bufPut, refines.full_iff.mpr full]

theorem Refines.put_room {c : Cbuf α} {q : Fifo α} (refines : c.Refines q)
    (room : q.queue.length < bufDataMaxsize) (value : α) :
    ∃ next, bufPut c value = (.success, next) ∧
      next.Refines ⟨q.queue ++ [value], q.removed⟩ := by
  have inv := refines.inv
  have free : c.numByte < c.size := by
    rw [← refines.length_eq, inv.size_eq]
    exact room
  have notFull : bufFull c = false := by
    rw [Bool.eq_false_iff, Ne, inv.full_iff]
    omega
  refine ⟨_, by rw [bufPut, if_pos (by simp [notFull])], ?_, ?_, ?_⟩
  · refine ⟨inv.size_eq, Nat.mod_lt _ inv.size_pos, inv.tail_lt, free, ?_⟩
    change (c.head + 1) % c.size = (c.tail + (c.numByte + 1)) % c.size
    rw [inv.head_eq, Nat.mod_add_mod, Nat.add_assoc]
  · change window c.size (store c.data c.head value) c.tail (c.numByte + 1) = _
    rw [window_snoc, inv.head_eq, window_store _ _ _ _ _ free, store_same, ← refines.queue]
    rfl
  · intro k old present near
    change k < c.size - (c.numByte + 1) at near
    change store c.data c.head value (behind c.size c.tail k) = old
    rw [store_other]
    · exact refines.backed k old present (by omega)
    · rw [inv.head_eq]
      exact behind_ne_head (by omega)

theorem Refines.get_nil {c : Cbuf α} {q : Fifo α} (refines : c.Refines q)
    (empty : q.queue = []) : bufGet c = (none, c) := by
  simp [bufGet, refines.empty_iff.mpr empty]

theorem Refines.get_cons {c : Cbuf α} {value : α} {rest removed : List α}
    (refines : c.Refines ⟨value :: rest, removed⟩) :
    ∃ next, bufGet c = (some value, next) ∧ next.Refines ⟨rest, value :: removed⟩ := by
  have inv := refines.inv
  have length : c.numByte = rest.length + 1 := by
    rw [← refines.length_eq]
    rfl
  have notEmpty : bufEmpty c = false := by
    rw [Bool.eq_false_iff, Ne, inv.empty_iff]
    omega
  have shape : c.data c.tail :: window c.size c.data ((c.tail + 1) % c.size) rest.length =
      value :: rest := by
    rw [← window_cons _ _ _ _ inv.tail_lt, ← length]
    exact refines.queue
  have first : c.data c.tail = value := (List.cons.inj shape).1
  refine ⟨_, by rw [bufGet, if_pos (by simp [notEmpty]), first], ?_, ?_, ?_⟩
  · refine ⟨inv.size_eq, inv.head_lt, Nat.mod_lt _ inv.size_pos, ?_, ?_⟩
    · change c.numByte - 1 ≤ c.size
      have := inv.num_le
      omega
    · change c.head = ((c.tail + 1) % c.size + (c.numByte - 1)) % c.size
      rw [inv.head_eq, Nat.mod_add_mod, length]
      congr 1
      omega
  · change window c.size c.data ((c.tail + 1) % c.size) (c.numByte - 1) = rest
    rw [length, Nat.add_sub_cancel]
    exact (List.cons.inj shape).2
  · intro k old present near
    change k < c.size - (c.numByte - 1) at near
    change c.data (behind c.size ((c.tail + 1) % c.size) k) = old
    cases k with
    | zero =>
        rw [behind_after_get_zero inv.tail_lt, first]
        simpa using present
    | succ k =>
        have := inv.num_le
        rw [behind_after_get_succ (by omega)]
        exact refines.backed k old (by simpa using present) (by omega)

theorem Refines.putback_full {c : Cbuf α} {q : Fifo α} (refines : c.Refines q)
    (full : q.queue.length = bufDataMaxsize) : bufPutback c = (.failure, c) := by
  simp [bufPutback, refines.full_iff.mpr full]

theorem Refines.putback_room {c : Cbuf α} {value : α} {queue removed : List α}
    (refines : c.Refines ⟨queue, value :: removed⟩) (room : queue.length < bufDataMaxsize) :
    ∃ next, bufPutback c = (.success, next) ∧ next.Refines ⟨value :: queue, removed⟩ := by
  have inv := refines.inv
  have length : c.numByte = queue.length := refines.length_eq.symm
  have free : c.numByte < c.size := by
    rw [length, inv.size_eq]
    exact room
  have notFull : bufFull c = false := by
    rw [Bool.eq_false_iff, Ne, inv.full_iff]
    omega
  have back : (if c.tail = 0 then c.size else c.tail) - 1 = behind c.size c.tail 0 := by
    have := inv.tail_lt
    rw [behind]
    split
    · next zero => rw [zero, Nat.zero_add, Nat.sub_zero, Nat.mod_eq_of_lt (by omega)]
    · next nonzero =>
        have wrap : c.tail + (c.size - 1 - 0) = c.tail - 1 + c.size := by omega
        rw [wrap, Nat.add_mod_right, Nat.mod_eq_of_lt (by omega)]
  have backLt : behind c.size c.tail 0 < c.size := behind_lt inv.size_pos 0
  have forward : (behind c.size c.tail 0 + 1) % c.size = c.tail := behind_zero_succ inv.tail_lt
  have step : bufPutback c =
      (.success, { c with tail := behind c.size c.tail 0, numByte := c.numByte + 1 }) := by
    rw [bufPutback, if_pos (by simp [notFull]), ← back]
  refine ⟨_, step, ?_, ?_, ?_⟩
  · refine ⟨inv.size_eq, inv.head_lt, backLt, free, ?_⟩
    change c.head = (behind c.size c.tail 0 + (c.numByte + 1)) % c.size
    rw [Nat.add_comm c.numByte 1, ← Nat.add_assoc, ← Nat.mod_add_mod, forward]
    exact inv.head_eq
  · change window c.size c.data (behind c.size c.tail 0) (c.numByte + 1) = value :: queue
    rw [window_cons _ _ _ _ backLt, forward]
    have old := refines.backed 0 value rfl (by omega)
    rw [old]
    exact congrArg (value :: ·) refines.queue
  · intro k old present near
    change k < c.size - (c.numByte + 1) at near
    change c.data (behind c.size (behind c.size c.tail 0) k) = old
    rw [behind_behind (by omega)]
    exact refines.backed (k + 1) old (by simpa using present) (by omega)

theorem Refines.read_loop {c : Cbuf α} {q : Fifo α} (refines : c.Refines q) (count : Nat)
    (enough : count ≤ q.queue.length) :
    ∃ next, bufReadLoop count c = (some (q.read count).1, next) ∧
      next.Refines (q.read count).2 := by
  induction count generalizing c q with
  | zero =>
      rw [Fifo.read_zero]
      exact ⟨c, rfl, refines⟩
  | succ count ih =>
      obtain ⟨queue, removed⟩ := q
      cases queue with
      | nil => simp at enough
      | cons value rest =>
          obtain ⟨after, got, afterRefines⟩ := refines.get_cons
          obtain ⟨next, readRest, nextRefines⟩ := ih afterRefines (by simpa using enough)
          rw [Fifo.read_succ _ value rest count rfl]
          exact ⟨next, by simp [bufReadLoop, got, readRest, Fifo.get], nextRefines⟩

theorem Refines.read {c : Cbuf α} {q : Fifo α} (refines : c.Refines q) (numBytes : Nat) :
    ∃ next, bufRead c numBytes = (some (q.read numBytes).1, next) ∧
      next.Refines (q.read numBytes).2 := by
  have length := refines.length_eq
  by_cases more : numBytes > c.numByte
  · have same : q.read numBytes = q.read c.numByte := by
      simp only [Fifo.read, ← length]
      rw [List.take_of_length_le (by omega), List.drop_eq_nil_of_le (by omega)]
      simp
    rw [bufRead, if_pos more, same]
    exact refines.read_loop c.numByte (by omega)
  · rw [bufRead, if_neg more]
    exact refines.read_loop numBytes (by omega)

theorem Refines.write_loop {c : Cbuf α} {q : Fifo α} (refines : c.Refines q) (values : List α)
    (fits : q.queue.length + values.length ≤ bufDataMaxsize) :
    ∃ next, bufWriteLoop values c = (.success, next) ∧
      next.Refines ⟨q.queue ++ values, q.removed⟩ := by
  induction values generalizing c q with
  | nil => exact ⟨c, rfl, by simpa using refines⟩
  | cons value values ih =>
      simp only [List.length_cons] at fits
      obtain ⟨after, put, afterRefines⟩ := refines.put_room (by omega) value
      obtain ⟨next, wrote, nextRefines⟩ := ih afterRefines (by
        simp only [List.length_append, List.length_singleton]
        omega)
      exact ⟨next, by simp [bufWriteLoop, put, wrote], by simpa using nextRefines⟩

theorem Refines.write_fits {c : Cbuf α} {q : Fifo α} (refines : c.Refines q) (values : List α)
    (fits : q.queue.length + values.length ≤ bufDataMaxsize) :
    ∃ next, bufWrite c values = ((values.length : Int), next) ∧
      next.Refines ⟨q.queue ++ values, q.removed⟩ := by
  obtain ⟨next, wrote, nextRefines⟩ := refines.write_loop values fits
  have room : ¬ values.length > bufAvailable c := by
    rw [refines.available]
    omega
  exact ⟨next, by simp [bufWrite, room, wrote], nextRefines⟩

theorem Refines.write_over {c : Cbuf α} {q : Fifo α} (refines : c.Refines q) (values : List α)
    (excess : bufDataMaxsize < q.queue.length + values.length) : bufWrite c values = (-1, c) := by
  have room : values.length > bufAvailable c := by
    have := refines.fits
    rw [refines.available]
    omega
  simp [bufWrite, room]

theorem Inv.full_content {c : Cbuf α} (inv : c.Inv) :
    bufFull c = true ↔ c.content.length = bufDataMaxsize := inv.refines.full_iff

theorem Inv.available_content {c : Cbuf α} (inv : c.Inv) :
    bufAvailable c = bufDataMaxsize - c.content.length := inv.refines.available

theorem Inv.content_fits {c : Cbuf α} (inv : c.Inv) : c.content.length ≤ bufDataMaxsize :=
  inv.refines.fits

theorem Inv.put {c : Cbuf α} (inv : c.Inv) (room : c.content.length < bufDataMaxsize) (value : α) :
    ∃ next, bufPut c value = (.success, next) ∧ next.Inv ∧
      next.content = c.content ++ [value] := by
  obtain ⟨next, put, refines⟩ := inv.refines.put_room room value
  exact ⟨next, put, refines.inv, refines.queue⟩

theorem Inv.get_nil {c : Cbuf α} (inv : c.Inv) (empty : c.content = []) :
    bufGet c = (none, c) := inv.refines.get_nil empty

theorem Inv.get_cons {c : Cbuf α} {value : α} {rest : List α} (inv : c.Inv)
    (shape : c.content = value :: rest) :
    ∃ next, bufGet c = (some value, next) ∧ next.Inv ∧ next.content = rest := by
  have refines := inv.refines
  rw [shape] at refines
  obtain ⟨next, got, nextRefines⟩ := refines.get_cons
  exact ⟨next, got, nextRefines.inv, nextRefines.queue⟩

theorem Inv.write_fits {c : Cbuf α} (inv : c.Inv) (values : List α)
    (fits : c.content.length + values.length ≤ bufDataMaxsize) :
    ∃ next, bufWrite c values = ((values.length : Int), next) ∧ next.Inv ∧
      next.content = c.content ++ values := by
  obtain ⟨next, wrote, refines⟩ := inv.refines.write_fits values fits
  exact ⟨next, wrote, refines.inv, refines.queue⟩

theorem Inv.write_over {c : Cbuf α} (inv : c.Inv) (values : List α)
    (excess : bufDataMaxsize < c.content.length + values.length) : bufWrite c values = (-1, c) :=
  inv.refines.write_over values excess

theorem reset_inv (c : Cbuf α) : (bufReset c).Inv := (reset_refines c).inv

@[simp] theorem reset_content (c : Cbuf α) : (bufReset c).content = [] := rfl

end Cbuf

inductive CbufCall (α : Type)
  | put (value : α)
  | get
  | read (numBytes : Nat)
  | write (values : List α)
  | putback

inductive CbufReply (α : Type)
  | status (code : ExitStatus)
  | value (got : Option α)
  | values (got : Option (List α))
  | count (ret : Int)

def ExitStatus.ofBool : Bool → ExitStatus
  | true => .success
  | false => .failure

def CbufCall.run : CbufCall α → Cbuf α → CbufReply α × Cbuf α
  | .put value, c => ((.status (bufPut c value).1), (bufPut c value).2)
  | .get, c => ((.value (bufGet c).1), (bufGet c).2)
  | .read numBytes, c => ((.values (bufRead c numBytes).1), (bufRead c numBytes).2)
  | .write values, c => ((.count (bufWrite c values).1), (bufWrite c values).2)
  | .putback, c => ((.status (bufPutback c).1), (bufPutback c).2)

/-- What the same call does on the queue with undo. -/
def CbufCall.spec : CbufCall α → Fifo α → CbufReply α × Fifo α
  | .put value, q =>
      ((.status (.ofBool (q.put bufDataMaxsize value).1)), (q.put bufDataMaxsize value).2)
  | .get, q => ((.value q.get.1), q.get.2)
  | .read numBytes, q => ((.values (some (q.read numBytes).1)), (q.read numBytes).2)
  | .write values, q =>
      ((.count (if (q.write bufDataMaxsize values).1 then values.length else -1)),
        (q.write bufDataMaxsize values).2)
  | .putback, q =>
      ((.status (.ofBool (q.putback bufDataMaxsize).1)), (q.putback bufDataMaxsize).2)

/-- A byte is put back only when one was removed and not yet put back. -/
def CbufCall.Permit : CbufCall α → Fifo α → Prop
  | .putback, q => q.removed ≠ []
  | _, _ => True

theorem cbuf_call_simulates (call : CbufCall α) (c : Cbuf α) (q : Fifo α)
    (refines : c.Refines q) (permit : call.Permit q) :
    (call.run c).1 = (call.spec q).1 ∧ (call.run c).2.Refines (call.spec q).2 := by
  cases call with
  | put value =>
      by_cases room : q.queue.length < bufDataMaxsize
      · obtain ⟨next, put, nextRefines⟩ := refines.put_room room value
        simp only [CbufCall.run, CbufCall.spec, Fifo.put, if_pos room, put]
        exact ⟨rfl, nextRefines⟩
      · have full : q.queue.length = bufDataMaxsize := by
          have := refines.fits
          omega
        simp only [CbufCall.run, CbufCall.spec, Fifo.put, if_neg room, refines.put_full full]
        exact ⟨rfl, refines⟩
  | get =>
      obtain ⟨queue, removed⟩ := q
      cases queue with
      | nil =>
          simp only [CbufCall.run, CbufCall.spec, Fifo.get, refines.get_nil rfl]
          exact ⟨trivial, refines⟩
      | cons value rest =>
          obtain ⟨next, got, nextRefines⟩ := refines.get_cons
          simp only [CbufCall.run, CbufCall.spec, Fifo.get, got]
          exact ⟨trivial, nextRefines⟩
  | read numBytes =>
      obtain ⟨next, read, nextRefines⟩ := refines.read numBytes
      simp only [CbufCall.run, CbufCall.spec, read]
      exact ⟨trivial, nextRefines⟩
  | write values =>
      by_cases fits : q.queue.length + values.length ≤ bufDataMaxsize
      · obtain ⟨next, wrote, nextRefines⟩ := refines.write_fits values fits
        simp only [CbufCall.run, CbufCall.spec, Fifo.write, if_pos fits, wrote]
        exact ⟨rfl, nextRefines⟩
      · simp only [CbufCall.run, CbufCall.spec, Fifo.write, if_neg fits,
          refines.write_over values (by omega)]
        exact ⟨rfl, refines⟩
  | putback =>
      obtain ⟨queue, removed⟩ := q
      cases removed with
      | nil => exact absurd rfl permit
      | cons value rest =>
          by_cases room : queue.length < bufDataMaxsize
          · obtain ⟨next, put, nextRefines⟩ := refines.putback_room room
            simp only [CbufCall.run, CbufCall.spec, Fifo.putback, if_pos room, put]
            exact ⟨rfl, nextRefines⟩
          · have full : queue.length = bufDataMaxsize := by
              have := refines.fits
              simp only at this
              omega
            simp only [CbufCall.run, CbufCall.spec, Fifo.putback, if_neg room,
              refines.putback_full full]
            exact ⟨rfl, refines⟩

def Cbuf.FailsUnchanged (c : Cbuf α) : Prop :=
  (∀ value, (bufPut c value).1 = .failure → (bufPut c value).2 = c) ∧
  ((bufGet c).1 = none → (bufGet c).2 = c) ∧
  (∀ values, (bufWrite c values).1 = -1 → (bufWrite c values).2 = c) ∧
  ((bufPutback c).1 = .failure → (bufPutback c).2 = c)

theorem Cbuf.Refines.fails_unchanged {c : Cbuf α} {q : Fifo α} (refines : c.Refines q) :
    c.FailsUnchanged := by
  refine ⟨fun value => ?_, ?_, fun values => ?_, ?_⟩
  · unfold bufPut
    split <;> simp
  · unfold bufGet
    split <;> simp
  · intro failed
    by_cases fits : q.queue.length + values.length ≤ bufDataMaxsize
    · obtain ⟨next, wrote, _⟩ := refines.write_fits values fits
      rw [wrote] at failed
      simp only at failed
      omega
    · rw [refines.write_over values (by omega)]
  · unfold bufPutback
    split <;> simp

/-- Every sequence of calls from `buf_reset`, with no more putbacks than
removals, is answered as the queue with undo answers it. -/
theorem cbuf_refines_fifo (memory : Cbuf α) (calls : List (CbufCall α))
    (permitted : Run.Permitted CbufCall.spec CbufCall.Permit calls Fifo.empty) :
    let code := Run.answers CbufCall.run calls (bufReset memory)
    let queue := Run.answers CbufCall.spec calls Fifo.empty
    code.1 = queue.1 ∧ code.2.content = queue.2.queue ∧ code.2.Inv ∧ code.2.FailsUnchanged := by
  intro code queue
  have simulated := Run.answers_simulation CbufCall.run CbufCall.spec Cbuf.Refines
    CbufCall.Permit (fun call c q => cbuf_call_simulates call c q) calls (bufReset memory)
    Fifo.empty (Cbuf.reset_refines memory) permitted
  have refines : code.2.Refines queue.2 := simulated.2
  exact ⟨simulated.1, refines.queue, refines.inv, refines.fails_unchanged⟩

def putbackCalls : List (CbufCall UInt8) := [.write [1, 2, 3], .read 2, .put 4, .putback]

theorem cbuf_refines_fifo_putback :
    (Run.answers CbufCall.run putbackCalls (bufReset ⟨fun _ => 0, 0, 0, 0, 0⟩)).2.content =
      [2, 3, 4] := by
  have permitted : Run.Permitted CbufCall.spec CbufCall.Permit putbackCalls Fifo.empty := by
    simp [putbackCalls, Run.Permitted, CbufCall.Permit, CbufCall.spec, Fifo.empty, Fifo.write,
      Fifo.read, Fifo.put, bufDataMaxsize]
  exact (cbuf_refines_fifo _ putbackCalls permitted).2.1

end Liso
