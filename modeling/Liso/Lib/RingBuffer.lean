import Mathlib.Data.List.Basic
import Mathlib.Data.Int.ModEq

/-! Cyclic windows over an array of cells, and the bounded queue with undo that
a ring buffer implements. -/

namespace Liso.RingBuffer

variable {α : Type}

/-- The `len` cells of a ring of `size` cells, from index `start` on. -/
def window (size : Nat) (cell : Nat → α) (start len : Nat) : List α :=
  (List.range len).map fun i => cell ((start + i) % size)

def behind (size start k : Nat) : Nat := (start + (size - 1 - k)) % size

def store (cell : Nat → α) (index : Nat) (value : α) : Nat → α :=
  fun i => if i = index then value else cell i

@[simp] theorem store_same (cell : Nat → α) (index : Nat) (value : α) :
    store cell index value index = value := by
  simp [store]

theorem store_other (cell : Nat → α) (index i : Nat) (value : α) (other : i ≠ index) :
    store cell index value i = cell i := by
  simp [store, other]

@[simp] theorem window_length (size : Nat) (cell : Nat → α) (start len : Nat) :
    (window size cell start len).length = len := by
  simp [window]

@[simp] theorem window_zero (size : Nat) (cell : Nat → α) (start : Nat) :
    window size cell start 0 = [] := rfl

theorem window_snoc (size : Nat) (cell : Nat → α) (start len : Nat) :
    window size cell start (len + 1) =
      window size cell start len ++ [cell ((start + len) % size)] := by
  simp [window, List.range_succ]

theorem window_cons (size : Nat) (cell : Nat → α) (start len : Nat) (inside : start < size) :
    window size cell start (len + 1) =
      cell start :: window size cell ((start + 1) % size) len := by
  simp only [window, List.range_succ_eq_map, List.map_cons, List.map_map, Nat.add_zero,
    Nat.mod_eq_of_lt inside, List.cons.injEq, true_and]
  apply List.map_congr_left
  intro i _
  simp only [Function.comp, Nat.mod_add_mod]
  congr 2
  omega

theorem cells_differ {size start i j : Nat} (order : i < j) (near : j < i + size) :
    (start + i) % size ≠ (start + j) % size := by
  intro same
  have congruent : i ≡ j [MOD size] := Nat.ModEq.add_left_cancel' start same
  have multiple : size ∣ j - i := (Nat.modEq_iff_dvd' order.le).mp congruent
  exact absurd (Nat.le_of_dvd (by omega) multiple) (by omega)

theorem window_store (size : Nat) (cell : Nat → α) (start len : Nat) (value : α)
    (room : len < size) :
    window size (store cell ((start + len) % size) value) start len =
      window size cell start len := by
  apply List.map_congr_left
  intro i member
  have before : i < len := by simpa using member
  exact store_other _ _ _ _ (cells_differ before (by omega))

theorem behind_lt {size start : Nat} (positive : 0 < size) (k : Nat) :
    behind size start k < size := Nat.mod_lt _ positive

theorem behind_zero_succ {size start : Nat} (inside : start < size) :
    (behind size start 0 + 1) % size = start := by
  have shift : start + (size - 1 - 0) + 1 = start + size := by omega
  rw [behind, Nat.mod_add_mod, shift, Nat.add_mod_right, Nat.mod_eq_of_lt inside]

theorem behind_succ_start {size start k : Nat} (near : k < size) :
    behind size ((start + 1) % size) k = (start + (size - k)) % size := by
  have shift : start + 1 + (size - 1 - k) = start + (size - k) := by omega
  rw [behind, Nat.mod_add_mod, shift]

theorem behind_after_get_zero {size start : Nat} (inside : start < size) :
    behind size ((start + 1) % size) 0 = start := by
  rw [behind_succ_start (by omega), Nat.sub_zero, Nat.add_mod_right, Nat.mod_eq_of_lt inside]

theorem behind_after_get_succ {size start k : Nat} (near : k + 1 < size) :
    behind size ((start + 1) % size) (k + 1) = behind size start k := by
  rw [behind_succ_start near, behind]
  congr 2
  omega

theorem behind_behind {size start k : Nat} (near : k + 1 < size) :
    behind size (behind size start 0) k = behind size start (k + 1) := by
  have shift : start + (size - 1 - 0) + (size - 1 - k) =
      start + (size - 1 - (k + 1)) + size := by omega
  rw [behind, behind, Nat.mod_add_mod, shift, Nat.add_mod_right, behind]

theorem behind_ne_head {size start len k : Nat} (free : k + 1 < size - len) :
    behind size start k ≠ (start + len) % size := by
  intro same
  have order : len < size - 1 - k := by omega
  have near : size - 1 - k < len + size := by omega
  exact cells_differ order near same.symm

/-! A bounded first-in first-out queue that remembers what was taken out, most
recent first, and can take the removals back. -/

structure Fifo (α : Type) where
  queue : List α
  removed : List α
  deriving DecidableEq, Repr

namespace Fifo

def empty : Fifo α := ⟨[], []⟩

def put (bound : Nat) (q : Fifo α) (value : α) : Bool × Fifo α :=
  if q.queue.length < bound then (true, { q with queue := q.queue ++ [value] }) else (false, q)

def get (q : Fifo α) : Option α × Fifo α :=
  match q.queue with
  | [] => (none, q)
  | value :: rest => (some value, ⟨rest, value :: q.removed⟩)

def read (q : Fifo α) (count : Nat) : List α × Fifo α :=
  (q.queue.take count, ⟨q.queue.drop count, (q.queue.take count).reverse ++ q.removed⟩)

def write (bound : Nat) (q : Fifo α) (values : List α) : Bool × Fifo α :=
  if q.queue.length + values.length ≤ bound then
    (true, { q with queue := q.queue ++ values })
  else (false, q)

def putback (bound : Nat) (q : Fifo α) : Bool × Fifo α :=
  match q.removed with
  | [] => (false, q)
  | value :: rest =>
      if q.queue.length < bound then (true, ⟨value :: q.queue, rest⟩) else (false, q)

theorem read_zero (q : Fifo α) : q.read 0 = ([], q) := by simp [read]

theorem read_succ (q : Fifo α) (value : α) (rest : List α) (count : Nat)
    (shape : q.queue = value :: rest) :
    q.read (count + 1) = (value :: (q.get.2.read count).1, (q.get.2.read count).2) := by
  simp [read, get, shape]

def unread (bound : Nat) : Nat → Fifo α → Fifo α
  | 0, q => q
  | count + 1, q => unread bound count (q.putback bound).2

/-- Taking back as many values as `back` holds restores them in their old order. -/
theorem unread_removed (bound : Nat) (queue back removed : List α)
    (fits : queue.length + back.length ≤ bound) :
    unread bound back.length ⟨queue, back ++ removed⟩ = ⟨back.reverse ++ queue, removed⟩ := by
  induction back generalizing queue with
  | nil => rfl
  | cons value back ih =>
      simp only [List.length_cons] at fits
      have room : queue.length < bound := by omega
      simp only [List.length_cons, List.cons_append, unread, putback, room, if_true]
      rw [ih (value :: queue) (by simp only [List.length_cons]; omega)]
      simp

end Fifo

end Liso.RingBuffer
