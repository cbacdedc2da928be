import Mathlib.Data.List.Basic

/-! Bytes, C strings and the ways in which a run leaves the defined behaviour of
the program. -/

namespace Liso

abbrev Bytes := List UInt8

def str (text : String) : Bytes := text.toList.map fun c => UInt8.ofNat c.toNat

def cl : UInt8 := 13
def rf : UInt8 := 10
def crlf : Bytes := [cl, rf]

theorem every_byte (p : UInt8 → Bool) (checked : (List.range 256).all fun n => p (UInt8.ofNat n))
    (c : UInt8) : p c := by
  have hit := List.all_eq_true.mp checked c.toNat (List.mem_range.mpr c.toNat_lt)
  simpa using hit

inductive CArray
  | parserBuf
  | httpMethod
  | httpUri
  | httpVersion
  | headers
  | headerName
  | headerValue
  | parseBuf
  | postBody
  | fullpath
  | contentLenStr
  | pathInfo
  | queryString
  | envpInfo
  | envp
  deriving DecidableEq, Repr

/-- An execution stops at an assertion or an `exit`, and has no defined continuation after a bad
memory access or with a value that was never set. No loop diverges; that is proved of it. -/
inductive Fault
  | assertion
  | exit
  | diverges
  | nullPointer
  | freed
  | indeterminate
  | bounds (array : CArray)
  deriving DecidableEq, Repr

section Bind

variable {α β : Type} {value : α} {result : β} {step : Except Fault α}
  {next : α → Except Fault β}

@[simp] theorem ok_bind : (Except.ok value >>= next) = next value := rfl

@[simp] theorem pure_ok : (pure value : Except Fault α) = .ok value := rfl

theorem bind_ok : (step >>= next) = .ok result ↔
    ∃ value, step = .ok value ∧ next value = .ok result := by
  cases step with
  | error fault => simp [Bind.bind, Except.bind]
  | ok value => simp

end Bind

def FailsOnly {α : Type} (allowed : Fault → Prop) (result : Except Fault α) : Prop :=
  ∀ fault, result = .error fault → allowed fault

namespace FailsOnly

variable {α β : Type} {allowed more : Fault → Prop} {result : Except Fault α}

theorem ok (value : α) : FailsOnly allowed (.ok value) := by
  intro fault failed
  cases failed

theorem error {fault : Fault} (holds : allowed fault) :
    FailsOnly allowed (.error fault : Except Fault α) := by
  rintro _ ⟨⟩
  exact holds

theorem mono (fails : FailsOnly allowed result) (wider : ∀ fault, allowed fault → more fault) :
    FailsOnly more result := fun fault failed => wider fault (fails fault failed)

theorem bind {next : α → Except Fault β} (first : FailsOnly allowed result)
    (later : ∀ a, FailsOnly allowed (next a)) : FailsOnly allowed (result >>= next) := by
  cases result with
  | error fault => exact error (first fault rfl)
  | ok value => exact later value

theorem ite {first second : Except Fault α} {p : Prop} [Decidable p]
    (yes : FailsOnly allowed first) (no : FailsOnly allowed second) :
    FailsOnly allowed (if p then first else second) := by
  split
  · exact yes
  · exact no

theorem mapM {list : List β} {next : β → Except Fault α}
    (each : ∀ b, FailsOnly allowed (next b)) : FailsOnly allowed (list.mapM next) := by
  induction list with
  | nil => exact ok []
  | cons b list ih =>
      rw [List.mapM_cons]
      exact (each b).bind fun a => ih.bind fun rest => ok (a :: rest)

end FailsOnly

/-- `strcpy` and its kin into an array of `capacity` bytes: the NUL has to fit too. -/
def strcpy (array : CArray) (capacity : Nat) (source : Bytes) : Except Fault Bytes :=
  if source.length < capacity then .ok source else .error (.bounds array)

theorem strcpy_fits (array : CArray) (capacity : Nat) (source : Bytes)
    (fits : source.length < capacity) : strcpy array capacity source = .ok source := if_pos fits

theorem strcpy_over (array : CArray) (capacity : Nat) (source : Bytes)
    (excess : ¬ source.length < capacity) :
    strcpy array capacity source = .error (.bounds array) := if_neg excess

theorem strcpy_ok {array : CArray} {capacity : Nat} {source copy : Bytes} :
    strcpy array capacity source = .ok copy ↔ source.length < capacity ∧ copy = source := by
  rw [strcpy]
  split
  · next fits => simp [fits, eq_comm]
  · next excess => simp [excess]

end Liso
