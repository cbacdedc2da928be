import Liso.Common
import Liso.Lib.Matcher

/-! The end of a request header: CR LF CR LF, and the states in which
`read_header_data` looks for it. -/

namespace Liso

def terminator : Bytes := [cl, rf, cl, rf]

def headerTermStatus : Nat := 4

/-- `header_term_token_status` after one more byte; any other status is asserted against. -/
def headerTermStep : Nat → UInt8 → Option Nat
  | 0, data => if data = cl then some 1 else some 0
  | 1, data => if data = rf then some 2 else if data ≠ cl then some 0 else some 1
  | 2, data => if data = cl then some 3 else some 0
  | 3, data =>
      if data = rf then some headerTermStatus else if data = cl then some 1 else some 0
  | _, _ => none

theorem headerTermStep_border (status : Nat) (below : status < headerTermStatus) (data : UInt8) :
    headerTermStep status data =
      some (Matcher.border terminator (terminator.take status ++ [data])) := by
  have checked := every_byte (fun data => (List.range 4).all fun status =>
    headerTermStep status data =
      some (Matcher.border terminator (terminator.take status ++ [data]))) (by decide +kernel) data
  have hit := List.all_eq_true.mp checked status (List.mem_range.mpr below)
  simpa using hit

/-- The statuses search for the first terminator. -/
def headerMachine : Matcher.Machine terminator where
  step status data := (headerTermStep status data).getD 0
  follows status below data := by rw [headerTermStep_border status below data, Option.getD_some]

def IsLine (line : Bytes) : Prop :=
  ∃ content : Bytes, content ≠ [] ∧ (∀ c ∈ content, c ≠ cl ∧ c ≠ rf) ∧ line = content ++ crlf

private theorem search_plain (content rest : Bytes) (plain : ∀ c ∈ content, c ≠ cl ∧ c ≠ rf) :
    headerMachine.search 0 (content ++ rest) =
      (headerMachine.search 0 rest).map fun (u, v) => (content ++ u, v) := by
  induction content with
  | nil => simp
  | cons c content ih =>
      have stays : headerMachine.step 0 c = 0 := by
        simp [headerMachine, headerTermStep, (plain c List.mem_cons_self).1]
      have short : ¬ 0 = terminator.length := by decide
      rw [List.cons_append, Matcher.Machine.search, stays, if_neg short,
        ih fun d member => plain d (List.mem_cons_of_mem _ member)]
      simp [Option.map_map, Function.comp_def]

theorem search_line (status : Nat) (fresh : status = 0 ∨ status = 2) (line rest : Bytes)
    (isLine : IsLine line) : headerMachine.search status (line ++ rest) =
      (headerMachine.search 2 rest).map fun (u, v) => (line ++ u, v) := by
  obtain ⟨content, nonempty, plain, rfl⟩ := isLine
  obtain ⟨c, tail, rfl⟩ := List.exists_cons_of_ne_nil nonempty
  have falls : headerMachine.step status c = 0 := by
    have notCr := (plain c List.mem_cons_self).1
    rcases fresh with rfl | rfl <;> simp [headerMachine, headerTermStep, notCr]
  have short : ¬ 0 = terminator.length := by decide
  have ended : headerMachine.search 0 (crlf ++ rest) =
      (headerMachine.search 2 rest).map fun (u, v) => (crlf ++ u, v) := by
    have first : headerMachine.step 0 cl = 1 := rfl
    have second : headerMachine.step 1 rf = 2 := rfl
    simp only [crlf, List.cons_append, List.nil_append, Matcher.Machine.search, first, second]
    rw [if_neg (by decide), if_neg (by decide)]
    simp [Option.map_map, Function.comp_def]
  rw [List.append_assoc, List.cons_append, Matcher.Machine.search, falls, if_neg short,
    search_plain tail _ fun d member => plain d (List.mem_cons_of_mem _ member), ended]
  simp [Option.map_map, Function.comp_def]

theorem search_lines (lines : List Bytes) (rest : Bytes) (all : ∀ line ∈ lines, IsLine line) :
    headerMachine.search 2 (lines.flatten ++ crlf ++ rest) = some (lines.flatten ++ crlf, rest) := by
  induction lines with
  | nil =>
      have third : headerMachine.step 2 cl = 3 := rfl
      have fourth : headerMachine.step 3 rf = 4 := rfl
      simp only [List.flatten_nil, crlf, List.nil_append, List.cons_append,
        Matcher.Machine.search, third, fourth]
      rw [if_neg (by decide), if_pos (by decide)]
      rfl
  | cons line lines ih =>
      rw [List.flatten_cons, List.append_assoc, List.append_assoc,
        search_line _ (.inr rfl) _ _ (all line List.mem_cons_self), ← List.append_assoc,
        ih fun other member => all other (List.mem_cons_of_mem _ member)]
      simp

theorem cutAfter_lines (line : Bytes) (lines : List Bytes) (rest : Bytes) (first : IsLine line)
    (all : ∀ line ∈ lines, IsLine line) :
    Matcher.cutAfter terminator (line ++ (lines.flatten ++ crlf) ++ rest) =
      some (line ++ (lines.flatten ++ crlf), rest) := by
  have clear : Matcher.Clear terminator [] := Matcher.Clear.nil (by simp [terminator])
  have found := headerMachine.search_cutAfter clear (line ++ (lines.flatten ++ crlf) ++ rest)
  rw [Matcher.border_nil, List.nil_append] at found
  rw [found, List.append_assoc, search_line _ (.inl rfl) _ _ first, search_lines lines rest all]
  rfl

end Liso
