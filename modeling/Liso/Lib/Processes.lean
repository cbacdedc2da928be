import Liso.Lib.Run
import Mathlib.Data.List.AList
import Mathlib.Logic.Relation

/-! Processes with descriptors and pipes: what a call changes, what `fork` hands on, and who can
still read from a pipe or write to it. -/

namespace Liso.Processes

inductive Target
  | other
  | readEnd (pipe : Nat)
  | writeEnd (pipe : Nat)
  deriving DecidableEq

def Target.pipe : Target → Option Nat
  | .other => none
  | .readEnd n => some n
  | .writeEnd n => some n

abbrev Table := AList fun _ : Nat => Target

def Table.targets (table : Table) : List Target := table.entries.map Sigma.snd

theorem Table.mem_targets {table : Table} {target : Target} :
    target ∈ table.targets ↔ ∃ fd, table.lookup fd = some target := by
  constructor
  · intro member
    obtain ⟨⟨fd, _⟩, entry, rfl⟩ := List.mem_map.mp member
    exact ⟨fd, AList.mem_lookup_iff.mpr entry⟩
  · rintro ⟨fd, found⟩
    exact List.mem_map.mpr ⟨⟨fd, target⟩, AList.mem_lookup_iff.mp found, rfl⟩

theorem Table.mem_of_lookup {table : Table} {fd : Nat} {target : Target}
    (found : table.lookup fd = some target) : fd ∈ table := by
  rw [← AList.lookup_isSome, found]
  rfl

def Table.dup2 (table : Table) (old new : Nat) : Table :=
  match table.lookup old with
  | some target => table.insert new target
  | none => table

theorem Table.lookup_insert (table : Table) (fd fd' : Nat) (target : Target) :
    (table.insert fd target).lookup fd' = if fd' = fd then some target else table.lookup fd' := by
  split
  · next same => rw [same, AList.lookup_insert]
  · next other => exact AList.lookup_insert_ne other

theorem Table.lookup_insert_free {table : Table} {fd fd' : Nat} {target new : Target}
    (free : fd ∉ table) (found : table.lookup fd' = some target) :
    (table.insert fd new).lookup fd' = some target := by
  rw [Table.lookup_insert, if_neg, found]
  rintro rfl
  exact free (Table.mem_of_lookup found)

theorem Table.lookup_erase (table : Table) (fd fd' : Nat) :
    (table.erase fd).lookup fd' = if fd' = fd then none else table.lookup fd' := by
  split
  · next same => rw [same, AList.lookup_erase]
  · next other => exact AList.lookup_erase_ne other

theorem Table.dup2_of_lookup {table : Table} {old new : Nat} {target : Target}
    (found : table.lookup old = some target) : table.dup2 old new = table.insert new target := by
  rw [Table.dup2, found]

theorem Table.lookup_dup2 {table : Table} {old new fd : Nat} {target : Target}
    (found : (table.dup2 old new).lookup fd = some target) :
    ∃ before, table.lookup before = some target := by
  unfold Table.dup2 at found
  split at found
  · next known =>
      by_cases same : fd = new
      · rw [same, AList.lookup_insert] at found
        exact ⟨old, known.trans found⟩
      · rw [AList.lookup_insert_ne same] at found
        exact ⟨fd, found⟩
  · exact ⟨fd, found⟩

/-- A call with what the system answers: the descriptors that it hands out, the bytes that it
moves. A `read` that moves none is at the end. -/
inductive Call (β : Type)
  | create (fd : Nat)
  | close (fd : Nat)
  | pipe (readFd writeFd : Nat)
  | dup2 (old new : Nat)
  | write (fd : Nat) (bytes : List β)
  | read (fd : Nat) (bytes : List β)
  deriving DecidableEq

/-- A `fork` comes with the calls that the child and the parent make next. -/
inductive Action (β : Type)
  | call (call : Call β)
  | fork (child parent : List (Call β))
  deriving DecidableEq

/-- The processes and the pipes. A process starts with the calls of its `program`; while it owes
calls, after its start or after a `fork`, it makes these, and then it is free to do anything. `made`
counts what it has done. A pipe keeps all bytes, with the process that wrote or took them, and
whether some `read` was at its end. A process that exits is one that closes what it has and does
nothing more. -/
structure World (β : Type) where
  count : Nat
  tables : Nat → Table
  program : Nat → List (Call β)
  owed : Nat → List (Call β)
  made : Nat → Nat
  parent : Nat → Option Nat
  pipes : Nat
  written : Nat → List (Nat × β)
  taken : Nat → List (Nat × β)
  ended : Nat → Bool

namespace World

variable {β : Type}

def Holds (w : World β) (p : Nat) (target : Target) : Prop := target ∈ (w.tables p).targets

instance (w : World β) (p : Nat) (target : Target) : Decidable (w.Holds p target) :=
  inferInstanceAs (Decidable (target ∈ (w.tables p).targets))

def canBeWritten (w : World β) (n : Nat) : Bool :=
  (List.range w.count).any fun p => decide (w.Holds p (.writeEnd n))

def unread (w : World β) (n : Nat) : List β := ((w.written n).drop (w.taken n).length).map Prod.snd

def store (w : World β) (p : Nat) (table : Table) : World β :=
  { w with tables := Function.update w.tables p table }

/-- What a call changes. There is nothing if the answer is not one that the system can give; a call
with a descriptor that is not open, or not of a pipe, changes nothing. -/
def effect [DecidableEq β] (w : World β) (p : Nat) : Call β → Option (World β)
  | .create fd =>
      if fd ∈ w.tables p then none else some (w.store p ((w.tables p).insert fd .other))
  | .close fd => some (w.store p ((w.tables p).erase fd))
  | .pipe readFd writeFd =>
      if readFd ∈ w.tables p ∨ writeFd ∈ w.tables p ∨ readFd = writeFd then none
      else
        let table := ((w.tables p).insert readFd (.readEnd w.pipes)).insert writeFd
          (.writeEnd w.pipes)
        some { w.store p table with pipes := w.pipes + 1 }
  | .dup2 old new => some (w.store p ((w.tables p).dup2 old new))
  | .write fd bytes =>
      match (w.tables p).lookup fd with
      | some (.writeEnd n) =>
          some { w with
            written := Function.update w.written n (w.written n ++ bytes.map fun byte => (p, byte)) }
      | _ => some w
  | .read fd bytes =>
      match (w.tables p).lookup fd with
      | some (.readEnd n) =>
          if bytes = [] then
            if w.unread n = [] ∧ w.canBeWritten n = false then
              some { w with ended := Function.update w.ended n true }
            else none
          else if bytes <+: w.unread n then
            some { w with
              taken := Function.update w.taken n (w.taken n ++ bytes.map fun byte => (p, byte)) }
          else none
      | _ => some w

def advance (w : World β) (p : Nat) : World β :=
  { w with
    owed := Function.update w.owed p (w.owed p).tail
    made := Function.update w.made p (w.made p + 1) }

def afterFork (w : World β) (p : Nat) (child parent : List (Call β)) : World β :=
  { w with
    count := w.count + 1
    tables := Function.update w.tables w.count (w.tables p)
    program := Function.update w.program w.count child
    owed := Function.update (Function.update w.owed p parent) w.count child
    made := Function.update (Function.update w.made p (w.made p + 1)) w.count 0
    parent := Function.update w.parent w.count (some p) }

end World

inductive Refusal
  | noProcess
  | otherCall
  | otherAnswer
  deriving DecidableEq

def actionsOf {β : Type} (p : Nat) (acts : List (Nat × Action β)) : List (Action β) :=
  acts.filterMap fun act => if act.1 = p then some act.2 else none

theorem actionsOf_own {β : Type} (p : Nat) (action : Action β) (acts : List (Nat × Action β)) :
    actionsOf p ((p, action) :: acts) = action :: actionsOf p acts := by
  simp [actionsOf]

theorem actionsOf_other {β : Type} {p : Nat} {act : Nat × Action β} (other : act.1 ≠ p)
    (acts : List (Nat × Action β)) : actionsOf p (act :: acts) = actionsOf p acts := by
  simp [actionsOf, other]

section Steps

variable {β : Type} [DecidableEq β]

def step (w : World β) : Nat × Action β → Except Refusal (World β)
  | (p, .fork child parent) =>
      if w.count ≤ p then .error .noProcess
      else if w.owed p ≠ [] then .error .otherCall
      else .ok (w.afterFork p child parent)
  | (p, .call call) =>
      if w.count ≤ p then .error .noProcess
      else if w.owed p ≠ [] ∧ (w.owed p).head? ≠ some call then .error .otherCall
      else
        match w.effect p call with
        | none => .error .otherAnswer
        | some changed => .ok (changed.advance p)

inductive Changes (w : World β) (p : Nat) : Call β → World β → Prop
  | create {fd : Nat} (free : fd ∉ w.tables p) :
      Changes w p (.create fd) (w.store p ((w.tables p).insert fd .other))
  | close {fd : Nat} : Changes w p (.close fd) (w.store p ((w.tables p).erase fd))
  | pipe {readFd writeFd : Nat} (readFree : readFd ∉ w.tables p) (writeFree : writeFd ∉ w.tables p)
      (different : readFd ≠ writeFd) :
      Changes w p (.pipe readFd writeFd)
        { w.store p (((w.tables p).insert readFd (.readEnd w.pipes)).insert writeFd
            (.writeEnd w.pipes)) with pipes := w.pipes + 1 }
  | dup2 {old new : Nat} : Changes w p (.dup2 old new) (w.store p ((w.tables p).dup2 old new))
  | write {fd n : Nat} {bytes : List β} (found : (w.tables p).lookup fd = some (.writeEnd n)) :
      Changes w p (.write fd bytes) { w with
        written := Function.update w.written n (w.written n ++ bytes.map fun byte => (p, byte)) }
  | take {fd n : Nat} {bytes : List β} (found : (w.tables p).lookup fd = some (.readEnd n))
      (there : bytes <+: w.unread n) :
      Changes w p (.read fd bytes) { w with
        taken := Function.update w.taken n (w.taken n ++ bytes.map fun byte => (p, byte)) }
  | ending {fd n : Nat} (found : (w.tables p).lookup fd = some (.readEnd n))
      (empty : w.unread n = []) (noWriter : w.canBeWritten n = false) :
      Changes w p (.read fd []) { w with ended := Function.update w.ended n true }
  | writeElsewhere {fd : Nat} {bytes : List β}
      (noPipe : ∀ n, (w.tables p).lookup fd ≠ some (.writeEnd n)) :
      Changes w p (.write fd bytes) w
  | readElsewhere {fd : Nat} {bytes : List β}
      (noPipe : ∀ n, (w.tables p).lookup fd ≠ some (.readEnd n)) :
      Changes w p (.read fd bytes) w

inductive Acts (w : World β) : Nat × Action β → World β → Prop
  | fork {p : Nat} {child parent : List (Call β)} (known : p < w.count) (free : w.owed p = []) :
      Acts w (p, .fork child parent) (w.afterFork p child parent)
  | call {p : Nat} {call : Call β} {changed : World β} (known : p < w.count)
      (turn : w.owed p = [] ∨ (w.owed p).head? = some call) (changes : Changes w p call changed) :
      Acts w (p, .call call) (changed.advance p)

variable {w after : World β} {p : Nat} {call : Call β} {act : Nat × Action β}

theorem effect_changes (effect : w.effect p call = some after) : Changes w p call after := by
  cases call with
  | create fd =>
      simp only [World.effect] at effect
      split at effect
      · cases effect
      · next free =>
          cases effect
          exact .create free
  | close fd =>
      cases effect
      exact .close
  | pipe readFd writeFd =>
      simp only [World.effect] at effect
      split at effect
      · cases effect
      · next free =>
          cases effect
          exact .pipe (fun used => free (.inl used)) (fun used => free (.inr (.inl used)))
            (fun same => free (.inr (.inr same)))
  | dup2 old new =>
      cases effect
      exact .dup2
  | write fd bytes =>
      simp only [World.effect] at effect
      split at effect
      · next found =>
          cases effect
          exact .write found
      · next noPipe =>
          cases effect
          exact .writeElsewhere noPipe
  | read fd bytes =>
      simp only [World.effect] at effect
      split at effect
      · next found =>
          split at effect
          · next none =>
              split at effect
              · next exhausted =>
                  cases effect
                  rw [none]
                  exact .ending found exhausted.1 exhausted.2
              · cases effect
          · split at effect
            · next there =>
                cases effect
                exact .take found there
            · cases effect
      · next noPipe =>
          cases effect
          exact .readElsewhere noPipe

theorem step_acts (stepped : step w act = .ok after) : Acts w act after := by
  obtain ⟨p, call | ⟨child, parent⟩⟩ := act
  · simp only [step] at stepped
    split at stepped
    · cases stepped
    · next known =>
        split at stepped
        · cases stepped
        · next turn =>
            split at stepped
            · cases stepped
            · next changed effect =>
                cases stepped
                refine .call (Nat.lt_of_not_le known) ?_ (effect_changes effect)
                by_cases free : w.owed p = []
                · exact .inl free
                · exact .inr (not_not.mp fun other => turn ⟨free, other⟩)
  · simp only [step] at stepped
    split at stepped
    · cases stepped
    · next known =>
        split at stepped
        · cases stepped
        · next free =>
            cases stepped
            exact .fork (Nat.lt_of_not_le known) (not_not.mp free)

end Steps

section Holders

variable {β : Type} {w after changed : World β} {p q fd : Nat} {call : Call β}
variable {act : Nat × Action β} {target : Target}

theorem World.Holds.of_lookup (found : (w.tables p).lookup fd = some target) : w.Holds p target :=
  Table.mem_targets.mpr ⟨fd, found⟩

theorem World.Holds.exists_lookup (holds : w.Holds p target) :
    ∃ fd, (w.tables p).lookup fd = some target := Table.mem_targets.mp holds

@[simp] theorem World.store_self (table : Table) : (w.store p table).tables p = table :=
  Function.update_self ..

theorem World.store_other (other : q ≠ p) (table : Table) :
    (w.store p table).tables q = w.tables q := Function.update_of_ne other ..

theorem Changes.count (changes : Changes w p call changed) : changed.count = w.count := by
  cases changes <;> rfl

theorem Changes.program (changes : Changes w p call changed) : changed.program = w.program := by
  cases changes <;> rfl

theorem Changes.owed (changes : Changes w p call changed) : changed.owed = w.owed := by
  cases changes <;> rfl

theorem Changes.made (changes : Changes w p call changed) : changed.made = w.made := by
  cases changes <;> rfl

theorem Changes.parent (changes : Changes w p call changed) : changed.parent = w.parent := by
  cases changes <;> rfl

theorem Changes.pipes_le (changes : Changes w p call changed) : w.pipes ≤ changed.pipes := by
  cases changes <;> first | exact Nat.le_refl _ | exact Nat.le_succ _

theorem Changes.tables_other (changes : Changes w p call changed) (other : q ≠ p) :
    changed.tables q = w.tables q := by
  cases changes <;> first | rfl | exact World.store_other other _

theorem Changes.holds_self (changes : Changes w p call changed) (holds : changed.Holds p target) :
    w.Holds p target ∨ target = .other ∨
      target.pipe = some w.pipes ∧ changed.pipes = w.pipes + 1 := by
  obtain ⟨fd', found⟩ := holds.exists_lookup
  cases changes with
  | @create fd free =>
      rw [World.store_self] at found
      by_cases same : fd' = fd
      · rw [same, AList.lookup_insert] at found
        exact .inr (.inl (Option.some.inj found).symm)
      · rw [AList.lookup_insert_ne same] at found
        exact .inl (.of_lookup found)
  | @close fd =>
      rw [World.store_self] at found
      by_cases same : fd' = fd
      · rw [same, AList.lookup_erase] at found
        cases found
      · rw [AList.lookup_erase_ne same] at found
        exact .inl (.of_lookup found)
  | @pipe readFd writeFd readFree writeFree different =>
      have looked : (((w.tables p).insert readFd (.readEnd w.pipes)).insert writeFd
          (.writeEnd w.pipes)).lookup fd' = some target := by
        rw [← found]
        exact congrArg _ (World.store_self _).symm
      by_cases write : fd' = writeFd
      · rw [write, AList.lookup_insert] at looked
        exact .inr (.inr ⟨by rw [← Option.some.inj looked]; rfl, rfl⟩)
      · rw [AList.lookup_insert_ne write] at looked
        by_cases read : fd' = readFd
        · rw [read, AList.lookup_insert] at looked
          exact .inr (.inr ⟨by rw [← Option.some.inj looked]; rfl, rfl⟩)
        · rw [AList.lookup_insert_ne read] at looked
          exact .inl (.of_lookup looked)
  | @dup2 oldFd new =>
      rw [World.store_self] at found
      obtain ⟨before, known⟩ := Table.lookup_dup2 found
      exact .inl (.of_lookup known)
  | write | take | ending | writeElsewhere | readElsewhere =>
      exact .inl (.of_lookup found)

theorem Changes.holds (changes : Changes w p call changed) (holds : changed.Holds q target) :
    w.Holds q target ∨ target = .other ∨
      target.pipe = some w.pipes ∧ changed.pipes = w.pipes + 1 := by
  by_cases same : q = p
  · subst same
    exact changes.holds_self holds
  · unfold World.Holds at holds ⊢
    rw [changes.tables_other same] at holds
    exact .inl holds

theorem World.afterFork_tables {child parent : List (Call β)} (older : q ≠ w.count) :
    (w.afterFork p child parent).tables q = w.tables q := Function.update_of_ne older ..

theorem World.afterFork_child {child parent : List (Call β)} :
    (w.afterFork p child parent).tables w.count = w.tables p := Function.update_self ..

theorem Acts.tables_call (stepped : Acts w (p, .call call) after) (other : q ≠ p) :
    after.tables q = w.tables q := by
  cases stepped with
  | call _ _ changes => exact changes.tables_other other

theorem Acts.holds {n : Nat} (stepped : Acts w act after) (ofPipe : target.pipe = some n)
    (made : n < w.pipes) (holds : after.Holds q target) :
    w.Holds q target ∨
      q = w.count ∧ w.Holds act.1 target ∧ ∃ child parent, act.2 = .fork child parent := by
  cases stepped with
  | call _ _ changes =>
      rcases changes.holds holds with before | other | ⟨new, _⟩
      · exact .inl before
      · rw [other] at ofPipe
        cases ofPipe
      · cases ofPipe.symm.trans new
        exact absurd made (Nat.lt_irrefl _)
  | @fork p child parent known free =>
      unfold World.Holds at holds ⊢
      by_cases new : q = w.count
      · rw [new, World.afterFork_child] at holds
        exact .inr ⟨new, holds, child, parent, rfl⟩
      · rw [World.afterFork_tables new] at holds
        exact .inl holds

end Holders

structure World.Sound {β : Type} (w : World β) : Prop where
  numbered : ∀ p target n, w.Holds p target → target.pipe = some n → n < w.pipes
  empty : ∀ p, w.count ≤ p → w.tables p = ∅
  unborn : ∀ p, w.count ≤ p → w.parent p = none
  unmade : ∀ n, w.pipes ≤ n → w.written n = [] ∧ w.taken n = [] ∧ w.ended n = false
  order : ∀ n, (w.taken n).map Prod.snd <+: (w.written n).map Prod.snd
  ended : ∀ n, w.ended n = true → (∀ p, ¬ w.Holds p (.writeEnd n)) ∧
    (w.taken n).map Prod.snd = (w.written n).map Prod.snd

section Sound

variable {β : Type} {w after changed : World β} {p n : Nat} {call : Call β}
variable {act : Nat × Action β}

theorem World.Sound.holds_born (sound : w.Sound) {target : Target} (holds : w.Holds p target) :
    p < w.count := by
  by_contra unborn
  obtain ⟨fd, found⟩ := holds.exists_lookup
  rw [sound.empty p (Nat.le_of_not_lt unborn), AList.lookup_empty] at found
  cases found

theorem World.Sound.unread (sound : w.Sound) (n : Nat) :
    (w.written n).map Prod.snd = (w.taken n).map Prod.snd ++ w.unread n := by
  obtain ⟨left, split⟩ := sound.order n
  have length : (w.taken n).length = ((w.taken n).map Prod.snd).length := (List.length_map _).symm
  rw [World.unread, List.map_drop, ← split, length, List.drop_left]

theorem World.Sound.unwritable (sound : w.Sound) (noWriter : w.canBeWritten n = false) (p : Nat) :
    ¬ w.Holds p (.writeEnd n) := by
  intro holds
  have writer := List.any_eq_false.mp noWriter p (List.mem_range.mpr (sound.holds_born holds))
  exact writer (decide_eq_true holds)

theorem World.Sound.ended_made (sound : w.Sound) (ended : w.ended n = true) : n < w.pipes := by
  by_contra unmade
  rw [(sound.unmade n (Nat.le_of_not_lt unmade)).2.2] at ended
  cases ended

theorem Changes.canNotBeWritten (changes : Changes w p call changed)
    (silent : ∀ q, ¬ w.Holds q (.writeEnd n)) (old : n < w.pipes) (q : Nat) :
    ¬ changed.Holds q (.writeEnd n) := by
  intro holds
  rcases changes.holds holds with before | other | ⟨new, _⟩
  · exact silent q before
  · cases other
  · exact absurd (Option.some.inj new) (Nat.ne_of_lt old)

inductive Carries (w : World β) (p n : Nat) (call : Call β) (changed : World β) : Prop
  | same (written : changed.written n = w.written n) (taken : changed.taken n = w.taken n)
      (ended : changed.ended n = w.ended n)
  | writes (fd : Nat) (bytes : List β) (calls : call = .write fd bytes)
      (holds : w.Holds p (.writeEnd n))
      (written : changed.written n = w.written n ++ bytes.map fun byte => (p, byte))
      (taken : changed.taken n = w.taken n) (ended : changed.ended n = w.ended n)
  | takes (bytes : List β) (holds : w.Holds p (.readEnd n)) (there : bytes <+: w.unread n)
      (written : changed.written n = w.written n)
      (taken : changed.taken n = w.taken n ++ bytes.map fun byte => (p, byte))
      (ended : changed.ended n = w.ended n)
  | ends (holds : w.Holds p (.readEnd n)) (empty : w.unread n = [])
      (noWriter : w.canBeWritten n = false) (written : changed.written n = w.written n)
      (taken : changed.taken n = w.taken n)

theorem Changes.carries (changes : Changes w p call changed) (n : Nat) :
    Carries w p n call changed := by
  cases changes with
  | create | close | pipe | dup2 | writeElsewhere | readElsewhere =>
      exact .same rfl rfl rfl
  | @write fd m bytes found =>
      by_cases same : n = m
      · subst same
        exact .writes fd bytes rfl (.of_lookup found) (Function.update_self ..) rfl rfl
      · exact .same (Function.update_of_ne same ..) rfl rfl
  | @take fd m bytes found there =>
      by_cases same : n = m
      · subst same
        exact .takes bytes (.of_lookup found) there rfl (Function.update_self ..) rfl
      · exact .same rfl (Function.update_of_ne same ..) rfl
  | @ending fd m found empty noWriter =>
      by_cases same : n = m
      · subst same
        exact .ends (.of_lookup found) empty noWriter rfl rfl
      · exact .same rfl rfl (Function.update_of_ne same ..)

theorem Changes.sound (sound : w.Sound) (known : p < w.count)
    (changes : Changes w p call changed) : changed.Sound where
  numbered q target m holds number := by
    rcases changes.holds holds with before | other | ⟨new, more⟩
    · exact Nat.lt_of_lt_of_le (sound.numbered q target m before number) changes.pipes_le
    · rw [other] at number
      cases number
    · cases new.symm.trans number
      rw [more]
      exact Nat.lt_succ_self _
  empty q unborn := by
    rw [changes.count] at unborn
    rw [changes.tables_other (Nat.ne_of_gt (Nat.lt_of_lt_of_le known unborn))]
    exact sound.empty q unborn
  unborn q unborn := by
    rw [changes.count] at unborn
    rw [changes.parent]
    exact sound.unborn q unborn
  unmade m unmade := by
    have before := Nat.le_trans changes.pipes_le unmade
    obtain ⟨written, taken, ended⟩ := sound.unmade m before
    have nobody (target : Target) (ofPipe : target.pipe = some m) : ¬ w.Holds p target :=
      fun holds => absurd (sound.numbered p target m holds ofPipe) (Nat.not_lt_of_le before)
    cases changes.carries m with
    | same written' taken' ended' =>
        exact ⟨written'.trans written, taken'.trans taken, ended'.trans ended⟩
    | writes _ _ _ holds => exact absurd holds (nobody _ rfl)
    | takes _ holds => exact absurd holds (nobody _ rfl)
    | ends holds => exact absurd holds (nobody _ rfl)
  order m := by
    have before := sound.order m
    cases changes.carries m with
    | same written taken => rwa [written, taken]
    | writes _ _ _ _ written taken =>
        rw [written, taken, List.map_append]
        exact before.trans (List.prefix_append ..)
    | takes bytes _ there written taken =>
        have own : (bytes.map fun byte => (p, byte)).map Prod.snd = bytes := by
          simp [Function.comp_def]
        rw [written, taken, List.map_append, own, sound.unread m]
        exact (List.prefix_append_right_inj _).mpr there
    | ends _ _ _ written taken => rwa [written, taken]
  ended m ended := by
    cases changes.carries m with
    | same written taken same =>
        rw [same] at ended
        obtain ⟨silent, whole⟩ := sound.ended m ended
        rw [written, taken]
        exact ⟨changes.canNotBeWritten silent (sound.ended_made ended), whole⟩
    | writes _ _ _ holds written taken same =>
        rw [same] at ended
        exact absurd holds ((sound.ended m ended).1 p)
    | takes bytes holds there written taken same =>
        rw [same] at ended
        obtain ⟨silent, whole⟩ := sound.ended m ended
        have nothing : w.unread m = [] := by
          have split := sound.unread m
          rwa [whole, List.self_eq_append_right] at split
        rw [nothing, List.prefix_nil] at there
        rw [there, List.map_nil, List.append_nil] at taken
        rw [written, taken]
        exact ⟨changes.canNotBeWritten silent (sound.ended_made ended), whole⟩
    | ends holds empty noWriter written taken =>
        have made := sound.numbered p _ m holds rfl
        rw [written, taken, sound.unread m, empty, List.append_nil]
        exact ⟨changes.canNotBeWritten (sound.unwritable noWriter) made, rfl⟩

theorem Acts.sound (sound : w.Sound) (stepped : Acts w act after) : after.Sound := by
  cases stepped with
  | call known _ changes =>
      obtain ⟨numbered, empty, unborn, unmade, order, ended⟩ := changes.sound sound known
      exact ⟨numbered, empty, unborn, unmade, order, ended⟩
  | @fork p child parent known free =>
      have inherited {q : Nat} {target : Target}
          (holds : (w.afterFork p child parent).Holds q target) : ∃ r, w.Holds r target := by
        unfold World.Holds at holds
        by_cases new : q = w.count
        · rw [new, World.afterFork_child] at holds
          exact ⟨p, holds⟩
        · rw [World.afterFork_tables new] at holds
          exact ⟨q, holds⟩
      refine ⟨?_, ?_, ?_, sound.unmade, sound.order, ?_⟩
      · intro q target m holds number
        obtain ⟨r, before⟩ := inherited holds
        exact sound.numbered r target m before number
      · intro q unborn
        have older : w.count < q := unborn
        rw [World.afterFork_tables (Nat.ne_of_gt older)]
        exact sound.empty q (Nat.le_of_lt older)
      · intro q unborn
        have older : w.count < q := unborn
        have same : (w.afterFork p child parent).parent q = w.parent q :=
          Function.update_of_ne (Nat.ne_of_gt older) ..
        rw [same]
        exact sound.unborn q (Nat.le_of_lt older)
      · intro m ended
        obtain ⟨silent, whole⟩ := sound.ended m ended
        refine ⟨fun q holds => ?_, whole⟩
        obtain ⟨r, before⟩ := inherited holds
        exact silent r before

end Sound

/-- `p` is `k`, or was forked by a process that descends from it. -/
def World.Descends {β : Type} (w : World β) (k p : Nat) : Prop :=
  Relation.ReflTransGen (fun a b => w.parent b = some a) k p

theorem World.Descends.root {β : Type} {w : World β} {k p : Nat} (descends : w.Descends k p)
    (root : w.parent p = none) : p = k := by
  rcases descends.cases_tail with same | ⟨parent, _, isParent⟩
  · exact same
  · cases root.symm.trans isParent

structure World.Same {β : Type} (w after : World β) (q : Nat) : Prop where
  tables : after.tables q = w.tables q
  program : after.program q = w.program q
  owed : after.owed q = w.owed q
  made : after.made q = w.made q
  parent : after.parent q = w.parent q

section Families

variable {β : Type} {w after changed : World β} {p q k n fd : Nat} {call : Call β}
variable {act : Nat × Action β} {target : Target}

theorem Acts.same (stepped : Acts w act after) (known : q < w.count) (other : q ≠ act.1) :
    w.Same after q := by
  have old := Nat.ne_of_lt known
  cases stepped with
  | @fork p child parent _ free =>
      refine ⟨World.afterFork_tables old, Function.update_of_ne old .., ?_, ?_,
        Function.update_of_ne old ..⟩
      · exact (Function.update_of_ne old ..).trans (Function.update_of_ne other ..)
      · exact (Function.update_of_ne old ..).trans (Function.update_of_ne other ..)
  | @call p call changed _ turn changes =>
      refine ⟨changes.tables_other other, congrFun changes.program q, ?_, ?_,
        congrFun changes.parent q⟩
      · exact (Function.update_of_ne other ..).trans (congrFun changes.owed q)
      · exact (Function.update_of_ne other ..).trans (congrFun changes.made q)

theorem Acts.owed_call (stepped : Acts w (p, .call call) after) :
    after.owed p = (w.owed p).tail := by
  cases stepped with
  | call _ _ changes => exact (Function.update_self ..).trans (by rw [changes.owed])

theorem Acts.parent_call (stepped : Acts w (p, .call call) after) :
    after.parent = w.parent := by
  cases stepped with
  | call _ _ changes => exact changes.parent

theorem Acts.create (stepped : Acts w (p, .call (.create fd)) after) :
    fd ∉ w.tables p ∧ after.tables p = (w.tables p).insert fd .other := by
  cases stepped with
  | call _ _ changes =>
      cases changes with
      | create free => exact ⟨free, World.store_self _⟩

theorem Acts.close (stepped : Acts w (p, .call (.close fd)) after) :
    after.tables p = (w.tables p).erase fd := by
  cases stepped with
  | call _ _ changes =>
      cases changes with
      | close => exact World.store_self _

theorem Acts.pipe {readFd writeFd : Nat} (stepped : Acts w (p, .call (.pipe readFd writeFd)) after) :
    readFd ∉ w.tables p ∧ writeFd ∉ w.tables p ∧ readFd ≠ writeFd ∧
      after.tables p = ((w.tables p).insert readFd (.readEnd w.pipes)).insert writeFd
        (.writeEnd w.pipes) ∧ after.written = w.written := by
  cases stepped with
  | call _ _ changes =>
      cases changes with
      | pipe readFree writeFree different =>
          exact ⟨readFree, writeFree, different, World.store_self _, rfl⟩

theorem Acts.write {bytes : List β} (stepped : Acts w (p, .call (.write fd bytes)) after) :
    after.tables p = w.tables p := by
  cases stepped with
  | call _ _ changes => cases changes <;> rfl

theorem Acts.read {bytes : List β} (stepped : Acts w (p, .call (.read fd bytes)) after) :
    after.tables p = w.tables p := by
  cases stepped with
  | call _ _ changes => cases changes <;> rfl

theorem Acts.parent (stepped : Acts w act after) (known : q < w.count) :
    after.parent q = w.parent q := by
  cases stepped with
  | fork => exact Function.update_of_ne (Nat.ne_of_lt known) ..
  | call _ _ changes => exact congrFun changes.parent q

theorem Acts.count_le (stepped : Acts w act after) : w.count ≤ after.count := by
  cases stepped with
  | fork => exact Nat.le_succ _
  | call _ _ changes => exact Nat.le_of_eq changes.count.symm

theorem Acts.parent_eq (stepped : Acts w act after) (parent : after.parent q = some p) :
    w.parent q = some p ∨ q = w.count ∧ act.1 = p ∧ ∃ child more, act.2 = .fork child more := by
  cases stepped with
  | call _ _ changes => exact .inl ((congrFun changes.parent q).symm.trans parent)
  | @fork r child more _ free =>
      by_cases new : q = w.count
      · have told : (w.afterFork r child more).parent q = some r := by
          rw [new]
          exact Function.update_self ..
        exact .inr ⟨new, Option.some.inj (told.symm.trans parent), child, more, rfl⟩
      · exact .inl ((Function.update_of_ne new ..).symm.trans parent)

theorem Acts.program (stepped : Acts w act after) (known : q < w.count) :
    after.program q = w.program q := by
  cases stepped with
  | fork => exact Function.update_of_ne (Nat.ne_of_lt known) ..
  | call _ _ changes => exact congrFun changes.program q

theorem World.Sound.born (sound : w.Sound) (parent : w.parent q = some p) : q < w.count := by
  by_contra unborn
  rw [sound.unborn q (Nat.le_of_not_lt unborn)] at parent
  cases parent

theorem World.Descends.step (descends : w.Descends k p) (sound : w.Sound)
    (stepped : Acts w act after) : after.Descends k p := by
  have grows : (fun a b => w.parent b = some a) ≤ fun a b => after.parent b = some a :=
    fun a b parent => (stepped.parent (sound.born parent)).trans parent
  exact Relation.ReflTransGen.mono grows k p descends

theorem Acts.family {spared : Nat → Prop} (sound : w.Sound) (stepped : Acts w act after)
    (ofPipe : target.pipe = some n) (made : n < w.pipes)
    (within : ∀ q, w.Holds q target → w.Descends k q ∨ spared q)
    (calls : spared act.1 → ∃ call, act.2 = .call call) (holds : after.Holds q target) :
    after.Descends k q ∨ spared q := by
  rcases stepped.holds ofPipe made holds with before | ⟨new, parent, child, program, forked⟩
  · exact (within q before).imp_left fun descends => descends.step sound stepped
  · refine .inl ?_
    rcases within act.1 parent with descends | isSpared
    · refine (descends.step sound stepped).tail ?_
      obtain ⟨p, action⟩ := act
      cases forked
      cases stepped with
      | fork =>
          rw [new]
          exact Function.update_self ..
    · obtain ⟨call, called⟩ := calls isSpared
      cases called.symm.trans forked

theorem Acts.written_same (stepped : Acts w act after)
    (noWriter : ¬ w.Holds act.1 (.writeEnd n)) : after.written n = w.written n := by
  cases stepped with
  | fork => rfl
  | call _ _ changes =>
      cases changes.carries n with
      | same written | takes _ _ _ written | ends _ _ _ written => exact written
      | writes _ _ _ holds => exact absurd holds noWriter

theorem Acts.writers (sound : w.Sound) (stepped : Acts w act after)
    (within : ∀ x ∈ w.written n, w.Descends k x.1)
    (writes : ∀ fd bytes, act.2 = .call (.write fd bytes) → w.Holds act.1 (.writeEnd n) →
      w.Descends k act.1) : ∀ x ∈ after.written n, after.Descends k x.1 := by
  have before (x : Nat × β) (member : x ∈ w.written n) : after.Descends k x.1 :=
    (within x member).step sound stepped
  have whole := stepped
  cases stepped with
  | fork => exact before
  | @call p call changed _ turn changes =>
      intro x member
      cases changes.carries n with
      | same written | takes _ _ _ written | ends _ _ _ written =>
          exact before x (written ▸ member)
      | writes fd bytes calls holds written =>
          rcases List.mem_append.mp (written ▸ member) with old | new
          · exact before x old
          · obtain ⟨byte, _, rfl⟩ := List.mem_map.mp new
            exact (writes fd bytes (by rw [calls]) holds).step sound whole

end Families

section Programs

variable {β : Type} {w after changed : World β} {p k : Nat} {call : Call β}
variable {act : Nat × Action β} {first : Table}

def Call.rearranges : Call β → Bool
  | .close _ => true
  | .dup2 .. => true
  | _ => false

def Table.rearrange (table : Table) : Call β → Table
  | .close fd => table.erase fd
  | .dup2 old new => table.dup2 old new
  | _ => table

/-- The process has made the first calls of its program, and nothing else, since it had the table
`first`. -/
structure World.Follows (w : World β) (k : Nat) (first : Table) : Prop where
  owed : w.owed k = (w.program k).drop (w.made k)
  tables : w.tables k = ((w.program k).take (w.made k)).foldl Table.rearrange first

theorem Changes.rearranged (changes : Changes w p call changed) (rearranges : call.rearranges) :
    changed.tables p = (w.tables p).rearrange call := by
  cases changes with
  | close => exact World.store_self _
  | dup2 => exact World.store_self _
  | create | pipe | write | take | ending | writeElsewhere | readElsewhere => cases rearranges

theorem World.afterFork_follows (w : World β) (p : Nat) (child parent : List (Call β)) :
    (w.afterFork p child parent).Follows w.count (w.tables p) := by
  constructor <;> simp [World.afterFork]

theorem Acts.follows (stepped : Acts w act after) (known : k < w.count)
    (rearranges : ∀ call ∈ w.program k, call.rearranges = true)
    (follows : w.made k ≤ (w.program k).length → w.Follows k first)
    (within : after.made k ≤ (after.program k).length) : after.Follows k first := by
  by_cases other : k ≠ act.1
  · have same := stepped.same known other
    rw [same.made, same.program] at within
    have before := follows within
    constructor
    · rw [same.owed, same.program, same.made, before.owed]
    · rw [same.tables, same.program, same.made, before.tables]
  · have same := stepped.program known
    rw [same] at within
    cases stepped with
    | @fork p child parent _ free =>
        cases not_not.mp other
        have more : (w.afterFork p child parent).made p = w.made p + 1 :=
          (Function.update_of_ne (Nat.ne_of_lt known) ..).trans (Function.update_self ..)
        rw [more] at within
        have before := (follows (Nat.le_of_lt within)).owed
        rw [free, eq_comm, List.drop_eq_nil_iff] at before
        exact absurd within (Nat.not_lt_of_le before)
    | @call p call changed _ turn changes =>
        cases not_not.mp other
        have more : (changed.advance p).made p = w.made p + 1 :=
          (Function.update_self ..).trans (by rw [changes.made])
        rw [more] at within
        have before := follows (Nat.le_of_lt within)
        have owed := before.owed
        rw [List.drop_eq_getElem_cons within] at owed
        have isNext : (w.program p)[w.made p] = call := by
          rcases turn with free | next
          · cases free.symm.trans owed
          · rw [owed] at next
            exact Option.some.inj next
        constructor
        · have rest : (changed.advance p).owed p = (w.owed p).tail :=
            (Function.update_self ..).trans (by rw [changes.owed])
          rw [rest, owed, same, more]
          rfl
        · have isCall := rearranges _ (List.getElem_mem within)
          rw [isNext] at isCall
          have moved : (changed.advance p).tables p = (w.tables p).rearrange call :=
            changes.rearranged isCall
          rw [moved, same, more, List.take_succ_eq_append_getElem within, isNext,
            List.foldl_append, before.tables]
          rfl

end Programs

end Liso.Processes
