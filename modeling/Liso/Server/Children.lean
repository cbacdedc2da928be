import Liso.Server.SystemCalls

/-! The server among its CGI children and what they start in turn: whatever all of them do and in
whatever order, the pipes of a child end where `start_CGI_script` means them to end. -/

namespace Liso

open Processes

def serverWorld (fds : List Nat) : World UInt8 where
  count := 1
  tables := fun p => if p = 0 then (fds.map fun fd => (⟨fd, .other⟩ : Sigma _)).toAList else ∅
  program := fun _ => []
  owed := fun _ => []
  made := fun _ => 0
  parent := fun _ => none
  pipes := 0
  written := fun _ => []
  taken := fun _ => []
  ended := fun _ => false

/-- The standard input and output of the child are its ends of the pipes, and it has no other. -/
structure Redirected (world : World UInt8) (k n m : Nat) : Prop where
  stdin : (world.tables k).lookup 0 = some (.readEnd n)
  stdout : (world.tables k).lookup 1 = some (.writeEnd m)
  noInput : ¬ world.Holds k (.writeEnd n)
  noOutput : ¬ world.Holds k (.readEnd m)

/-- The server has the end itself, and the call that closes it is one of those that follow `fork`
and are still to come. -/
def StillOwes (world : World UInt8) (target : Target) : Prop :=
  ∃ fd, (world.tables 0).lookup fd = some target ∧ .close fd ∈ world.owed 0

/-- Child `k` and its pipes `n` and `m`. The server itself has the child's ends only until it has
closed them; the child has made the calls before `execve` when it has made four. -/
structure Wired (world : World UInt8) (k : Nat) (stdinPipe stdoutPipe : Pipe) (n m : Nat) :
    Prop where
  program : world.program k = childCalls stdinPipe stdoutPipe
  feeds : (world.tables 0).lookup stdinPipe.writeEnd = some (.writeEnd n)
  listens : (world.tables 0).lookup stdoutPipe.readEnd = some (.readEnd m)
  readers : ∀ p, world.Holds p (.readEnd n) →
    world.Descends k p ∨ p = 0 ∧ StillOwes world (.readEnd n)
  writers : ∀ p, world.Holds p (.writeEnd m) →
    world.Descends k p ∨ p = 0 ∧ StillOwes world (.writeEnd m)
  wrote : ∀ x ∈ world.written m, world.Descends k x.1
  fed : world.ended n = false
  ended : world.ended m = true → (∀ p, ¬ world.Holds p (.writeEnd m)) ∧
    (world.taken m).map Prod.snd = (world.written m).map Prod.snd
  executes : world.made k = 4 → Redirected world k n m

structure HasPipe (table : Table) (pipe : Pipe) (n : Nat) : Prop where
  reads : ∀ fd, table.lookup fd = some (.readEnd n) ↔ fd = pipe.readEnd
  writes : ∀ fd, table.lookup fd = some (.writeEnd n) ↔ fd = pipe.writeEnd

structure Forking (table : Table) (stdinPipe stdoutPipe : Pipe) (n m : Nat) : Prop where
  stdin : HasPipe table stdinPipe n
  stdout : HasPipe table stdoutPipe m
  different : n ≠ m
  standard : table.lookup 0 = some .other ∧ table.lookup 1 = some .other

/-- A child of the server; of the ends in `owed` the server has still to close its own. -/
structure Attached (world : World UInt8) (owed : List Target) (k : Nat)
    (stdinPipe stdoutPipe : Pipe) (n m : Nat) : Prop where
  child : world.parent k = some 0
  program : world.program k = childCalls stdinPipe stdoutPipe
  feeds : (world.tables 0).lookup stdinPipe.writeEnd = some (.writeEnd n)
  listens : (world.tables 0).lookup stdoutPipe.readEnd = some (.readEnd m)
  readers : ∀ p, world.Holds p (.readEnd n) →
    world.Descends k p ∨ p = 0 ∧ .readEnd n ∈ owed
  writers : ∀ p, world.Holds p (.writeEnd m) →
    world.Descends k p ∨ p = 0 ∧ .writeEnd m ∈ owed
  wrote : ∀ x ∈ world.written m, world.Descends k x.1
  follows : ∃ first, Forking first stdinPipe stdoutPipe n m ∧
    (world.made k ≤ (world.program k).length → world.Follows k first)

section Table

variable {table : Table} {stdinPipe stdoutPipe : Pipe} {n m : Nat}

theorem Forking.redirects (forking : Forking table stdinPipe stdoutPipe n m) :
    let left := (childCalls stdinPipe stdoutPipe).foldl Table.rearrange table
    left.lookup 0 = some (.readEnd n) ∧ left.lookup 1 = some (.writeEnd m) ∧
      (∀ fd, left.lookup fd ≠ some (.writeEnd n)) ∧ ∀ fd, left.lookup fd ≠ some (.readEnd m) := by
  obtain ⟨⟨stdin0, stdin1⟩, ⟨stdout0, stdout1⟩, different, input, output⟩ := forking
  have isStdin0 := (stdin0 _).mpr rfl
  have isStdin1 := (stdin1 _).mpr rfl
  have isStdout0 := (stdout0 _).mpr rfl
  have isStdout1 := (stdout1 _).mpr rfl
  -- descriptors for different targets are different
  have apart {fd fd' : Nat} {target target' : Target} (found : table.lookup fd = some target)
      (found' : table.lookup fd' = some target') (other : target ≠ target') : fd ≠ fd' := by
    rintro rfl
    exact other (Option.some.inj (found.symm.trans found'))
  have outputMoved : Table.dup2 (table.erase stdoutPipe.readEnd) stdoutPipe.writeEnd 1 =
      (table.erase stdoutPipe.readEnd).insert 1 (.writeEnd m) := by
    refine Table.dup2_of_lookup ?_
    rw [Table.lookup_erase, if_neg (apart isStdout1 isStdout0 (by simp)), isStdout1]
  have inputMoved : Table.dup2 (((table.erase stdoutPipe.readEnd).insert 1 (.writeEnd m)).erase
      stdinPipe.writeEnd) stdinPipe.readEnd 0 =
      (((table.erase stdoutPipe.readEnd).insert 1 (.writeEnd m)).erase
        stdinPipe.writeEnd).insert 0 (.readEnd n) := by
    refine Table.dup2_of_lookup ?_
    rw [Table.lookup_erase, if_neg (apart isStdin0 isStdin1 (by simp)), Table.lookup_insert,
      if_neg (apart isStdin0 output (by simp)), Table.lookup_erase,
      if_neg (apart isStdin0 isStdout0 (by simp [different])), isStdin0]
  have looks (fd : Nat) :
      ((childCalls stdinPipe stdoutPipe).foldl Table.rearrange table).lookup fd =
        if fd = 0 then some (.readEnd n) else if fd = stdinPipe.writeEnd then none
        else if fd = 1 then some (.writeEnd m) else if fd = stdoutPipe.readEnd then none
        else table.lookup fd := by
    simp only [childCalls, List.foldl_cons, List.foldl_nil, Table.rearrange, outputMoved,
      inputMoved, Table.lookup_insert, Table.lookup_erase]
  refine ⟨by simp [looks], ?_, fun fd => ?_, fun fd => ?_⟩
  · simp [looks, apart output isStdin1 (by simp)]
  · rw [looks]
    split_ifs with zero written one read
    · simp
    · simp
    · simp [Ne.symm different]
    · simp
    · exact fun found => written ((stdin1 fd).mp found)
  · rw [looks]
    split_ifs with zero written one read
    · simp [different]
    · simp
    · simp
    · simp
    · exact fun found => read ((stdout0 fd).mp found)

end Table

section Attached

variable {world after : World UInt8} {owed more : List Target} {k n m : Nat}
variable {stdinPipe stdoutPipe : Pipe} {act : Nat × Action UInt8}

theorem Attached.holds_feed (attached : Attached world owed k stdinPipe stdoutPipe n m) :
    world.Holds 0 (.writeEnd n) := .of_lookup attached.feeds

theorem Attached.holds_listen (attached : Attached world owed k stdinPipe stdoutPipe n m) :
    world.Holds 0 (.readEnd m) := .of_lookup attached.listens

theorem Attached.step (attached : Attached world owed k stdinPipe stdoutPipe n m)
    (sound : world.Sound) (stepped : Acts world act after)
    (calm : act.1 = 0 → owed = [] ∨ ∃ fd, act.2 = .call (.close fd))
    (feeds : (after.tables 0).lookup stdinPipe.writeEnd = some (.writeEnd n))
    (listens : (after.tables 0).lookup stdoutPipe.readEnd = some (.readEnd m)) :
    Attached after owed k stdinPipe stdoutPipe n m := by
  have born := sound.born attached.child
  have input : n < world.pipes := sound.numbered 0 _ n attached.holds_feed rfl
  have output : m < world.pipes := sound.numbered 0 _ m attached.holds_listen rfl
  have calls {target : Target} (spared : act.1 = 0 ∧ target ∈ owed) :
      ∃ call, act.2 = .call call := by
    rcases calm spared.1 with none | ⟨fd, closes⟩
    · rw [none] at spared
      cases spared.2
    · exact ⟨_, closes⟩
  obtain ⟨first, forking, follows⟩ := attached.follows
  have rearranges : ∀ call ∈ world.program k, call.rearranges = true := by
    rw [attached.program]
    simp [childCalls, Call.rearranges]
  refine ⟨(stepped.parent born).trans attached.child,
    (stepped.program born).trans attached.program, feeds, listens, ?_, ?_, ?_, first, forking, ?_⟩
  · exact fun p => stepped.family sound rfl input attached.readers calls
  · exact fun p => stepped.family sound rfl output attached.writers calls
  · refine stepped.writers sound attached.wrote fun fd bytes writes holds => ?_
    refine (attached.writers act.1 holds).resolve_right fun spared => ?_
    rcases calm spared.1 with none | ⟨other, closes⟩
    · rw [none] at spared
      cases spared.2
    · cases closes.symm.trans writes
  · exact stepped.follows born rearranges follows

theorem Attached.mono (attached : Attached world owed k stdinPipe stdoutPipe n m)
    (wider : owed ⊆ more) : Attached world more k stdinPipe stdoutPipe n m :=
  { attached with
    readers := fun p holds => (attached.readers p holds).imp_right fun spared =>
      ⟨spared.1, wider spared.2⟩
    writers := fun p holds => (attached.writers p holds).imp_right fun spared =>
      ⟨spared.1, wider spared.2⟩ }

theorem Attached.settle {target : Target}
    (attached : Attached world (target :: owed) k stdinPipe stdoutPipe n m)
    (closed : ¬ world.Holds 0 target) : Attached world owed k stdinPipe stdoutPipe n m := by
  have left {p : Nat} {held : Target} (holds : world.Holds p held)
      (spared : p = 0 ∧ held ∈ target :: owed) : p = 0 ∧ held ∈ owed := by
    obtain ⟨rfl, member⟩ := spared
    rcases List.mem_cons.mp member with rfl | later
    · exact absurd holds closed
    · exact ⟨rfl, later⟩
  exact { attached with
    readers := fun p holds => (attached.readers p holds).imp_right (left holds)
    writers := fun p holds => (attached.writers p holds).imp_right (left holds) }

theorem Attached.wired (attached : Attached world owed k stdinPipe stdoutPipe n m)
    (sound : world.Sound) (owes : ∀ target ∈ owed, StillOwes world target) :
    Wired world k stdinPipe stdoutPipe n m := by
  have spares {p : Nat} {target : Target} (spared : p = 0 ∧ target ∈ owed) :
      p = 0 ∧ StillOwes world target := ⟨spared.1, owes target spared.2⟩
  refine ⟨attached.program, attached.feeds, attached.listens, fun p holds =>
    (attached.readers p holds).imp_right spares, fun p holds =>
    (attached.writers p holds).imp_right spares, attached.wrote, ?_, sound.ended m, ?_⟩
  · by_contra ended
    exact (sound.ended n (by simpa using ended)).1 0 attached.holds_feed
  · intro four
    obtain ⟨first, forking, follows⟩ := attached.follows
    have whole : (world.program k).length = 4 := by
      rw [attached.program]
      rfl
    have tables := (follows (by rw [four, whole])).tables
    rw [four, ← whole, List.take_length, attached.program] at tables
    obtain ⟨stdin, stdout, noInput, noOutput⟩ := forking.redirects
    rw [← tables] at stdin stdout noInput noOutput
    refine ⟨stdin, stdout, fun holds => ?_, fun holds => ?_⟩
    · obtain ⟨fd, found⟩ := holds.exists_lookup
      exact noInput fd found
    · obtain ⟨fd, found⟩ := holds.exists_lookup
      exact noOutput fd found

end Attached

structure Fresh (world : World UInt8) (pipe : Pipe) (n : Nat) : Prop where
  has : HasPipe (world.tables 0) pipe n
  reads : ∀ p, world.Holds p (.readEnd n) → p = 0
  writes : ∀ p, world.Holds p (.writeEnd n) → p = 0
  unwritten : world.written n = []

/-- How far the server is in `start_CGI_script`: the actions of it that are left, and the ends that
it has still to close. -/
inductive Stage (world : World UInt8) : List (Action UInt8) → List Target → Prop
  | idle (free : world.owed 0 = []) : Stage world [] []
  | input {stdinPipe stdoutPipe : Pipe} {n : Nat} (free : world.owed 0 = [])
      (stdin : Fresh world stdinPipe n) :
      Stage world
        [.call (.pipe stdoutPipe.readEnd stdoutPipe.writeEnd),
         .fork (childCalls stdinPipe stdoutPipe) (parentCalls stdinPipe stdoutPipe),
         .call (.close stdoutPipe.writeEnd), .call (.close stdinPipe.readEnd)] []
  | output {stdinPipe stdoutPipe : Pipe} {n m : Nat} (free : world.owed 0 = [])
      (stdin : Fresh world stdinPipe n) (stdout : Fresh world stdoutPipe m) (different : n ≠ m) :
      Stage world
        [.fork (childCalls stdinPipe stdoutPipe) (parentCalls stdinPipe stdoutPipe),
         .call (.close stdoutPipe.writeEnd), .call (.close stdinPipe.readEnd)] []
  | forked {stdinPipe stdoutPipe : Pipe} {n m : Nat}
      (owes : world.owed 0 = parentCalls stdinPipe stdoutPipe)
      (stdin : HasPipe (world.tables 0) stdinPipe n)
      (stdout : HasPipe (world.tables 0) stdoutPipe m) (different : n ≠ m) :
      Stage world [.call (.close stdoutPipe.writeEnd), .call (.close stdinPipe.readEnd)]
        [.writeEnd m, .readEnd n]
  | closing {stdinPipe : Pipe} {n : Nat} (owes : world.owed 0 = [.close stdinPipe.readEnd])
      (stdin : HasPipe (world.tables 0) stdinPipe n) :
      Stage world [.call (.close stdinPipe.readEnd)] [.readEnd n]

structure Attends (world : World UInt8) (held : Multiset Nat) (begun : List (Action UInt8))
    (owed : List Target) : Prop where
  sound : world.Sound
  born : 0 < world.count
  root : world.parent 0 = none
  standard : (world.tables 0).lookup 0 = some .other ∧ (world.tables 0).lookup 1 = some .other
  nodup : held.Nodup
  plain : ∀ fd ∈ held, (world.tables 0).lookup fd = some .other ∧ fd ≠ 0 ∧ fd ≠ 1
  stage : Stage world begun owed
  children : ∀ k, world.parent k = some 0 →
    ∃ stdinPipe stdoutPipe n m, Attached world owed k stdinPipe stdoutPipe n m

section Others

variable {world after : World UInt8} {held : Multiset Nat} {begun : List (Action UInt8)}
variable {owed : List Target} {act : Nat × Action UInt8} {pipe : Pipe} {n : Nat}

theorem Fresh.others (fresh : Fresh world pipe n) (sound : world.Sound)
    (stepped : Acts world act after) (same : world.Same after 0) (other : act.1 ≠ 0) :
    Fresh after pipe n := by
  have isRead := World.Holds.of_lookup ((fresh.has.reads _).mpr rfl)
  have made : n < world.pipes := sound.numbered 0 _ n isRead rfl
  have alone {target : Target} (ofPipe : target.pipe = some n)
      (before : ∀ p, world.Holds p target → p = 0) (p : Nat) (holds : after.Holds p target) :
      p = 0 := by
    rcases stepped.holds ofPipe made holds with held | ⟨_, parent, _⟩
    · exact before p held
    · exact absurd (before act.1 parent) other
  refine ⟨?_, alone rfl fresh.reads, alone rfl fresh.writes, ?_⟩
  · rw [same.tables]
    exact fresh.has
  · exact (stepped.written_same fun holds => other (fresh.writes _ holds)).trans fresh.unwritten

theorem Stage.others (stage : Stage world begun owed) (sound : world.Sound)
    (stepped : Acts world act after) (same : world.Same after 0) (other : act.1 ≠ 0) :
    Stage after begun owed := by
  cases stage with
  | idle free => exact .idle (same.owed.trans free)
  | input free stdin =>
      exact .input (same.owed.trans free) (stdin.others sound stepped same other)
  | output free stdin stdout different =>
      exact .output (same.owed.trans free) (stdin.others sound stepped same other)
        (stdout.others sound stepped same other) different
  | forked owes stdin stdout different =>
      exact .forked (same.owed.trans owes) (same.tables ▸ stdin) (same.tables ▸ stdout) different
  | closing owes stdin => exact .closing (same.owed.trans owes) (same.tables ▸ stdin)

theorem Attends.others (attends : Attends world held begun owed) (stepped : Acts world act after)
    (other : act.1 ≠ 0) : Attends after held begun owed := by
  have same := stepped.same attends.born (Ne.symm other)
  refine ⟨stepped.sound attends.sound, ?_, same.parent.trans attends.root, ?_, attends.nodup, ?_,
    attends.stage.others attends.sound stepped same other, ?_⟩
  · exact Nat.lt_of_lt_of_le attends.born stepped.count_le
  · rw [same.tables]
    exact attends.standard
  · rw [same.tables]
    exact attends.plain
  · intro k child
    have before := (stepped.parent_eq child).resolve_right fun forked => other forked.2.1
    obtain ⟨stdinPipe, stdoutPipe, n, m, attached⟩ := attends.children k before
    refine ⟨stdinPipe, stdoutPipe, n, m, attached.step attends.sound stepped
      (fun server => absurd server other) ?_ ?_⟩
    · rw [same.tables]
      exact attached.feeds
    · rw [same.tables]
      exact attached.listens

end Others

section Server

variable {world after : World UInt8} {held : Multiset Nat} {owed : List Target}
variable {begun begun' : List (Action UInt8)} {call : Call UInt8} {fd n m : Nat}
variable {stdinPipe stdoutPipe : Pipe}

theorem Attends.free (attends : Attends world held [] owed) : world.owed 0 = [] ∧ owed = [] := by
  cases attends.stage with
  | idle free => exact ⟨free, rfl⟩

theorem Attends.keeps (attends : Attends world held begun owed)
    (stepped : Acts world (0, .call call) after)
    (calm : owed = [] ∨ ∃ fd, call = .close fd)
    (kept : ∀ k stdinPipe stdoutPipe n m, Attached world owed k stdinPipe stdoutPipe n m →
      (after.tables 0).lookup stdinPipe.writeEnd = some (.writeEnd n) ∧
        (after.tables 0).lookup stdoutPipe.readEnd = some (.readEnd m)) :
    ∀ k, after.parent k = some 0 →
      ∃ stdinPipe stdoutPipe n m, Attached after owed k stdinPipe stdoutPipe n m := by
  intro k child
  rw [stepped.parent_call] at child
  obtain ⟨stdinPipe, stdoutPipe, n, m, attached⟩ := attends.children k child
  obtain ⟨feeds, listens⟩ := kept k stdinPipe stdoutPipe n m attached
  refine ⟨stdinPipe, stdoutPipe, n, m, attached.step attends.sound stepped (fun _ => ?_) feeds
    listens⟩
  rcases calm with none | ⟨fd, closes⟩
  · exact .inl none
  · exact .inr ⟨fd, by rw [closes]⟩

theorem Attends.keeps_ends (attends : Attends world held begun [])
    (stepped : Acts world (0, .call call) after)
    (kept : ∀ fd target, target ≠ .other → (world.tables 0).lookup fd = some target →
      (after.tables 0).lookup fd = some target) :
    ∀ k, after.parent k = some 0 →
      ∃ stdinPipe stdoutPipe n m, Attached after [] k stdinPipe stdoutPipe n m :=
  attends.keeps stepped (.inl rfl) fun _ _ _ _ _ attached =>
    ⟨kept _ _ (by simp) attached.feeds, kept _ _ (by simp) attached.listens⟩

theorem Attends.after_call {held' : Multiset Nat} {owed' : List Target}
    (attends : Attends world held begun owed) (stepped : Acts world (0, .call call) after)
    (standard : (after.tables 0).lookup 0 = some .other ∧ (after.tables 0).lookup 1 = some .other)
    (nodup : held'.Nodup)
    (plain : ∀ fd ∈ held', (after.tables 0).lookup fd = some .other ∧ fd ≠ 0 ∧ fd ≠ 1)
    (stage : Stage after begun' owed')
    (children : ∀ k, after.parent k = some 0 →
      ∃ stdinPipe stdoutPipe n m, Attached after owed' k stdinPipe stdoutPipe n m) :
    Attends after held' begun' owed' where
  sound := stepped.sound attends.sound
  born := Nat.lt_of_lt_of_le attends.born stepped.count_le
  root := (congrFun stepped.parent_call 0).trans attends.root
  standard := standard
  nodup := nodup
  plain := plain
  stage := stage
  children := children

theorem Attends.stays_idle (attends : Attends world held [] owed)
    (stepped : Acts world (0, .call call) after) : Stage after [] [] := by
  refine .idle ?_
  rw [stepped.owed_call, attends.free.1]
  rfl

theorem Attends.create (attends : Attends world held [] [])
    (stepped : Acts world (0, .call (.create fd)) after) : Attends after (fd ::ₘ held) [] [] := by
  obtain ⟨free, tables⟩ := stepped.create
  have kept {fd' : Nat} {target : Target} (found : (world.tables 0).lookup fd' = some target) :
      (after.tables 0).lookup fd' = some target := by
    rw [tables]
    exact Table.lookup_insert_free free found
  have taken {fd' : Nat} {target : Target} (found : (world.tables 0).lookup fd' = some target) :
      fd ≠ fd' := by
    rintro rfl
    exact free (Table.mem_of_lookup found)
  refine attends.after_call stepped ⟨kept attends.standard.1, kept attends.standard.2⟩ ?_ ?_
    (attends.stays_idle stepped) (attends.keeps_ends stepped fun _ _ _ => kept)
  · exact Multiset.nodup_cons.mpr
      ⟨fun member => taken (attends.plain fd member).1 rfl, attends.nodup⟩
  · intro fd' member
    rcases Multiset.mem_cons.mp member with rfl | old
    · refine ⟨?_, taken attends.standard.1, taken attends.standard.2⟩
      rw [tables]
      exact AList.lookup_insert _
    · exact ⟨kept (attends.plain fd' old).1, (attends.plain fd' old).2⟩

theorem Attends.close (attends : Attends world held [] []) (member : fd ∈ held)
    (stepped : Acts world (0, .call (.close fd)) after) :
    Attends after (held.erase fd) [] [] := by
  have tables := stepped.close
  obtain ⟨isPlain, notInput, notOutput⟩ := attends.plain fd member
  have kept {fd' : Nat} {target : Target} (other : fd' ≠ fd)
      (found : (world.tables 0).lookup fd' = some target) :
      (after.tables 0).lookup fd' = some target := by
    rw [tables, Table.lookup_erase, if_neg other, found]
  refine attends.after_call stepped
    ⟨kept (Ne.symm notInput) attends.standard.1, kept (Ne.symm notOutput) attends.standard.2⟩
    (attends.nodup.erase fd) ?_ (attends.stays_idle stepped) (attends.keeps_ends stepped ?_)
  · intro fd' still
    obtain ⟨other, old⟩ := (Multiset.Nodup.mem_erase_iff attends.nodup).mp still
    exact ⟨kept other (attends.plain fd' old).1, (attends.plain fd' old).2⟩
  · intro fd' target isPipe found
    refine kept ?_ found
    rintro rfl
    exact isPipe (Option.some.inj (found.symm.trans isPlain))

theorem Attends.transfer (attends : Attends world held [] [])
    (stepped : Acts world (0, .call call) after) (tables : after.tables 0 = world.tables 0) :
    Attends after held [] [] :=
  attends.after_call stepped (tables ▸ attends.standard) attends.nodup (tables ▸ attends.plain)
    (attends.stays_idle stepped) (attends.keeps_ends stepped fun _ _ _ found => tables ▸ found)

theorem HasPipe.reads_pipe {table : Table} {pipe : Pipe} (has : HasPipe table pipe n) :
    table.lookup pipe.readEnd = some (.readEnd n) := (has.reads _).mpr rfl

theorem HasPipe.writes_pipe {table : Table} {pipe : Pipe} (has : HasPipe table pipe n) :
    table.lookup pipe.writeEnd = some (.writeEnd n) := (has.writes _).mpr rfl

theorem Attends.fresh {pipe : Pipe} (attends : Attends world held begun [])
    (stepped : Acts world (0, .call (.pipe pipe.readEnd pipe.writeEnd)) after) :
    Fresh after pipe world.pipes := by
  obtain ⟨readFree, writeFree, different, tables, written⟩ := stepped.pipe
  have unknown {p : Nat} {target : Target} (ofPipe : target.pipe = some world.pipes) :
      ¬ world.Holds p target := fun holds =>
    absurd (attends.sound.numbered p target _ holds ofPipe) (Nat.lt_irrefl _)
  have looks (fd' : Nat) : (after.tables 0).lookup fd' =
      if fd' = pipe.writeEnd then some (.writeEnd world.pipes)
      else if fd' = pipe.readEnd then some (.readEnd world.pipes)
      else (world.tables 0).lookup fd' := by
    rw [tables, Table.lookup_insert, Table.lookup_insert]
  have alone {p : Nat} {target : Target} (ofPipe : target.pipe = some world.pipes)
      (holds : after.Holds p target) : p = 0 := by
    by_contra other
    unfold World.Holds at holds
    rw [stepped.tables_call other] at holds
    exact unknown ofPipe holds
  refine ⟨⟨fun fd' => ?_, fun fd' => ?_⟩, fun p => alone rfl, fun p => alone rfl, ?_⟩
  · rw [looks]
    split_ifs with write read
    · simp [write, Ne.symm different]
    · simp [read]
    · exact ⟨fun found => absurd (.of_lookup found) (unknown rfl), fun same => absurd same read⟩
  · rw [looks]
    split_ifs with write read
    · simp [write]
    · simp [read, different]
    · exact ⟨fun found => absurd (.of_lookup found) (unknown rfl), fun same => absurd same write⟩
  · rw [written]
    exact (attends.sound.unmade _ (Nat.le_refl _)).1

theorem Attends.pipes {pipe : Pipe} (attends : Attends world held begun [])
    (free : world.owed 0 = []) (stepped : Acts world (0, .call (.pipe pipe.readEnd pipe.writeEnd)) after)
    (stage : after.owed 0 = [] → Fresh after pipe world.pipes → Stage after begun' []) :
    Attends after held begun' [] := by
  obtain ⟨readFree, writeFree, different, tables, _⟩ := stepped.pipe
  have kept {fd' : Nat} {target : Target} (found : (world.tables 0).lookup fd' = some target) :
      (after.tables 0).lookup fd' = some target := by
    rw [tables]
    refine Table.lookup_insert_free ?_ (Table.lookup_insert_free readFree found)
    rw [AList.mem_insert]
    exact fun used => used.elim (fun same => different same.symm) writeFree
  refine attends.after_call stepped ⟨kept attends.standard.1, kept attends.standard.2⟩ attends.nodup
    (fun fd' member => ⟨kept (attends.plain fd' member).1, (attends.plain fd' member).2⟩) ?_
    (attends.keeps_ends stepped fun _ _ _ => kept)
  refine stage ?_ (attends.fresh stepped)
  rw [stepped.owed_call, free]
  rfl

theorem HasPipe.congr {table left : Table} {pipe : Pipe} (has : HasPipe table pipe n)
    (same : ∀ fd target, target.pipe = some n →
      (left.lookup fd = some target ↔ table.lookup fd = some target)) : HasPipe left pipe n :=
  ⟨fun fd => (same fd _ rfl).trans (has.reads fd), fun fd => (same fd _ rfl).trans (has.writes fd)⟩

theorem Fresh.pipes {pipe made : Pipe} (fresh : Fresh world pipe n) (sound : world.Sound)
    (stepped : Acts world (0, .call (.pipe made.readEnd made.writeEnd)) after) :
    Fresh after pipe n ∧ n ≠ world.pipes := by
  obtain ⟨readFree, writeFree, different, tables, written⟩ := stepped.pipe
  have older : n < world.pipes := sound.numbered 0 _ n (.of_lookup fresh.has.reads_pipe) rfl
  have holds {p : Nat} {target : Target} (ofPipe : target.pipe = some n)
      (after : after.Holds p target) : world.Holds p target := by
    rcases stepped.holds ofPipe older after with before | ⟨_, _, _, _, forked⟩
    · exact before
    · cases forked
  refine ⟨⟨fresh.has.congr fun fd' target ofPipe => ?_, fun p held => fresh.reads p (holds rfl held),
    fun p held => fresh.writes p (holds rfl held), ?_⟩, Nat.ne_of_lt older⟩
  · rw [tables, Table.lookup_insert, Table.lookup_insert]
    have neither {new : Target} (ofMade : new.pipe = some world.pipes)
        (unused : fd' ∉ world.tables 0) :
        some new = some target ↔ (world.tables 0).lookup fd' = some target := by
      rw [AList.lookup_eq_none.mpr unused]
      refine ⟨fun same => ?_, fun found => absurd found (Option.some_ne_none _).symm⟩
      rw [Option.some.inj same, ofPipe] at ofMade
      exact absurd (Option.some.inj ofMade) (Nat.ne_of_lt older)
    split_ifs with write read
    · exact neither rfl (write ▸ writeFree)
    · exact neither rfl (read ▸ readFree)
    · exact Iff.rfl
  · rw [written]
    exact fresh.unwritten

theorem Attends.forks (attends : Attends world held begun [])
    (stdin : Fresh world stdinPipe n) (stdout : Fresh world stdoutPipe m) (different : n ≠ m)
    (stepped : Acts world (0, .fork (childCalls stdinPipe stdoutPipe)
      (parentCalls stdinPipe stdoutPipe)) after) :
    Attends after held [.call (.close stdoutPipe.writeEnd), .call (.close stdinPipe.readEnd)]
      [.writeEnd m, .readEnd n] := by
  have sound := attends.sound
  have older := Nat.ne_of_lt attends.born
  have whole := stepped
  cases stepped with
  | fork known free =>
      set next := world.afterFork 0 (childCalls stdinPipe stdoutPipe)
        (parentCalls stdinPipe stdoutPipe) with next_def
      have tables : next.tables 0 = world.tables 0 := World.afterFork_tables older
      have input : n < world.pipes := sound.numbered 0 _ n (.of_lookup stdin.has.reads_pipe) rfl
      have output : m < world.pipes := sound.numbered 0 _ m (.of_lookup stdout.has.reads_pipe) rfl
      refine ⟨whole.sound sound, Nat.lt_of_lt_of_le attends.born whole.count_le,
        (Function.update_of_ne older ..).trans attends.root, tables ▸ attends.standard,
        attends.nodup, tables ▸ attends.plain,
        .forked ?_ (tables ▸ stdin.has) (tables ▸ stdout.has) different, fun k child => ?_⟩
      · exact (Function.update_of_ne older ..).trans (Function.update_self ..)
      · rcases whole.parent_eq child with before | ⟨new, _⟩
        · obtain ⟨stdinPipe, stdoutPipe, n, m, attached⟩ := attends.children k before
          refine ⟨stdinPipe, stdoutPipe, n, m, ?_⟩
          refine (attached.step sound whole (fun _ => .inl rfl) ?_ ?_).mono (List.nil_subset _)
          · rw [tables]
            exact attached.feeds
          · rw [tables]
            exact attached.listens
        · subst new
          have family {p : Nat} {target : Target} {number : Nat} (ofPipe : target.pipe = some number)
              (made : number < world.pipes) (only : ∀ p, world.Holds p target → p = 0)
              (member : target ∈ [Target.writeEnd m, .readEnd n]) (holds : next.Holds p target) :
              next.Descends world.count p ∨ p = 0 ∧ target ∈ [Target.writeEnd m, .readEnd n] := by
            rcases whole.holds ofPipe made holds with before | ⟨new, _⟩
            · exact .inr ⟨only p before, member⟩
            · rw [new]
              exact .inl .refl
          refine ⟨stdinPipe, stdoutPipe, n, m, child, Function.update_self .., ?_, ?_,
            fun p => family rfl input stdin.reads (by simp),
            fun p => family rfl output stdout.writes (by simp), ?_, world.tables 0,
            ⟨stdin.has, stdout.has, different, attends.standard⟩,
            fun _ => World.afterFork_follows world 0 _ _⟩
          · rw [tables]
            exact stdin.has.writes_pipe
          · rw [tables]
            exact stdout.has.reads_pipe
          · have unwritten : next.written m = [] := stdout.unwritten
            rw [unwritten]
            exact List.forall_mem_nil _

theorem HasPipe.erase {table : Table} {pipe : Pipe} (has : HasPipe table pipe n)
    (notRead : fd ≠ pipe.readEnd) (notWrite : fd ≠ pipe.writeEnd) :
    HasPipe (table.erase fd) pipe n := by
  refine has.congr fun fd' target ofPipe => ?_
  rw [Table.lookup_erase]
  split_ifs with same
  · refine ⟨fun never => never.elim, fun found => ?_⟩
    rw [same] at found
    cases target with
    | other => cases ofPipe
    | readEnd number =>
        cases ofPipe
        exact absurd ((has.reads fd).mp found) notRead
    | writeEnd number =>
        cases ofPipe
        exact absurd ((has.writes fd).mp found) notWrite
  · exact Iff.rfl

theorem Attends.closes {target : Target} {begun' : List (Action UInt8)}
    (attends : Attends world held begun (target :: owed)) (isPipe : target ≠ .other)
    (has : ∀ fd', (world.tables 0).lookup fd' = some target ↔ fd' = fd)
    (spares : ∀ k stdinPipe stdoutPipe n m,
      Attached world (target :: owed) k stdinPipe stdoutPipe n m →
        target ≠ .writeEnd n ∧ target ≠ .readEnd m)
    (stepped : Acts world (0, .call (.close fd)) after)
    (stage : Stage after begun' owed) : Attends after held begun' owed := by
  have tables := stepped.close
  have found := (has fd).mpr rfl
  have kept {fd' : Nat} {kind : Target} (different : target ≠ kind)
      (there : (world.tables 0).lookup fd' = some kind) :
      (after.tables 0).lookup fd' = some kind := by
    rw [tables, Table.lookup_erase, if_neg, there]
    rintro rfl
    exact different (Option.some.inj (found.symm.trans there))
  have closed : ¬ after.Holds 0 target := by
    intro holds
    obtain ⟨fd', still⟩ := holds.exists_lookup
    rw [tables, Table.lookup_erase] at still
    split_ifs at still with same
    exact same ((has fd').mp still)
  refine attends.after_call stepped
    ⟨kept isPipe attends.standard.1, kept isPipe attends.standard.2⟩ attends.nodup
    (fun fd' member => ⟨kept isPipe (attends.plain fd' member).1, (attends.plain fd' member).2⟩)
    stage fun k child => ?_
  have attached := attends.keeps stepped (.inr ⟨fd, rfl⟩) (fun k stdinPipe stdoutPipe n m attached =>
    ⟨kept (spares k stdinPipe stdoutPipe n m attached).1 attached.feeds,
      kept (spares k stdinPipe stdoutPipe n m attached).2 attached.listens⟩) k child
  obtain ⟨stdinPipe, stdoutPipe, n, m, attached⟩ := attached
  exact ⟨stdinPipe, stdoutPipe, n, m, attached.settle closed⟩

theorem Attends.notOwn {k : Nat} {target : Target} (attends : Attends world held begun owed)
    (child : world.parent k = some 0) (holds : world.Holds 0 target)
    (within : ∀ p, world.Holds p target → world.Descends k p ∨ p = 0 ∧ target ∈ owed) :
    target ∈ owed := by
  rcases within 0 holds with descends | spared
  · rw [← descends.root attends.root, attends.root] at child
    cases child
  · exact spared.2

theorem Attends.closesOutput
    (attends : Attends world held begun [.writeEnd m, .readEnd n])
    (owes : world.owed 0 = parentCalls stdinPipe stdoutPipe)
    (stdin : HasPipe (world.tables 0) stdinPipe n) (stdout : HasPipe (world.tables 0) stdoutPipe m)
    (different : n ≠ m) (stepped : Acts world (0, .call (.close stdoutPipe.writeEnd)) after) :
    Attends after held [.call (.close stdinPipe.readEnd)] [.readEnd n] := by
  refine attends.closes (by simp) stdout.writes ?_ stepped (.closing ?_ ?_)
  · intro k stdinPipe' stdoutPipe' n' m' attached
    refine ⟨fun same => ?_, by simp⟩
    cases same
    have own := attends.notOwn attached.child (.of_lookup stdout.reads_pipe) attached.readers
    simp at own
    exact different own.symm
  · rw [stepped.owed_call, owes]
    rfl
  · rw [stepped.close]
    refine stdin.erase ?_ ?_
    · intro same
      have found := stdout.writes_pipe
      rw [same, stdin.reads_pipe] at found
      cases found
    · intro same
      have found := stdout.writes_pipe
      rw [same, stdin.writes_pipe] at found
      exact different (by simpa using found)

theorem Attends.closesInput (attends : Attends world held begun [.readEnd n])
    (owes : world.owed 0 = [.close stdinPipe.readEnd])
    (stdin : HasPipe (world.tables 0) stdinPipe n)
    (stepped : Acts world (0, .call (.close stdinPipe.readEnd)) after) :
    Attends after held [] [] := by
  refine attends.closes (by simp) stdin.reads ?_ stepped (.idle ?_)
  · intro k stdinPipe' stdoutPipe' n' m' attached
    refine ⟨by simp, fun same => ?_⟩
    cases same
    have own := attends.notOwn attached.child (.of_lookup stdin.writes_pipe) attached.writers
    simp at own
  · rw [stepped.owed_call, owes]
    rfl

end Server

section Runs

variable {world after : World UInt8} {held : Multiset Nat} {owed : List Target}
variable {begun rest : List (Action UInt8)} {action : Action UInt8}

theorem Stage.owes (stage : Stage world begun owed) : ∀ target ∈ owed, StillOwes world target := by
  cases stage with
  | idle | input | output => exact List.forall_mem_nil _
  | forked owes stdin stdout different =>
      simp only [List.forall_mem_cons, StillOwes, owes]
      refine ⟨⟨_, stdout.writes_pipe, ?_⟩, ⟨_, stdin.reads_pipe, ?_⟩, List.forall_mem_nil _⟩
      · exact List.mem_cons_self
      · exact List.mem_cons_of_mem _ List.mem_cons_self
  | closing owes stdin =>
      simp only [List.forall_mem_cons, StillOwes, owes]
      exact ⟨⟨_, stdin.reads_pipe, List.mem_singleton_self _⟩, List.forall_mem_nil _⟩

theorem Attends.acts {later : List (Action UInt8)} (attends : Attends world held begun owed)
    (orderly : Orderly rest held) (script : begun ++ rest = action :: later)
    (stepped : Acts world (0, action) after) :
    ∃ held' begun' owed' rest', Attends after held' begun' owed' ∧ Orderly rest' held' ∧
      begun' ++ rest' = later := by
  have stage := attends.stage
  cases stage with
  | idle free =>
      cases script
      cases orderly with
      | create orderly => exact ⟨_, [], [], _, attends.create stepped, orderly, rfl⟩
      | close member orderly => exact ⟨_, [], [], _, attends.close member stepped, orderly, rfl⟩
      | write orderly => exact ⟨_, [], [], _, attends.transfer stepped stepped.write, orderly, rfl⟩
      | read orderly => exact ⟨_, [], [], _, attends.transfer stepped stepped.read, orderly, rfl⟩
      | @start stdinPipe stdoutPipe _ _ orderly =>
          refine ⟨held, _, [], _, attends.pipes attends.free.1 stepped fun free stdin => ?_, orderly,
            rfl⟩
          exact .input free stdin
  | input free stdin =>
      cases script
      refine ⟨held, _, [], rest, attends.pipes free stepped fun free stdout => ?_, orderly, rfl⟩
      obtain ⟨stdin, different⟩ := stdin.pipes attends.sound stepped
      exact .output free stdin stdout different
  | output free stdin stdout different =>
      cases script
      exact ⟨held, _, _, rest, attends.forks stdin stdout different stepped, orderly, rfl⟩
  | forked owes stdin stdout different =>
      cases script
      exact ⟨held, _, _, rest, attends.closesOutput owes stdin stdout different stepped, orderly, rfl⟩
  | closing owes stdin =>
      cases script
      exact ⟨held, [], [], rest, attends.closesInput owes stdin stepped, orderly, rfl⟩

theorem Attends.run {acts : List (Nat × Action UInt8)} (attends : Attends world held begun owed)
    (orderly : Orderly rest held) (follows : actionsOf 0 acts <+: begun ++ rest)
    (ran : Run.run step acts world = .ok after) :
    ∃ held' begun' owed', Attends after held' begun' owed' := by
  induction acts generalizing world held begun owed rest with
  | nil =>
      cases ran
      exact ⟨held, begun, owed, attends⟩
  | cons act acts ih =>
      obtain ⟨middle, stepped, onward⟩ := Run.run_cons_ok.mp ran
      have acted := step_acts stepped
      by_cases server : act.1 = 0
      · obtain ⟨p, action⟩ := act
        cases server
        rw [actionsOf_own] at follows
        obtain ⟨more, split⟩ := follows
        obtain ⟨held', begun', owed', rest', attends, orderly, script⟩ :=
          attends.acts orderly split.symm acted
        exact ih attends orderly ⟨more, script.symm⟩ onward
      · rw [actionsOf_other server] at follows
        exact ih (attends.others acted server) orderly follows onward

theorem serverWorld_attends {fds : List Nat} (standard : 0 ∈ fds ∧ 1 ∈ fds) :
    Attends (serverWorld fds) 0 [] [] := by
  have noPipe {p : Nat} {target : Target} (holds : (serverWorld fds).Holds p target) :
      target = .other := by
    obtain ⟨fd, found⟩ := holds.exists_lookup
    simp only [serverWorld] at found
    split at found
    · rw [AList.lookup_to_alist] at found
      obtain ⟨_, _, same⟩ := List.mem_map.mp (List.of_mem_dlookup found)
      cases same
      rfl
    · cases found
  have isOpen {fd : Nat} (member : fd ∈ fds) :
      ((serverWorld fds).tables 0).lookup fd = some .other := by
    have known : (((serverWorld fds).tables 0).lookup fd).isSome := by
      simp only [serverWorld, if_true]
      rw [AList.lookup_to_alist, List.dlookup_isSome]
      exact List.mem_map.mpr ⟨⟨fd, .other⟩, List.mem_map.mpr ⟨fd, member, rfl⟩, rfl⟩
    obtain ⟨target, found⟩ := Option.isSome_iff_exists.mp known
    rw [found, noPipe (.of_lookup found)]
  refine ⟨⟨fun p target n holds number => ?_, fun p unborn => ?_, fun _ _ => rfl,
    fun _ _ => ⟨rfl, rfl, rfl⟩, fun _ => List.prefix_rfl, fun n ended => by cases ended⟩,
    Nat.one_pos, rfl, ⟨isOpen standard.1, isOpen standard.2⟩, Multiset.nodup_zero,
    fun fd member => absurd member (Multiset.notMem_zero fd), .idle rfl,
    fun k child => by cases child⟩
  · rw [noPipe holds] at number
    cases number
  · exact if_neg (Nat.ne_of_gt unborn)

end Runs

/-- In every run of the server among its children and all that these start, whatever they do and in
whatever order, each child is wired as `start_CGI_script` means it to be: when it gets to `execve`
its standard input and output are its ends of the two pipes; only it and its descendants can ever
write to its output, so its end is seen when the last of them has closed it, and then all that they
have written was taken; only they can read its input. The server never closes its own ends, so the
child never sees the end of its input. -/
theorem children_wired (cfg : Config) (httpSockFd : Nat) (rounds : List Round) (server : Server)
    (served : serverRun cfg rounds (initServer httpSockFd) = .ok server) (fds : List Nat)
    (standard : 0 ∈ fds ∧ 1 ∈ fds) (acts : List (Nat × Action UInt8)) (world : World UInt8)
    (follows : actionsOf 0 acts <+: runActions cfg rounds (initServer httpSockFd))
    (ran : Run.run step acts (serverWorld fds) = .ok world) (k : Nat)
    (child : world.parent k = some 0) :
    ∃ stdinPipe stdoutPipe n m, Wired world k stdinPipe stdoutPipe n m := by
  have lasting : ∀ slot ∈ (initServer httpSockFd).connectionList, Lasting slot := by
    intro slot member
    rw [List.eq_of_mem_replicate member]
    exact createPeer_holding.lasting
  have unused : allClosable (initServer httpSockFd).connectionList = 0 :=
    allClosable_unused maxClients
  have orderly := run_orderly lasting served
  rw [unused] at orderly
  obtain ⟨held, begun, owed, attends⟩ :=
    (serverWorld_attends standard).run orderly (by rwa [List.nil_append]) ran
  obtain ⟨stdinPipe, stdoutPipe, n, m, attached⟩ := attends.children k child
  exact ⟨stdinPipe, stdoutPipe, n, m, attached.wired attends.sound attends.stage.owes⟩

def childRounds : List Round :=
  [readRound 3 (some (5, ⟨str "1.2.3.4", 80⟩)) .wouldBlock,
   readRound 5 none (.bytes 0x47 (str "ET /cgi/x HTTP/1.1\r\n\r\n")),
   { readRound 10 none .wouldBlock with fromCgi := fun _ => some (str "ok") },
   { readRound 10 none .wouldBlock with fromCgi := fun _ => some [] }]

/-- The child gets to `execve` while the server goes on, forks a child of its own, which writes, and
both close what they have of the pipe. -/
def childActs : List (Nat × Action UInt8) :=
  [(0, .call (.create 5)), (0, .call (.pipe 8 9)), (0, .call (.pipe 10 11)),
   (0, .fork (childCalls ⟨8, 9⟩ ⟨10, 11⟩) (parentCalls ⟨8, 9⟩ ⟨10, 11⟩)),
   (1, .call (.close 10)), (0, .call (.close 11)), (1, .call (.dup2 11 1)), (1, .call (.close 9)),
   (0, .call (.close 8)), (1, .call (.dup2 8 0)), (1, .fork [] []), (1, .call (.close 1)),
   (2, .call (.write 1 (str "ok"))), (1, .call (.close 11)), (2, .call (.close 1)),
   (0, .call (.read 10 (str "ok"))), (2, .call (.close 11)), (0, .call (.read 10 []))]

theorem children_wired_one : ∃ world,
    Run.run step childActs (serverWorld [0, 1, 2, 3]) = .ok world ∧
      ∃ stdinPipe stdoutPipe n m, Wired world 1 stdinPipe stdoutPipe n m := by
  have follows : actionsOf 0 childActs <+:
      runActions sampleConfig childRounds (initServer 3) := by
    decide +kernel
  have goesOn : ((serverRun sampleConfig childRounds (initServer 3)).map Server.closes) = .ok 0 := by
    decide +kernel
  have reached : (Run.run step childActs (serverWorld [0, 1, 2, 3])).map
      (fun world => (world.parent 1, world.ended 1)) = .ok (some 0, true) := by
    decide +kernel
  cases served : serverRun sampleConfig childRounds (initServer 3) with
  | error fault =>
      rw [served] at goesOn
      cases goesOn
  | ok server =>
      cases ran : Run.run step childActs (serverWorld [0, 1, 2, 3]) with
      | error refusal =>
          rw [ran] at reached
          cases reached
      | ok world =>
          rw [ran] at reached
          have child : world.parent 1 = some 0 := congrArg Prod.fst (Except.ok.inj reached)
          exact ⟨world, rfl, children_wired sampleConfig 3 childRounds server served [0, 1, 2, 3]
            (by decide) childActs world follows ran 1 child⟩

end Liso
