import Mathlib.Data.List.Basic

/-! Runs of machines: total machines that answer each input, and machines whose
step may fail. Each rule turns a fact about one step into one about every run. -/

namespace Liso.Run

variable {σ τ ι ο ε : Type}

def answers (step : ι → σ → ο × σ) : List ι → σ → List ο × σ
  | [], s => ([], s)
  | i :: rest, s =>
      let (o, s) := step i s
      let (os, s) := answers step rest s
      (o :: os, s)

def Permitted (step : ι → σ → ο × σ) (permit : ι → σ → Prop) : List ι → σ → Prop
  | [], _ => True
  | i :: rest, s => permit i s ∧ Permitted step permit rest (step i s).2

/-- Two machines related by a simulation give the same answers. -/
theorem answers_simulation (stepC : ι → σ → ο × σ) (stepA : ι → τ → ο × τ)
    (related : σ → τ → Prop) (permit : ι → τ → Prop)
    (simulates : ∀ i s t, related s t → permit i t →
      (stepC i s).1 = (stepA i t).1 ∧ related (stepC i s).2 (stepA i t).2)
    (inputs : List ι) (s : σ) (t : τ) (start : related s t)
    (permitted : Permitted stepA permit inputs t) :
    (answers stepC inputs s).1 = (answers stepA inputs t).1 ∧
      related (answers stepC inputs s).2 (answers stepA inputs t).2 := by
  induction inputs generalizing s t with
  | nil => exact ⟨rfl, start⟩
  | cons i rest ih =>
      have now := simulates i s t start permitted.1
      have later := ih (stepC i s).2 (stepA i t).2 now.2 permitted.2
      exact ⟨congrArg₂ List.cons now.1 later.1, later.2⟩

def run (step : σ → ι → Except ε σ) : List ι → σ → Except ε σ
  | [], s => .ok s
  | i :: rest, s =>
      match step s i with
      | .error e => .error e
      | .ok s => run step rest s

@[simp] theorem run_nil (step : σ → ι → Except ε σ) (s : σ) : run step [] s = .ok s := rfl

theorem run_cons_of_ok {step : σ → ι → Except ε σ} {i : ι} {s next : σ}
    (stepped : step s i = .ok next) (rest : List ι) :
    run step (i :: rest) s = run step rest next := by
  rw [run, stepped]

theorem run_cons_ok {step : σ → ι → Except ε σ} {i : ι} {rest : List ι} {s t : σ} :
    run step (i :: rest) s = .ok t ↔ ∃ next, step s i = .ok next ∧ run step rest next = .ok t := by
  cases stepped : step s i with
  | error e => simp [run, stepped]
  | ok next => simp [run, stepped]

theorem run_append_ok {step : σ → ι → Except ε σ} {front back : List ι} {s t : σ} :
    run step (front ++ back) s = .ok t ↔
      ∃ middle, run step front s = .ok middle ∧ run step back middle = .ok t := by
  induction front generalizing s with
  | nil => simp
  | cons i front ih =>
      simp only [List.cons_append, run_cons_ok, ih]
      constructor
      · rintro ⟨next, stepped, middle, first, second⟩
        exact ⟨middle, ⟨next, stepped, first⟩, second⟩
      · rintro ⟨middle, ⟨next, stepped, first⟩, second⟩
        exact ⟨next, stepped, middle, first, second⟩

theorem run_error {step : σ → ι → Except ε σ} {inputs : List ι} {s : σ} {e : ε}
    (ran : run step inputs s = .error e) :
    ∃ front i back t, inputs = front ++ i :: back ∧ run step front s = .ok t ∧
      step t i = .error e := by
  induction inputs generalizing s with
  | nil => cases ran
  | cons i rest ih =>
      cases stepped : step s i with
      | error other =>
          rw [run, stepped] at ran
          cases ran
          exact ⟨[], i, rest, s, rfl, rfl, stepped⟩
      | ok next =>
          rw [run, stepped] at ran
          obtain ⟨front, j, back, t, rfl, reached, failed⟩ := ih ran
          exact ⟨i :: front, j, back, t, rfl, run_cons_ok.mpr ⟨next, stepped, reached⟩, failed⟩

theorem run_append_error {step : σ → ι → Except ε σ} {front back : List ι} {i : ι} {s t : σ} {e : ε}
    (reached : run step front s = .ok t) (failed : step t i = .error e) :
    run step (front ++ i :: back) s = .error e := by
  induction front generalizing s with
  | nil =>
      cases reached
      rw [List.nil_append, run, failed]
  | cons j front ih =>
      obtain ⟨next, stepped, later⟩ := run_cons_ok.mp reached
      rw [List.cons_append, run, stepped]
      exact ih later

/-- Every step of the run meets the guard in the state it starts from. -/
def guarded (step : σ → ι → Except ε σ) (guard : σ → ι → Bool) : List ι → σ → Bool
  | [], _ => true
  | i :: rest, s =>
      guard s i &&
        match step s i with
        | .error _ => true
        | .ok next => guarded step guard rest next

theorem guarded_cons {step : σ → ι → Except ε σ} {guard : σ → ι → Bool} {i : ι} {rest : List ι}
    {s : σ} (meets : guarded step guard (i :: rest) s = true) :
    guard s i = true ∧ ∀ next, step s i = .ok next → guarded step guard rest next = true := by
  rw [guarded, Bool.and_eq_true] at meets
  refine ⟨meets.1, fun next stepped => ?_⟩
  have later := meets.2
  rwa [stepped] at later

theorem guarded_iff {step : σ → ι → Except ε σ} {guard : σ → ι → Bool} {inputs : List ι} {s : σ} :
    guarded step guard inputs s = true ↔
      ∀ front i back t, inputs = front ++ i :: back → run step front s = .ok t →
        guard t i = true := by
  induction inputs generalizing s with
  | nil => simp [guarded]
  | cons i rest ih =>
      rw [guarded, Bool.and_eq_true]
      constructor
      · rintro ⟨now, later⟩ front j back t split reached
        cases front with
        | nil =>
            cases split
            cases reached
            exact now
        | cons k front =>
            cases split
            obtain ⟨next, stepped, reached⟩ := run_cons_ok.mp reached
            rw [stepped] at later
            exact ih.mp later front j back t rfl reached
      · intro all
        refine ⟨all [] i rest s rfl rfl, ?_⟩
        cases stepped : step s i with
        | error e => rfl
        | ok next =>
            refine ih.mpr fun front j back t split reached => ?_
            apply all (i :: front) j back t (by rw [split, List.cons_append])
            exact run_cons_ok.mpr ⟨next, stepped, reached⟩

theorem guarded_front {step : σ → ι → Except ε σ} {guard : σ → ι → Bool} {front back : List ι}
    {s : σ} (meets : guarded step guard (front ++ back) s = true) :
    guarded step guard front s = true := by
  rw [guarded_iff] at meets ⊢
  intro first i rest t split reached
  exact meets first i (rest ++ back) t (by rw [split, List.append_assoc, List.cons_append]) reached

/-- What every permitted step keeps, every run of permitted steps keeps. -/
theorem run_invariant {step : σ → ι → Except ε σ} {invariant : σ → Prop} {permit : ι → Prop}
    (keeps : ∀ s i t, invariant s → permit i → step s i = .ok t → invariant t)
    {inputs : List ι} {s t : σ} (start : invariant s) (permitted : ∀ i ∈ inputs, permit i)
    (ran : run step inputs s = .ok t) : invariant t := by
  induction inputs generalizing s with
  | nil =>
      cases ran
      exact start
  | cons i rest ih =>
      obtain ⟨next, stepped, later⟩ := run_cons_ok.mp ran
      have kept := keeps s i next start (permitted i (by simp)) stepped
      exact ih kept (fun j member => permitted j (List.mem_cons_of_mem i member)) later

/-- The runs fail in the same way, or both come to an end and are `related` there. -/
def Alongside (related : σ → σ → Prop) (first second : Except ε σ) : Prop :=
  (∃ e, first = .error e ∧ second = .error e) ∨
    ∃ s t, first = .ok s ∧ second = .ok t ∧ related s t

theorem Alongside.mono {related weaker : σ → σ → Prop} {first second : Except ε σ}
    (alongside : Alongside related first second) (weaken : ∀ s t, related s t → weaker s t) :
    Alongside weaker first second := by
  rcases alongside with failed | ⟨s, t, ends, endsToo, kept⟩
  · exact .inl failed
  · exact .inr ⟨s, t, ends, endsToo, weaken s t kept⟩

private theorem run_past_asides {step : σ → ι → Except ε σ} {guard : σ → ι → Bool}
    {aside : ι → Bool} {related : σ → σ → Prop} {s : σ}
    (right : ∀ t i, related s t → aside i = true → guard t i = true →
      ∃ next, step t i = .ok next ∧ related s next)
    {inputs : List ι} {t : σ} (start : related s t)
    (meets : guarded step guard inputs t = true) :
    ∃ t' back, related s t' ∧ guarded step guard back t' = true ∧
      run step inputs t = run step back t' ∧
      back.filter (fun i => !aside i) = inputs.filter (fun i => !aside i) ∧
      ∀ i rest, back = i :: rest → aside i = false := by
  induction inputs generalizing t with
  | nil => exact ⟨t, [], start, rfl, rfl, rfl, nofun⟩
  | cons j inputs ih =>
      cases isAside : aside j with
      | false =>
          refine ⟨t, j :: inputs, start, meets, rfl, rfl, ?_⟩
          rintro i rest ⟨⟩
          exact isAside
      | true =>
          obtain ⟨now, later⟩ := guarded_cons meets
          obtain ⟨next, stepped, kept⟩ := right t j start isAside now
          obtain ⟨t', back, kept, meets, same, filtered, first⟩ := ih kept (later next stepped)
          refine ⟨t', back, kept, meets, ?_, ?_, first⟩
          · rw [run_cons_of_ok stepped, same]
          · rw [filtered]
            simp [isAside]

theorem run_alongside {step : σ → ι → Except ε σ} {guard guardToo : σ → ι → Bool}
    {aside : ι → Bool} {related : σ → σ → Prop}
    (both : ∀ s t i, related s t → aside i = false → guard s i = true → guardToo t i = true →
      Alongside related (step s i) (step t i))
    (left : ∀ s t i, related s t → aside i = true → guard s i = true →
      ∃ next, step s i = .ok next ∧ related next t)
    (right : ∀ s t i, related s t → aside i = true → guardToo t i = true →
      ∃ next, step t i = .ok next ∧ related s next)
    {inputs others : List ι} {s t : σ} (start : related s t)
    (same : others.filter (fun i => !aside i) = inputs.filter fun i => !aside i)
    (meets : guarded step guard inputs s = true)
    (meetsToo : guarded step guardToo others t = true) :
    Alongside related (run step inputs s) (run step others t) := by
  induction inputs generalizing s t others with
  | nil =>
      obtain ⟨t', back, kept, _, ran, filtered, first⟩ :=
        run_past_asides (fun t i => right s t i) start meetsToo
      rw [ran]
      cases back with
      | nil => exact .inr ⟨s, t', rfl, rfl, kept⟩
      | cons j back => simp [first j back rfl, same] at filtered
  | cons i inputs ih =>
      obtain ⟨now, later⟩ := guarded_cons meets
      cases isAside : aside i with
      | true =>
          obtain ⟨next, stepped, kept⟩ := left s t i start isAside now
          rw [run_cons_of_ok stepped]
          exact ih kept (by simpa [isAside] using same) (later next stepped) meetsToo
      | false =>
          -- the other run gets to `i` as well, after inputs of its own
          obtain ⟨t', back, kept, meetsToo, ran, filtered, first⟩ :=
            run_past_asides (fun t i => right s t i) start meetsToo
          rw [ran]
          cases back with
          | nil => simp [same, isAside] at filtered
          | cons j back =>
              simp only [same, List.filter_cons, isAside, first j back rfl, Bool.not_false, if_true,
                List.cons.injEq] at filtered
              obtain ⟨rfl, others⟩ := filtered
              obtain ⟨nowToo, laterToo⟩ := guarded_cons meetsToo
              rcases both s t' j kept isAside now nowToo with
                ⟨e, failed, failedToo⟩ | ⟨next, nextToo, stepped, steppedToo, kept⟩
              · refine .inl ⟨e, ?_, ?_⟩
                · rw [run, failed]
                · rw [run, failedToo]
              · rw [run_cons_of_ok stepped, run_cons_of_ok steppedToo]
                exact ih kept others (later next stepped) (laterToo nextToo steppedToo)

end Liso.Run
