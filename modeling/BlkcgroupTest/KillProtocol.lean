import BlkcgroupTest.Commands
import Mathlib.Algebra.Order.BigOperators.Group.List

/-!
# blkcgroup test: the `kill_slower` protocol

With `kill_slower` set, every task of `enum_worker_runners` runs `run_worker` in a
process of its own: it launches its payload, appends the payload's pid to `pids_file`
(`echo pid >> pids_file`, which creates the file when it is absent), waits for the
payload, and then runs `kill_slower_workers`: it renames `pids_file` to
`pids_file.moved` (which fails when `pids_file` is absent, and then the task stops), reads
the moved file and signals every pid in it but its own.  A signalled payload exits.

The tasks are numbered `0, ..., n - 1` and a task's pid is its number.  A state holds
where each task is (`Pc`), whether its payload runs, the two files, and two fields of
bookkeeping: the tasks whose rename succeeded (`wins`), and the appends made after the
first successful rename (`lateAppends`).  `step` is one action of one task; `run` a
schedule of actions, any interleaving the processes can take.

Results:

* `killInv_run`: the invariant `KillInv` holds in every state a schedule reaches.
* `run_ends`: every schedule has at most `6 * n` actions, and it stops only once every
  task is done.
* `run_done_wins`: once every task is done, at least one rename succeeded, and at most
  one more than there were appends after the first success.
* `first_rename_moves_appended`: the first successful rename moves the pid of every
  running task that has appended it; only a task that has not yet appended escapes.
* `killSlower_two_winners`: with two tasks, the second appends after the first renamed,
  recreates `pids_file`, is never signalled, and its own rename succeeds too.

`runLogged` runs a schedule with the command lines its actions pass to `utils.system`
(`echo pid >> pids_file`, `kill pid`).  A schedule is `Complete` when every task ends;
`oneByOne` is one.  `Complete.runLogged`: the commands of a complete schedule from
`KillState.init` are one `echo` of each task's pid and `kill`s of the tasks' pids, and the
moved file exists at the end when there was a task.
-/

namespace BlkcgroupTest

/-- Where `run_worker` of one task is. -/
inductive Pc
  | start
  | launched
  | appended
  | waited
  | renamed
  | done
deriving DecidableEq, Repr

/-- The tasks of one experiment and the two files they share. -/
structure KillState where
  pc : Nat → Pc
  running : Nat → Bool
  pidsFile : Option (List Nat)
  movedFile : Option (List Nat)
  wins : List Nat
  lateAppends : Nat

/-- One action of task `i`. -/
inductive Action
  | launch (i : Nat)
  | append (i : Nat)
  | exit (i : Nat)
  | wait (i : Nat)
  | rename (i : Nat)
  | signal (i : Nat)
deriving DecidableEq, Repr

section Protocol

/-- Before the workers start: `run_single_experiment` removed both files. -/
def KillState.init : KillState :=
  ⟨fun _ => .start, fun _ => false, none, none, [], 0⟩

/-- `s` with task `i` moved to `p`. -/
def KillState.setPc (s : KillState) (i : Nat) (p : Pc) : KillState :=
  { s with pc := Function.update s.pc i p }

/-- One action of one of the `n` tasks, `none` when it cannot happen now. -/
def step (n : Nat) (s : KillState) : Action → Option KillState
  | .launch i =>
      if i < n ∧ s.pc i = .start then
        some { s.setPc i .launched with running := Function.update s.running i true }
      else none
  | .append i =>
      if s.pc i = .launched then
        some { s.setPc i .appended with
          pidsFile := some (s.pidsFile.getD [] ++ [i]),
          lateAppends := if s.wins = [] then s.lateAppends else s.lateAppends + 1 }
      else none
  | .exit i =>
      if s.running i then some { s with running := Function.update s.running i false } else none
  | .wait i =>
      if s.pc i = .appended ∧ s.running i = false then some (s.setPc i .waited) else none
  | .rename i =>
      if s.pc i = .waited then
        match s.pidsFile with
        | some pids =>
            some { s.setPc i .renamed with
              movedFile := some pids, pidsFile := none, wins := s.wins ++ [i] }
        | none => some (s.setPc i .done)
      else none
  | .signal i =>
      if s.pc i = .renamed then
        some { s.setPc i .done with
          running := fun j => s.running j && !(decide (j ∈ s.movedFile.getD [] ∧ j ≠ i)) }
      else none

/-- A schedule of actions, run from `s`. -/
def run (n : Nat) (s : KillState) : List Action → Option KillState
  | [] => some s
  | a :: as => (step n s a).bind fun s' => run n s' as

/-- The task an action belongs to. -/
@[simp] def Action.task : Action → Nat
  | .launch i | .append i | .exit i | .wait i | .rename i | .signal i => i

@[simp] theorem setPc_pc (s : KillState) (i : Nat) (p : Pc) (j : Nat) :
    (s.setPc i p).pc j = if j = i then p else s.pc j := by
  simp [KillState.setPc, Function.update_apply]

@[simp] theorem setPc_running (s : KillState) (i : Nat) (p : Pc) :
    (s.setPc i p).running = s.running := rfl

@[simp] theorem setPc_pidsFile (s : KillState) (i : Nat) (p : Pc) :
    (s.setPc i p).pidsFile = s.pidsFile := rfl

@[simp] theorem setPc_movedFile (s : KillState) (i : Nat) (p : Pc) :
    (s.setPc i p).movedFile = s.movedFile := rfl

@[simp] theorem setPc_wins (s : KillState) (i : Nat) (p : Pc) :
    (s.setPc i p).wins = s.wins := rfl

@[simp] theorem setPc_lateAppends (s : KillState) (i : Nat) (p : Pc) :
    (s.setPc i p).lateAppends = s.lateAppends := rfl

/-- What holds in every state the tasks reach.  A running payload belongs to a task
that launched it and has not yet returned from `p.wait()`; before the first successful
rename no task is past its rename, and every task that appended is in `pids_file`; and
each rename after the first needs an append after the first. -/
structure KillInv (s : KillState) : Prop where
  running : ∀ i, s.running i = true → s.pc i = .launched ∨ s.pc i = .appended
  first : s.wins = [] → ∀ i, s.pc i ≠ .renamed ∧ s.pc i ≠ .done ∧
    (s.pc i = .appended ∨ s.pc i = .waited → i ∈ s.pidsFile.getD [])
  bound :
    s.wins.length + (if s.wins ≠ [] ∧ s.pidsFile.isSome then 1 else 0) ≤ 1 + s.lateAppends

theorem killInv_init : KillInv KillState.init where
  running _ h := by cases h
  first _ _ := ⟨nofun, nofun, fun h => by rcases h with h | h <;> cases h⟩
  bound := by simp [KillState.init]

end Protocol

section Steps

variable {n i : Nat} {s s' : KillState}

theorem step_launch (h : step n s (.launch i) = some s') : i < n ∧ s.pc i = .start ∧
    s' = { s.setPc i .launched with running := Function.update s.running i true } := by
  simp only [step] at h
  split_ifs at h with hg
  cases h
  exact ⟨hg.1, hg.2, rfl⟩

theorem step_append (h : step n s (.append i) = some s') : s.pc i = .launched ∧
    s' = { s.setPc i .appended with
      pidsFile := some (s.pidsFile.getD [] ++ [i]),
      lateAppends := if s.wins = [] then s.lateAppends else s.lateAppends + 1 } := by
  simp only [step] at h
  by_cases hg : s.pc i = .launched
  · simp only [hg, if_true, Option.some.injEq] at h
    exact ⟨hg, h.symm⟩
  · simp [hg] at h

theorem step_exit (h : step n s (.exit i) = some s') : s.running i = true ∧
    s' = { s with running := Function.update s.running i false } := by
  simp only [step] at h
  split_ifs at h with hg
  cases h
  exact ⟨hg, rfl⟩

theorem step_wait (h : step n s (.wait i) = some s') :
    s.pc i = .appended ∧ s.running i = false ∧ s' = s.setPc i .waited := by
  simp only [step] at h
  split_ifs at h with hg
  cases h
  exact ⟨hg.1, hg.2, rfl⟩

theorem step_rename (h : step n s (.rename i) = some s') : s.pc i = .waited ∧
    ((∃ pids, s.pidsFile = some pids ∧ s' = { s.setPc i .renamed with
      movedFile := some pids, pidsFile := none, wins := s.wins ++ [i] }) ∨
    (s.pidsFile = none ∧ s' = s.setPc i .done)) := by
  simp only [step] at h
  split_ifs at h with hg
  refine ⟨hg, ?_⟩
  split at h <;> cases h
  · exact .inl ⟨_, ‹_›, rfl⟩
  · exact .inr ⟨‹_›, rfl⟩

theorem step_signal (h : step n s (.signal i) = some s') : s.pc i = .renamed ∧
    s' = { s.setPc i .done with
      running := fun j => s.running j && !(decide (j ∈ s.movedFile.getD [] ∧ j ≠ i)) } := by
  simp only [step] at h
  split_ifs at h with hg
  cases h
  exact ⟨hg, rfl⟩

/-- An action moves only its own task; it can stop other payloads, never start one. -/
theorem step_frame {a : Action} (h : step n s a = some s') {j : Nat} (hj : j ≠ a.task) :
    s'.pc j = s.pc j ∧ (s'.running j = true → s.running j = true) := by
  cases a with
  | launch i =>
      obtain ⟨-, -, rfl⟩ := step_launch h
      simp [Function.update_noteq hj, show j ≠ i from hj]
  | exit i =>
      obtain ⟨-, rfl⟩ := step_exit h
      simp [Function.update_noteq (show j ≠ i from hj)]
  | append i =>
      obtain ⟨-, rfl⟩ := step_append h
      simp [show j ≠ i from hj]
  | wait i =>
      obtain ⟨-, -, rfl⟩ := step_wait h
      simp [show j ≠ i from hj]
  | rename i =>
      obtain ⟨-, ⟨_, -, rfl⟩ | ⟨-, rfl⟩⟩ := step_rename h <;> simp [show j ≠ i from hj]
  | signal i =>
      obtain ⟨-, rfl⟩ := step_signal h
      exact ⟨by simp [show j ≠ i from hj], fun h' => ((Bool.and_eq_true _ _).mp h').1⟩

end Steps

section Invariant

/-- A task whose payload runs has not yet returned from `p.wait()`. -/
theorem KillInv.not_running {s : KillState} (hI : KillInv s) {i : Nat} {p : Pc}
    (hp : s.pc i = p) (hl : p ≠ .launched) (ha : p ≠ .appended) : s.running i = false := by
  cases h : s.running i
  · rfl
  · rcases hI.running i h with h' | h' <;> simp_all

/-- Every action keeps the invariant. -/
theorem killInv_step {n : Nat} {s s' : KillState} {a : Action} (hI : KillInv s)
    (h : step n s a = some s') : KillInv s' := by
  cases a with
  | launch i =>
      obtain ⟨-, hg, rfl⟩ := step_launch h
      refine ⟨fun j hj => ?_, fun hw j => ?_, hI.bound⟩
      · by_cases hji : j = i
        · simp [hji]
        · simpa [hji] using hI.running j (by simpa [hji, Function.update_apply] using hj)
      · by_cases hji : j = i
        · simp [hji]
        · simpa [hji] using hI.first hw j
  | append i =>
      obtain ⟨hg, rfl⟩ := step_append h
      refine ⟨fun j hj => ?_, fun hw j => ?_, ?_⟩
      · by_cases hji : j = i
        · simp [hji]
        · simpa [hji] using hI.running j hj
      · by_cases hji : j = i
        · simp [hji]
        · simpa [hji] using hI.first hw j
      · have hb : s.wins.length ≤ 1 + s.lateAppends := le_trans (Nat.le_add_right _ _) hI.bound
        by_cases hw : s.wins = []
        · simp [hw]
        · simp [hw]
          omega
  | exit i =>
      obtain ⟨-, rfl⟩ := step_exit h
      refine ⟨fun j hj => hI.running j ?_, hI.first, hI.bound⟩
      by_cases hji : j = i
      · subst hji
        simp at hj
      · simpa [hji, Function.update_apply] using hj
  | wait i =>
      obtain ⟨hg, hr, rfl⟩ := step_wait h
      refine ⟨fun j hj => ?_, fun hw j => ?_, hI.bound⟩
      · by_cases hji : j = i
        · simp_all
        · simpa [hji] using hI.running j hj
      · by_cases hji : j = i
        · simpa [hji, hg] using hI.first hw i
        · simpa [hji] using hI.first hw j
  | rename i =>
      obtain ⟨hg, ⟨pids, hp, rfl⟩ | ⟨hp, rfl⟩⟩ := step_rename h
      · refine ⟨fun j hj => ?_, fun hw => by simp at hw, ?_⟩
        · by_cases hji : j = i
          · simp_all [hI.not_running hg]
          · simpa [hji] using hI.running j hj
        · have hb := hI.bound
          by_cases hw : s.wins = []
          · simp [hw]
          · simp [hw, hp] at hb ⊢
            omega
      · have hw : s.wins ≠ [] := fun hw => by simpa [hg, hp] using (hI.first hw i).2.2
        refine ⟨fun j hj => ?_, fun hw' => absurd hw' hw, by simpa using hI.bound⟩
        by_cases hji : j = i
        · simp_all [hI.not_running hg]
        · simpa [hji] using hI.running j hj
  | signal i =>
      obtain ⟨hg, rfl⟩ := step_signal h
      have hw : s.wins ≠ [] := fun hw => (hI.first hw i).1 hg
      refine ⟨fun j hj => ?_, fun hw' => absurd hw' hw, by simpa using hI.bound⟩
      have hj' : s.running j = true := by simp at hj; exact hj.1
      by_cases hji : j = i
      · simp_all [hI.not_running hg]
      · simpa [hji] using hI.running j hj'

/-- The invariant holds in every state a schedule reaches. -/
theorem killInv_run {n : Nat} {s s' : KillState} {acts : List Action} (hI : KillInv s)
    (h : run n s acts = some s') : KillInv s' := by
  induction acts generalizing s with
  | nil =>
      cases h
      exact hI
  | cons a acts ih =>
      obtain ⟨s1, h1, h2⟩ := Option.bind_eq_some.1 h
      exact ih (killInv_step hI h1) h2

end Invariant

section Fuel

/-- The moves of `Pc` still ahead of a task.  Each action uses up one of the actions its
task has left, these moves and the `exit` of its payload, so no schedule of `n` tasks is
longer than `6 * n`, and one can stop only when every task is done. -/
def Pc.movesLeft : Pc → Nat
  | .start => 5
  | .launched => 4
  | .appended => 3
  | .waited => 2
  | .renamed => 1
  | .done => 0

/-- The actions task `i` has left: its moves of `Pc`, and the `exit` of its payload while
that runs or is not yet launched. -/
def KillState.actionsLeft (s : KillState) (i : Nat) : Nat :=
  (s.pc i).movesLeft + if s.running i = true ∨ s.pc i = .start then 1 else 0

/-- The actions the `n` tasks have left. -/
def KillState.fuel (s : KillState) (n : Nat) : Nat :=
  ((List.range n).map s.actionsLeft).sum

/-- The numbers from `n` on are no task: they stay at `start` with no payload. -/
def Idle (n : Nat) (s : KillState) : Prop :=
  ∀ i, n ≤ i → s.pc i = .start ∧ s.running i = false

theorem idle_init (n : Nat) : Idle n KillState.init :=
  fun _ _ => ⟨rfl, rfl⟩

theorem fuel_init (n : Nat) : KillState.init.fuel n = 6 * n := by
  have h6 : KillState.init.actionsLeft = fun _ => 6 := funext fun _ => rfl
  simp [KillState.fuel, h6, Nat.mul_comm]

variable {n : Nat} {s s' : KillState} {a : Action}

/-- Only the `n` tasks act. -/
theorem step_task_lt (hd : Idle n s) (h : step n s a = some s') : a.task < n := by
  by_contra hn
  obtain ⟨hp, hr⟩ := hd a.task (Nat.le_of_not_lt hn)
  cases a with
  | launch i => exact hn (step_launch h).1
  | exit i => exact absurd ((step_exit h).1.symm.trans hr) (by decide)
  | append i => exact absurd ((step_append h).1.symm.trans hp) (by decide)
  | wait i => exact absurd ((step_wait h).1.symm.trans hp) (by decide)
  | rename i => exact absurd ((step_rename h).1.symm.trans hp) (by decide)
  | signal i => exact absurd ((step_signal h).1.symm.trans hp) (by decide)

/-- An action uses up one of the actions its task has left. -/
theorem step_actionsLeft (hI : KillInv s) (h : step n s a = some s') :
    s'.actionsLeft a.task < s.actionsLeft a.task := by
  cases a with
  | launch i =>
      obtain ⟨-, hg, rfl⟩ := step_launch h
      simp [KillState.actionsLeft, hg, Pc.movesLeft]
  | exit i =>
      obtain ⟨hg, rfl⟩ := step_exit h
      rcases hI.running i hg with hp | hp <;> simp [KillState.actionsLeft, hp, hg, Pc.movesLeft]
  | append i =>
      obtain ⟨hg, rfl⟩ := step_append h
      simp [KillState.actionsLeft, hg, Pc.movesLeft]
  | wait i =>
      obtain ⟨hg, -, rfl⟩ := step_wait h
      simp [KillState.actionsLeft, hg, Pc.movesLeft]
  | rename i =>
      obtain ⟨hg, ⟨_, -, rfl⟩ | ⟨-, rfl⟩⟩ := step_rename h <;>
        simp [KillState.actionsLeft, hg, Pc.movesLeft]
  | signal i =>
      obtain ⟨hg, rfl⟩ := step_signal h
      simp [KillState.actionsLeft, hg, Pc.movesLeft]

theorem actionsLeft_le_of_frame {j : Nat} (hp : s'.pc j = s.pc j)
    (hr : s'.running j = true → s.running j = true) : s'.actionsLeft j ≤ s.actionsLeft j := by
  unfold KillState.actionsLeft
  rw [hp]
  split_ifs with h1 h2
  · exact le_rfl
  · exact absurd (h1.imp_left hr) h2
  · omega
  · exact le_rfl

/-- Every action lowers the actions the tasks have left. -/
theorem fuel_step (hI : KillInv s) (hd : Idle n s) (h : step n s a = some s') :
    s'.fuel n < s.fuel n := by
  refine List.sum_lt_sum _ _ (fun j _ => ?_)
    ⟨a.task, List.mem_range.2 (step_task_lt hd h), step_actionsLeft hI h⟩
  by_cases hj : j = a.task
  · exact hj ▸ (step_actionsLeft hI h).le
  · exact actionsLeft_le_of_frame (step_frame h hj).1 (step_frame h hj).2

theorem idle_step (hd : Idle n s) (h : step n s a = some s') : Idle n s' := by
  intro j hj
  have hne : j ≠ a.task := by
    have := step_task_lt hd h
    omega
  obtain ⟨hp, hr⟩ := step_frame h hne
  refine ⟨hp.trans (hd j hj).1, Bool.eq_false_iff.2 fun h' => ?_⟩
  simpa [(hd j hj).2] using hr h'

/-- A schedule takes at most as many actions as the tasks have left. -/
theorem run_fuel {acts : List Action} (hI : KillInv s) (hd : Idle n s)
    (h : run n s acts = some s') : acts.length + s'.fuel n ≤ s.fuel n ∧ Idle n s' := by
  induction acts generalizing s with
  | nil =>
      cases h
      exact ⟨by simp, hd⟩
  | cons a acts ih =>
      obtain ⟨s1, h1, h2⟩ := Option.bind_eq_some.1 h
      obtain ⟨hle, hd'⟩ := ih (killInv_step hI h1) (idle_step hd h1) h2
      have := fuel_step hI hd h1
      exact ⟨by simp only [List.length_cons]; omega, hd'⟩

/-- In a reachable state no action can happen exactly when every task is done. -/
theorem step_none_iff (hI : KillInv s) (hd : Idle n s) :
    (∀ a, step n s a = none) ↔ ∀ i < n, s.pc i = .done := by
  constructor
  · intro hs i hi
    cases hp : s.pc i with
    | start => simpa [step, hi, hp] using hs (.launch i)
    | launched => simpa [step, hp] using hs (.append i)
    | appended =>
        cases hr : s.running i
        · simpa [step, hp, hr] using hs (.wait i)
        · simpa [step, hr] using hs (.exit i)
    | waited =>
        have hw := hs (.rename i)
        simp only [step, hp, if_true] at hw
        split at hw <;> cases hw
    | renamed => simpa [step, hp] using hs (.signal i)
    | done => rfl
  · intro hdone a
    have hpc : ∀ i, s.pc i = .done ∨ s.pc i = .start ∧ ¬ i < n := fun i =>
      if hi : i < n then .inl (hdone i hi) else .inr ⟨(hd i (Nat.le_of_not_lt hi)).1, hi⟩
    have hrun : ∀ i, s.running i = false := fun i =>
      if hi : i < n then hI.not_running (hdone i hi) (by decide) (by decide)
      else (hd i (Nat.le_of_not_lt hi)).2
    cases a with
    | launch i =>
        rcases hpc i with hp | ⟨-, hi⟩
        · simp [step, hp]
        · simp [step, hi]
    | exit i => simp [step, hrun]
    | append i | wait i | rename i | signal i => rcases hpc i with hp | ⟨hp, -⟩ <;> simp [step, hp]

end Fuel

section Runs

/-- Every schedule of the `n` tasks ends: it has at most `6 * n` actions, and it stops
only once every task is done. -/
theorem run_ends {n : Nat} {acts : List Action} {s : KillState}
    (h : run n KillState.init acts = some s) :
    acts.length ≤ 6 * n ∧ ((∀ a, step n s a = none) ↔ ∀ i < n, s.pc i = .done) := by
  obtain ⟨hle, hd⟩ := run_fuel killInv_init (idle_init n) h
  rw [fuel_init] at hle
  exact ⟨by omega, step_none_iff (killInv_run killInv_init h) hd⟩

theorem run_ends_one_task :
    ∃ s, run 1 KillState.init [.launch 0, .append 0, .exit 0, .wait 0, .rename 0, .signal 0] =
        some s ∧
      [Action.launch 0, .append 0, .exit 0, .wait 0, .rename 0, .signal 0].length ≤ 6 * 1 ∧
      ((∀ a, step 1 s a = none) ↔ ∀ i < 1, s.pc i = .done) :=
  ⟨_, rfl, @run_ends 1 [.launch 0, .append 0, .exit 0, .wait 0, .rename 0, .signal 0] _ rfl⟩

/-- Once every task of a schedule is done, at least one rename succeeded, and each one
after the first was made possible by an append after the first. -/
theorem run_done_wins {n : Nat} (hn : 0 < n) {acts : List Action} {s : KillState}
    (h : run n KillState.init acts = some s) (hdone : ∀ i < n, s.pc i = .done) :
    s.wins ≠ [] ∧ s.wins.length ≤ 1 + s.lateAppends := by
  have hI := killInv_run killInv_init h
  exact ⟨fun hw => (hI.first hw 0).2.1 (hdone 0 hn), le_trans (Nat.le_add_right _ _) hI.bound⟩

theorem run_done_wins_one_task :
    ∃ s, run 1 KillState.init [.launch 0, .append 0, .exit 0, .wait 0, .rename 0, .signal 0] =
        some s ∧ (∀ i < 1, s.pc i = .done) ∧ s.wins ≠ [] ∧ s.wins.length ≤ 1 + s.lateAppends :=
  ⟨_, rfl, by decide, @run_done_wins 1 (by decide)
    [.launch 0, .append 0, .exit 0, .wait 0, .rename 0, .signal 0] _ rfl (by decide)⟩

/-- The first successful rename moves the pid of every task whose payload runs and that
has appended it: a running task it leaves out is one that has not yet appended. -/
theorem first_rename_moves_appended {n i : Nat} {acts : List Action} {s s' : KillState}
    (h : run n KillState.init acts = some s) (hw : s.wins = [])
    (hs : step n s (.rename i) = some s') (hwin : s'.wins ≠ []) :
    ∀ j, s.running j = true → j ∈ s'.movedFile.getD [] ∨ s.pc j = .launched := by
  have hI := killInv_run killInv_init h
  obtain ⟨-, ⟨pids, hp, rfl⟩ | ⟨-, rfl⟩⟩ := step_rename hs
  · intro j hj
    rcases hI.running j hj with hl | ha
    · exact .inr hl
    · have := (hI.first hw j).2.2 (.inl ha)
      rw [hp] at this
      exact .inl this
  · exact absurd hw (by simpa using hwin)

theorem first_rename_moves_appended_two_tasks :
    ∃ s s', run 2 KillState.init [.launch 0, .append 0, .launch 1, .exit 0, .wait 0] = some s ∧
      s.wins = [] ∧ step 2 s (.rename 0) = some s' ∧ s'.wins ≠ [] ∧
      ∀ j, s.running j = true → j ∈ s'.movedFile.getD [] ∨ s.pc j = .launched :=
  ⟨_, _, rfl, rfl, rfl, by decide, @first_rename_moves_appended 2 0
    [.launch 0, .append 0, .launch 1, .exit 0, .wait 0] _ _ rfl rfl rfl (by decide)⟩

/-- Two tasks, as `500 rdseq, 500 rdseq` with `kill_slower` and no timeout gives: task 1
launches but appends only after task 0 renamed `pids_file`, so the moved file misses it
although its payload runs; its append creates `pids_file` again and its own rename
succeeds too. -/
theorem killSlower_two_winners :
    ∃ s s', run 2 KillState.init
        [.launch 0, .append 0, .launch 1, .exit 0, .wait 0, .rename 0] = some s ∧
      s.wins = [0] ∧ s.running 1 = true ∧ s.movedFile = some [0] ∧
      run 2 s [.signal 0, .append 1, .exit 1, .wait 1, .rename 1, .signal 1] = some s' ∧
      s'.wins = [0, 1] :=
  ⟨_, _, rfl, rfl, rfl, rfl, rfl, rfl⟩

end Runs

section Logged

/-- The command lines one action passes to `utils.system`: `run_worker` appends the pid of
its payload to `pids_file` with `echo`, and `kill_slower_workers` kills every pid of the
moved file but its own.  The other actions run no command. -/
def actionCmds (pidsFile : List Char) (s : KillState) : Action → List (List Char)
  | .append i => [echoPidCmd i pidsFile]
  | .signal i => ((s.movedFile.getD []).filter (· != i)).map killCmd
  | _ => []

/-- A schedule run from `s`, with the command lines its actions pass to `utils.system`;
`none` when an action cannot happen. -/
def runLogged (n : Nat) (pidsFile : List Char) (s : KillState) :
    List Action → Option (KillState × List (List Char))
  | [] => some (s, [])
  | a :: as => (step n s a).bind fun s' =>
      (runLogged n pidsFile s' as).map fun r => (r.1, actionCmds pidsFile s a ++ r.2)

/-- Whether a task has appended the pid of its payload: it is past `launched`. -/
def Pc.hasAppended : Pc → Bool
  | .start | .launched => false
  | _ => true

/-- What the commands logged along a schedule say of the state reached: a task has echoed
its pid once when it is past its append and never before, every command is the `echo` or
the `kill` of such a task, every pid in a file is that of such a task, and the moved file
exists once a rename has succeeded. -/
structure LogInv (pidsFile : List Char) (s : KillState) (log : List (List Char)) : Prop where
  echoes : ∀ i, log.count (echoPidCmd i pidsFile) = if (s.pc i).hasAppended then 1 else 0
  cmds : ∀ c ∈ log, ∃ i, (s.pc i).hasAppended = true ∧ (c = echoPidCmd i pidsFile ∨ c = killCmd i)
  files : ∀ j ∈ s.pidsFile.getD [] ++ s.movedFile.getD [], (s.pc j).hasAppended = true
  moved : s.wins ≠ [] → s.movedFile.isSome = true

theorem logInv_init (pidsFile : List Char) : LogInv pidsFile KillState.init [] where
  echoes _ := rfl
  cmds _ h := nomatch h
  files _ h := by simp [KillState.init] at h
  moved h := absurd rfl h

variable {n : Nat} {pidsFile : List Char} {s s' : KillState} {a : Action}

/-- The logged run is the run. -/
theorem runLogged_run (acts : List Action) :
    (runLogged n pidsFile s acts).map Prod.fst = run n s acts := by
  induction acts generalizing s with
  | nil => rfl
  | cons a acts ih =>
      simp only [runLogged, run]
      cases step n s a with
      | none => rfl
      | some s' => simpa [Option.map_map] using ih

/-- A property of the state and the commands logged so far that every action keeps holds
at the end of a logged run. -/
theorem runLogged_invariant {P : KillState → List (List Char) → Prop}
    (hstep : ∀ {s s' a log}, P s log → step n s a = some s' →
      P s' (log ++ actionCmds pidsFile s a))
    {acts : List Action} {log cmds : List (List Char)} (hP : P s log)
    (h : runLogged n pidsFile s acts = some (s', cmds)) : P s' (log ++ cmds) := by
  induction acts generalizing s log cmds with
  | nil =>
      cases h
      simpa using hP
  | cons a acts ih =>
      obtain ⟨s1, h1, h2⟩ := Option.bind_eq_some.1 h
      obtain ⟨⟨_, rest⟩, h3, h4⟩ := Option.map_eq_some'.1 h2
      cases h4
      simpa using ih (hstep hP h1) h3

/-- Every command of one action is the `echo` of a pid into `pids_file` or a `kill`. -/
theorem actionCmds_shape (pidsFile : List Char) (s : KillState) (a : Action) :
    ∀ c ∈ actionCmds pidsFile s a, ∃ i, c = echoPidCmd i pidsFile ∨ c = killCmd i := by
  intro c hc
  cases a with
  | append i => exact ⟨i, .inl (List.mem_singleton.1 hc)⟩
  | signal i =>
      obtain ⟨j, -, rfl⟩ := List.mem_map.1 hc
      exact ⟨j, .inr rfl⟩
  | _ => cases hc

/-- Every command a logged run passes to `utils.system` is the `echo` of a pid into
`pids_file` or a `kill`. -/
theorem runLogged_shape {acts : List Action} {cmds : List (List Char)}
    (h : runLogged n pidsFile s acts = some (s', cmds)) :
    ∀ c ∈ cmds, ∃ i, c = echoPidCmd i pidsFile ∨ c = killCmd i := by
  simpa using runLogged_invariant
    (P := fun _ log => ∀ c ∈ log, ∃ i, c = echoPidCmd i pidsFile ∨ c = killCmd i)
    (fun hP _ c hc => (List.mem_append.1 hc).elim (hP c) (actionCmds_shape _ _ _ c))
    (List.forall_mem_nil fun c => ∃ i, c = echoPidCmd i pidsFile ∨ c = killCmd i) h

/-- An action makes only its own task pass its append, and only by appending. -/
theorem hasAppended_step (h : step n s a = some s') (j : Nat) :
    (s'.pc j).hasAppended = ((s.pc j).hasAppended || decide (a = .append j)) := by
  by_cases hj : j = a.task
  · subst hj
    cases a with
    | launch i =>
        obtain ⟨-, hg, rfl⟩ := step_launch h
        simp [hg, Pc.hasAppended]
    | append i =>
        obtain ⟨-, rfl⟩ := step_append h
        simp [Pc.hasAppended]
    | exit i =>
        obtain ⟨-, rfl⟩ := step_exit h
        simp
    | wait i =>
        obtain ⟨hg, -, rfl⟩ := step_wait h
        simp [hg, Pc.hasAppended]
    | rename i =>
        obtain ⟨hg, ⟨_, -, rfl⟩ | ⟨-, rfl⟩⟩ := step_rename h <;> simp [hg, Pc.hasAppended]
    | signal i =>
        obtain ⟨hg, rfl⟩ := step_signal h
        simp [hg, Pc.hasAppended]
  · have ha : a ≠ .append j := by
      rintro rfl
      exact hj rfl
    simp [(step_frame h hj).1, ha]

theorem hasAppended_mono (h : step n s a = some s') {j : Nat}
    (hj : (s.pc j).hasAppended = true) : (s'.pc j).hasAppended = true := by
  simp [hasAppended_step h, hj]

theorem count_echo_actionCmds (i : Nat) :
    (actionCmds pidsFile s a).count (echoPidCmd i pidsFile) = if a = .append i then 1 else 0 := by
  cases a with
  | append j =>
      by_cases hji : j = i
      · simp [actionCmds, hji]
      · simp only [actionCmds, Action.append.injEq, hji, if_false]
        exact List.count_eq_zero.2 fun h => hji (echoPidCmd_inj (List.mem_singleton.1 h)).symm
  | signal j =>
      simp only [actionCmds, Action.noConfusion, if_false]
      exact List.count_eq_zero.2 fun h => by
        obtain ⟨_, -, he⟩ := List.mem_map.1 h
        exact echoPidCmd_ne_killCmd _ _ _ he.symm
  | _ => simp [actionCmds]

/-- The pids in the files after an action were there before, or are the one it appended. -/
theorem files_step (h : step n s a = some s') {j : Nat}
    (hj : j ∈ s'.pidsFile.getD [] ++ s'.movedFile.getD []) :
    j ∈ s.pidsFile.getD [] ++ s.movedFile.getD [] ∨ a = .append j := by
  cases a with
  | launch i =>
      obtain ⟨-, -, rfl⟩ := step_launch h
      exact .inl hj
  | append i =>
      obtain ⟨-, rfl⟩ := step_append h
      simp only [Option.getD_some, List.mem_append, List.mem_singleton, setPc_movedFile] at hj
      rcases hj with (hj | rfl) | hj
      · exact .inl (List.mem_append_left _ hj)
      · exact .inr rfl
      · exact .inl (List.mem_append_right _ hj)
  | exit i =>
      obtain ⟨-, rfl⟩ := step_exit h
      exact .inl hj
  | wait i =>
      obtain ⟨-, -, rfl⟩ := step_wait h
      exact .inl hj
  | rename i =>
      obtain ⟨-, ⟨pids, hp, rfl⟩ | ⟨-, rfl⟩⟩ := step_rename h
      · simp only [Option.getD_none, Option.getD_some, List.nil_append] at hj
        exact .inl (List.mem_append_left _ (by simpa [hp] using hj))
      · exact .inl hj
  | signal i =>
      obtain ⟨-, rfl⟩ := step_signal h
      exact .inl hj

/-- Only a successful rename changes the renames or the moved file, and it leaves one. -/
theorem moved_step (h : step n s a = some s') :
    (s'.wins = s.wins ∧ s'.movedFile = s.movedFile) ∨ s'.movedFile.isSome = true := by
  cases a with
  | launch i => obtain ⟨-, -, rfl⟩ := step_launch h; exact .inl ⟨rfl, rfl⟩
  | append i => obtain ⟨-, rfl⟩ := step_append h; exact .inl ⟨rfl, rfl⟩
  | exit i => obtain ⟨-, rfl⟩ := step_exit h; exact .inl ⟨rfl, rfl⟩
  | wait i => obtain ⟨-, -, rfl⟩ := step_wait h; exact .inl ⟨rfl, rfl⟩
  | rename i =>
      obtain ⟨-, ⟨_, -, rfl⟩ | ⟨-, rfl⟩⟩ := step_rename h
      · exact .inr rfl
      · exact .inl ⟨rfl, rfl⟩
  | signal i => obtain ⟨-, rfl⟩ := step_signal h; exact .inl ⟨rfl, rfl⟩

/-- Every action keeps what the log says. -/
theorem logInv_step {log : List (List Char)} (hL : LogInv pidsFile s log)
    (h : step n s a = some s') : LogInv pidsFile s' (log ++ actionCmds pidsFile s a) where
  echoes i := by
    rw [List.count_append, hL.echoes i, count_echo_actionCmds, hasAppended_step h i]
    by_cases ha : a = .append i
    · subst ha
      simp [(step_append h).1, Pc.hasAppended]
    · simp [ha]
  cmds c hc := by
    rcases List.mem_append.1 hc with hc | hc
    · obtain ⟨i, hi, hci⟩ := hL.cmds c hc
      exact ⟨i, hasAppended_mono h hi, hci⟩
    · cases a with
      | append i =>
          obtain rfl := List.mem_singleton.1 hc
          exact ⟨i, by simp [hasAppended_step h], .inl rfl⟩
      | signal i =>
          obtain ⟨j, hj, rfl⟩ := List.mem_map.1 hc
          exact ⟨j, hasAppended_mono h (hL.files j
            (List.mem_append_right _ (List.mem_filter.1 hj).1)), .inr rfl⟩
      | _ => cases hc
  files j hj := by
    rcases files_step h hj with hj | rfl
    · exact hasAppended_mono h (hL.files j hj)
    · simp [hasAppended_step h]
  moved hw := by
    rcases moved_step h with ⟨hw', hm⟩ | hm
    · rw [hm]
      exact hL.moved (hw' ▸ hw)
    · exact hm

/-- At the end of a logged run of the `n` tasks from `KillState.init` in which every task
ran to its end, each task has echoed its pid exactly once, every command is the `echo` or
the `kill` of one of the `n` tasks, and the moved file exists when there was a task. -/
theorem runLogged_done {acts : List Action} {cmds : List (List Char)}
    (h : runLogged n pidsFile KillState.init acts = some (s, cmds))
    (hdone : ∀ i < n, s.pc i = .done) :
    (∀ i, cmds.count (echoPidCmd i pidsFile) = if i < n then 1 else 0) ∧
      (∀ c ∈ cmds, ∃ i < n, c = echoPidCmd i pidsFile ∨ c = killCmd i) ∧
      (0 < n → s.movedFile.isSome = true) := by
  have hrun : run n KillState.init acts = some s := by
    rw [← runLogged_run, h]
    rfl
  have hI := killInv_run killInv_init hrun
  have hd := (run_fuel killInv_init (idle_init n) hrun).2
  have hL : LogInv pidsFile s cmds := by
    simpa using runLogged_invariant (fun hL h => logInv_step hL h) (logInv_init pidsFile) h
  have hlt : ∀ i, (s.pc i).hasAppended = true → i < n := fun i hi => by
    by_contra hn
    rw [(hd i (Nat.le_of_not_lt hn)).1] at hi
    cases hi
  refine ⟨fun i => ?_, fun c hc => ?_, fun hn => hL.moved fun hw => ?_⟩
  · rw [hL.echoes i]
    by_cases hi : i < n
    · simp [hdone i hi, hi, Pc.hasAppended]
    · simp [(hd i (Nat.le_of_not_lt hi)).1, hi, Pc.hasAppended]
  · obtain ⟨i, hi, hci⟩ := hL.cmds c hc
    exact ⟨i, hlt i hi, hci⟩
  · exact (hI.first hw 0).2.1 (hdone 0 hn)

end Logged

section Schedules

/-- Every task of the schedule `acts` can take its actions when the schedule says, and has
run to its end when the schedule is over. -/
def Complete (n : Nat) (acts : List Action) : Prop :=
  ∃ s, run n KillState.init acts = some s ∧ ∀ i < n, s.pc i = .done

/-- The commands of a complete schedule from `KillState.init`: each task echoes its pid
once, every command is the `echo` or the `kill` of one of the tasks, and the moved file
exists at the end when there was a task. -/
theorem Complete.runLogged {n : Nat} {acts : List Action} (hc : Complete n acts)
    (pidsFile : List Char) :
    ∃ s cmds, runLogged n pidsFile KillState.init acts = some (s, cmds) ∧
      (∀ i, cmds.count (echoPidCmd i pidsFile) = if i < n then 1 else 0) ∧
      (∀ c ∈ cmds, ∃ i < n, c = echoPidCmd i pidsFile ∨ c = killCmd i) ∧
      (0 < n → s.movedFile.isSome = true) := by
  obtain ⟨s, hrun, hdone⟩ := hc
  obtain ⟨⟨s', cmds⟩, hl, rfl⟩ :=
    Option.map_eq_some'.1 ((@runLogged_run n pidsFile KillState.init acts).trans hrun)
  exact ⟨s', cmds, hl, runLogged_done hl hdone⟩

/-- The tasks one after the other, each running to its end before the next launches. -/
def oneByOne (n : Nat) : List Action :=
  (List.range n).flatMap fun i => [.launch i, .append i, .exit i, .wait i, .rename i, .signal i]

theorem run_append (n : Nat) (s : KillState) (l₁ l₂ : List Action) :
    run n s (l₁ ++ l₂) = (run n s l₁).bind fun s' => run n s' l₂ := by
  induction l₁ generalizing s with
  | nil => rfl
  | cons a l₁ ih =>
      simp only [List.cons_append, run]
      cases step n s a with
      | none => rfl
      | some s' => exact ih s'

/-- The tasks below `k` are done, the others have not launched, and no payload runs or
pid file exists. -/
def Before (k : Nat) (s : KillState) : Prop :=
  (∀ i, s.pc i = if i < k then .done else .start) ∧ (∀ i, s.running i = false) ∧
    s.pidsFile = none

/-- Task `k` runs to its end alone. -/
theorem run_one_task {n k : Nat} (hk : k < n) {s : KillState} (hs : Before k s) :
    ∃ s', run n s [.launch k, .append k, .exit k, .wait k, .rename k, .signal k] = some s' ∧
      Before (k + 1) s' := by
  obtain ⟨hpc, hr, hp⟩ := hs
  have hpk : s.pc k = .start := by simp [hpc]
  refine ⟨_, by simp [run, step, hk, hpk, hp, KillState.setPc]; rfl, ?_, fun j => ?_, rfl⟩
  · intro i
    by_cases hik : i = k
    · subst hik
      simp
    · simp [hik, hpc i, Nat.lt_succ_iff_lt_or_eq]
  · by_cases hjk : j = k
    · subst hjk
      simp
    · simp [hjk, hr]

theorem oneByOne_complete (n : Nat) : Complete n (oneByOne n) := by
  have key : ∀ k ≤ n, ∃ s, run n KillState.init ((List.range k).flatMap fun i =>
      [.launch i, .append i, .exit i, .wait i, .rename i, .signal i]) = some s ∧ Before k s := by
    intro k
    induction k with
    | zero => exact fun _ => ⟨_, rfl, fun _ => rfl, fun _ => rfl, rfl⟩
    | succ k ih =>
        intro hk
        obtain ⟨s, hs, hb⟩ := ih (Nat.le_of_succ_le hk)
        obtain ⟨s', hs', hb'⟩ := run_one_task hk hb
        refine ⟨s', ?_, hb'⟩
        rw [List.range_succ, List.flatMap_append, run_append, hs]
        simpa using hs'
  obtain ⟨s, hs, hb⟩ := key n le_rfl
  exact ⟨s, hs, fun i hi => by simp [hb.1 i, hi]⟩

end Schedules

end BlkcgroupTest
