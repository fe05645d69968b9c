import BlkcgroupTest.InputFiles
import BlkcgroupTest.Session

/-!
# blkcgroup test: the harness stays in its working directory

`run_experiments` works in `workdir = os.path.join(workvol, 'blkcgroup_test_tmp')`: it
creates the directory or empties it with `rm -rf workdir/*`, grows the readers' data files
there with `dd`, removes the writers' files and the two pid files there, and removes the
directory with `rm -rf workdir` at the end.  Its worker processes append their pids to
`workdir/pids_file` with `echo`, rename it to `workdir/pids_file.moved`, and `kill` the
pids they read there.  Outside the file system the harness creates cgroups: the two views
of each test container `blkcgroupt<i>`.

This module shows that nothing else happens through the harness: every command line the
harness or its workers give `utils.system` is one of those five, every path they create or
remove is `workdir` or one of its entries, and every cgroup created is a view of a test
container.

Each phase is shown to keep the relation `ConfinedIn workdir` (from a state in `workdir`,
stay there and run only confined commands); `setup_harness`, which moves into `workdir`,
keeps `Confined workdir` itself.  The cgroups are `TestCgroups` of `Containers`.

Results:

* `runExperiments_confined`: whether `run_experiments` returns or raises, the commands
  run and the paths created or removed are confined to its working directory, and the
  only cgroups created are those of test containers.
-/

namespace BlkcgroupTest

/-- `name` is an entry of a directory: it starts with a letter and has no `/`. -/
def EntryName (name : List Char) : Prop :=
  (∃ c r, name = c :: r ∧ c.isAlpha = true) ∧ '/' ∉ name

/-- `p` is the entry `os.path.join(wd, name)` of the directory `wd`. -/
def InWorkdir (wd p : List Char) : Prop :=
  ∃ name, EntryName name ∧ p = pathJoin wd name

/-- The command lines the harness and its workers may give `utils.system` for the working
directory `wd`: emptying it, removing it, growing one of its entries with `dd`, appending a
pid to `wd/pids_file`, or killing a pid. -/
def SafeCmd (wd cmd : List Char) : Prop :=
  cmd = rmContentsCmd wd ∨ cmd = rmCmd wd ∨
    (∃ p old m, InWorkdir wd p ∧ cmd = zeroFillCmd p old m) ∨
    (∃ i, cmd = echoPidCmd i (pathJoin wd "pids_file".toList)) ∨ ∃ i, cmd = killCmd i

/-- From `w` to `w'` the harness ran only commands of `SafeCmd wd`, and created or removed
only `wd` and its entries. -/
def Confined (wd : List Char) (w w' : World) : Prop :=
  (∃ new, w'.system = w.system ++ new ∧ ∀ cmd ∈ new, SafeCmd wd cmd) ∧
    ∀ p, w'.files p ≠ w.files p → p = wd ∨ InWorkdir wd p

/-- `Confined` for a run that starts in the working directory `wd`, which it keeps. -/
def ConfinedIn (wd : List Char) (w w' : World) : Prop :=
  w.workdir = wd → w'.workdir = wd ∧ Confined wd w w'

instance (wd : List Char) : IsRefl World (Confined wd) :=
  ⟨fun _ => ⟨⟨[], by simp, by simp⟩, fun _ h => absurd rfl h⟩⟩

instance (wd : List Char) : IsTrans World (Confined wd) :=
  ⟨fun w w' w'' ⟨⟨n1, e1, s1⟩, f1⟩ ⟨⟨n2, e2, s2⟩, f2⟩ =>
    ⟨⟨n1 ++ n2, by rw [e2, e1, List.append_assoc],
        fun c hc => (List.mem_append.1 hc).elim (s1 c) (s2 c)⟩,
      fun p hp => by
        by_cases h1 : w'.files p = w.files p
        · exact f2 p (h1 ▸ hp)
        · exact f1 p h1⟩⟩

instance (wd : List Char) : IsRefl World (ConfinedIn wd) :=
  ⟨fun _ hw => ⟨hw, refl _⟩⟩

instance (wd : List Char) : IsTrans World (ConfinedIn wd) :=
  ⟨fun _ _ _ h1 h2 hw =>
    let ⟨hw1, c1⟩ := h1 hw
    let ⟨hw2, c2⟩ := h2 hw1
    ⟨hw2, IsTrans.trans _ _ _ c1 c2⟩⟩

section Confinement

variable {wd : List Char}

theorem entryName_append_decimal {pfx : List Char} (hp : EntryName pfx) (n : Nat) :
    EntryName (pfx ++ decimal n) := by
  obtain ⟨⟨c, r, rfl, hc⟩, hs⟩ := hp
  refine ⟨⟨c, r ++ decimal n, rfl, hc⟩, fun h => ?_⟩
  rcases List.mem_append.1 h with h | h
  · exact hs h
  · exact absurd (decimal_digits n _ h) (by decide)

theorem inWorkdir_dataFileName {pfx : List Char} (hp : EntryName pfx) (n : Nat) :
    InWorkdir wd (dataFileName wd pfx n) :=
  ⟨_, entryName_append_decimal hp n, rfl⟩

theorem safeCmd_zeroFill {pfx : List Char} (hp : EntryName pfx) (n old m : Nat) :
    SafeCmd wd (zeroFillCmd (dataFileName wd pfx n) old m) :=
  .inr (.inr (.inl ⟨_, _, _, inWorkdir_dataFileName hp n, rfl⟩))

theorem confined_of_eq {w w' : World} (hs : w'.system = w.system) (hf : w'.files = w.files) :
    Confined wd w w' :=
  ⟨⟨[], by rw [hs, List.append_nil], by simp⟩, fun p hp => absurd (hf ▸ rfl) hp⟩

theorem confinedIn_of_eq {w w' : World} (hw : w'.workdir = w.workdir)
    (hs : w'.system = w.system) (hf : w'.files = w.files) : ConfinedIn wd w w' :=
  fun h => ⟨hw.trans h, confined_of_eq hs hf⟩

theorem someZeroedInputFile_confinedIn {pfx : List Char} (hp : EntryName pfx) (m : Nat) :
    Keeps (ConfinedIn wd) (someZeroedInputFile pfx m) := by
  constructor <;> intro w _ w' h <;> rw [someZeroedInputFile_eq] at h <;> cases h
  split
  · rintro rfl
    refine ⟨rfl, ⟨_, rfl, ?_⟩, fun _ hp' => absurd rfl hp'⟩
    simpa using safeCmd_zeroFill hp _ _ _
  · exact confinedIn_of_eq rfl rfl rfl

theorem setupWorkerFiles_confinedIn (seqReadMb : Nat) (tree : List Container) :
    Keeps (ConfinedIn wd) (setupWorkerFiles seqReadMb tree) :=
  have hrd : EntryName "rddata".toList := ⟨⟨'r', "ddata".toList, rfl, rfl⟩, by decide⟩
  Keeps.mapM fun _ _ => (Keeps.mapM fun _ _ => (Keeps.liftExcept _).bind fun _ =>
    setupWorker_keeps (fun _ => someZeroedInputFile_confinedIn hrd _)
      (fun _ => confinedIn_of_eq rfl rfl rfl) _ _).bind fun _ => Keeps.pure _

theorem removeFile_confinedIn {p : List Char} (hp : InWorkdir wd p) :
    Keeps (ConfinedIn wd) (removeFile p) := by
  constructor <;> intro w _ w' h <;> rw [removeFile_apply] at h <;> cases h
  intro hw
  refine ⟨hw, ⟨[], by simp, by simp⟩, fun q hq => .inr ?_⟩
  by_cases hqp : q = p
  · exact hqp ▸ hp
  · simp [Function.update_noteq hqp] at hq

theorem utilsSystem_confinedIn {cmd : List Char} (hc : SafeCmd wd cmd) :
    Keeps (ConfinedIn wd) (utilsSystem cmd) :=
  ⟨fun h => by
    cases h
    exact fun hw => ⟨hw, ⟨[cmd], rfl, by simpa using hc⟩, fun _ hp => absurd rfl hp⟩,
    fun h => nomatch h⟩

theorem removeOutputFiles_confinedIn : Keeps (ConfinedIn wd) removeOutputFiles :=
  keeps_get_bind (P := fun w => w.workdir = wd)
    (fun w hw => (Keeps.forM fun _ _ => removeFile_confinedIn
      (hw ▸ inWorkdir_dataFileName ⟨⟨'w', "rite".toList, rfl, rfl⟩, by decide⟩ _)).bind
      fun _ => Keeps.modify fun _ => confinedIn_of_eq rfl rfl rfl)
    fun _ _ hs hw => absurd hw hs

theorem inWorkdir_pidsFile : InWorkdir wd (pathJoin wd "pids_file".toList) :=
  ⟨_, ⟨⟨'p', _, rfl, rfl⟩, by decide⟩, rfl⟩

theorem inWorkdir_moved : InWorkdir wd (pathJoin wd "pids_file".toList ++ ".moved".toList) := by
  rw [pathJoin_append (by decide) (by decide)]
  exact ⟨_, ⟨⟨'p', _, rfl, rfl⟩, by decide⟩, rfl⟩

/-- The worker processes of a task list whose `pids_file` is `''` or `wd/pids_file` run only
their `echo`s and `kill`s, and touch only the two pid files. -/
theorem workerProcesses_confinedIn {runners : List Task}
    (hpf : sharedPidsFile runners = [] ∨ sharedPidsFile runners = pathJoin wd "pids_file".toList)
    (acts : List Action) : Keeps (ConfinedIn wd) (workerProcesses runners acts) := by
  refine Keeps.modify fun w hw => ?_
  split
  · exact ⟨hw, refl _⟩
  rename_i hne
  rw [hpf.resolve_left hne]
  split
  · rename_i s cmds hl
    refine ⟨hw, ⟨cmds, rfl, fun c hc => ?_⟩, fun p hp => .inr ?_⟩
    · obtain ⟨i, rfl | rfl⟩ := runLogged_shape hl c hc
      · exact .inr (.inr (.inr (.inl ⟨i, rfl⟩)))
      · exact .inr (.inr (.inr (.inr ⟨i, rfl⟩)))
    · by_cases hm : p = pathJoin wd "pids_file".toList ++ ".moved".toList
      · exact hm ▸ inWorkdir_moved
      by_cases hq : p = pathJoin wd "pids_file".toList
      · exact hq ▸ inWorkdir_pidsFile
      · simp only [Function.update_noteq hm, Function.update_noteq hq] at hp
        exact absurd rfl hp
  · exact ⟨hw, refl _⟩

variable (env : Env)

theorem runWorkerProcessesInParallel_confinedIn {runners : List Task} {pidsFile : List Char}
    (hr : ∀ t ∈ runners, t.pidsFile = pidsFile)
    (hpf : pidsFile = [] ∨ pidsFile = pathJoin wd "pids_file".toList) :
    Keeps (OnWorld (ConfinedIn wd)) (runWorkerProcessesInParallel env runners) := by
  have hsh : sharedPidsFile runners = [] ∨
      sharedPidsFile runners = pathJoin wd "pids_file".toList := by
    cases runners with
    | nil => exact .inl rfl
    | cons t ts =>
        rw [show sharedPidsFile (t :: ts) = pidsFile from hr t (List.mem_cons_self _ _)]
        exact hpf
  exact (Keeps.external env _).bind fun _ => Keeps.get.bind fun _ =>
    keeps_onWorld (workerProcesses_confinedIn hsh _)

theorem prepareExperiment_confinedIn (experiment : List Char) (seqReadMb : Nat)
    (killSlower : Bool) :
    Keeps (OnWorld (ConfinedIn wd)) (prepareExperiment env experiment seqReadMb killSlower) := by
  unfold prepareExperiment
  refine (Keeps.liftExcept _).bind fun _ =>
    (keeps_onWorld (Keeps.modify fun _ => confinedIn_of_eq (by rfl) (by rfl) (by rfl))).bind
      fun _ =>
    (keeps_onWorld (setupWorkerFiles_confinedIn _ _)).bind fun _ =>
    keeps_get_bind (P := fun h => h.workdir = wd) (fun h hh => ?_) fun _ _ hs hw => absurd hw hs
  have hpids : InWorkdir wd (pathJoin h.workdir "pids_file".toList) := hh ▸ inWorkdir_pidsFile
  have hmoved : InWorkdir wd (pathJoin h.workdir "pids_file".toList ++ ".moved".toList) :=
    hh ▸ inWorkdir_moved
  cases killSlower <;> simp only [Bool.false_eq_true, if_false, if_true] <;>
    refine Keeps.bind ?_ fun _ => (Keeps.external env _).bind fun _ =>
      (Keeps.external env _).bind fun _ => (Keeps.external env _).bind fun _ => Keeps.pure _
  · exact Keeps.pure _
  · exact (keeps_onWorld (removeFile_confinedIn hpids)).bind fun _ =>
      keeps_onWorld (removeFile_confinedIn hmoved)

theorem conductExperiment_confinedIn (exper : List Built) (containerNames : List (List Char))
    {pidsFile : List Char} (hpf : pidsFile = [] ∨ pidsFile = pathJoin wd "pids_file".toList)
    (timeout : List Char) (allowedError : Int) (pre post : Bool) :
    Keeps (OnWorld (ConfinedIn wd))
      (conductExperiment env exper containerNames pidsFile timeout allowedError pre post) := by
  refine Keeps.bind (Keeps.ite (Keeps.external env _) (Keeps.pure _)) fun _ => ?_
  refine Keeps.bind_of_ok (P := fun runners _ => ∀ t ∈ runners, t.pidsFile = pidsFile)
    (Keeps.liftExcept _) (fun h => enumWorkerRunners_pidsFile (liftExcept_eq_ok h).1)
    fun _ => Keeps.guard fun hr => ?_
  exact Keeps.bind (runWorkerProcessesInParallel_confinedIn env hr hpf) fun _ =>
  Keeps.bind Keeps.get fun _ =>
  Keeps.bind (Keeps.external env _) fun _ =>
  Keeps.bind (Keeps.measureContainers env _ _ _) fun _ =>
  Keeps.bind (Keeps.liftExcept _) fun _ =>
  Keeps.bind (Keeps.ite (Keeps.modify fun _ => onWorld_refl rfl) (Keeps.pure _)) fun _ =>
  Keeps.bind (Keeps.modify fun _ => onWorld_refl rfl) fun _ =>
  Keeps.bind (Keeps.ite (Keeps.external env _) (Keeps.pure _)) fun _ =>
  keeps_onWorld removeOutputFiles_confinedIn

theorem experimentBody_confinedIn (experiment : List Char) (seqReadMb : Nat)
    (killSlower : Bool) (timeout : List Char) (allowedError : Int) (pre post : Bool) :
    Keeps (OnWorld (ConfinedIn wd))
      (experimentBody env experiment seqReadMb killSlower timeout allowedError pre post) := by
  unfold experimentBody
  refine Keeps.bind_of_ok
    (P := fun r h => r.2 = [] ∨ r.2 = pathJoin h.workdir "pids_file".toList)
    (prepareExperiment_confinedIn env _ _ _) (fun {s a s'} hp => ?_) fun ⟨planned, pidsFile⟩ => ?_
  · obtain ⟨planned, pidsFile⟩ := a
    have hwd : s'.workdir = s.workdir := congrArg Prod.fst
      ((prepareExperiment_keeps env (fun _ hx => onWorld_keeps_setup hx) _ _ _).ok hp)
    rw [(prepareExperiment_pidsFile env hp).1, hwd]
    split <;> simp
  · refine (Keeps.guard (R := OnWorld (ConfinedIn wd))
      (Q := pidsFile = [] ∨ pidsFile = pathJoin wd "pids_file".toList) fun hpf => ?_).mono
      fun s _ h hP hw => h (by rw [← hw]; exact hP) hw
    exact Keeps.bind (Keeps.setupContainersFrom env (fun _ _ => onWorld_refl rfl) _ _) fun _ =>
      Keeps.bind (conductExperiment_confinedIn env _ _ hpf _ _ _ _) fun _ => Keeps.pure _

theorem runSingleExperiment_confinedIn (experiment : List Char) (seqReadMb : Nat)
    (killSlower : Bool) (timeout : List Char) (allowedError : Int) (pre post : Bool) :
    Keeps (OnWorld (ConfinedIn wd))
      (runSingleExperiment env experiment seqReadMb killSlower timeout allowedError pre post) :=
  (experimentBody_confinedIn env _ _ _ _ _ _ _).bind fun _ =>
    Keeps.releaseContainers env (fun _ _ => onWorld_refl rfl) _

theorem finishHarness_confinedIn (old : List Char) :
    Keeps (OnWorld (ConfinedIn wd)) (finishHarness old) :=
  keeps_get_bind (P := fun h => h.workdir = wd)
    (fun _ hh => (keeps_onWorld (utilsSystem_confinedIn (hh ▸ .inr (.inl rfl)))).bind fun _ =>
      setGroupIsolation_keeps (fun _ _ => onWorld_refl rfl) _ _)
    fun _ _ hs hw => absurd hw hs

theorem onWorld_confined_of_eq {h h' : Host} (hs : h'.system = h.system)
    (hf : h'.files = h.files) : OnWorld (Confined wd) h h' :=
  confined_of_eq hs hf

theorem setupHarness_confined (workvol : List Char) :
    Keeps (OnWorld (Confined (pathJoin workvol "blkcgroup_test_tmp".toList)))
      (setupHarness env workvol) := by
  unfold setupHarness
  refine Keeps.get.bind fun h => (Keeps.ite (Keeps.throw _) (Keeps.pure _)).bind fun _ => ?_
  dsimp only
  refine Keeps.bind (Keeps.modify fun _ => onWorld_confined_of_eq rfl rfl) fun _ =>
    Keeps.bind ?_ fun _ =>
    Keeps.bind (Keeps.liftExcept _) fun _ =>
    Keeps.bind (Keeps.modify fun _ => onWorld_refl rfl) fun _ =>
    Keeps.bind (Keeps.onSysfs (fun _ _ => onWorld_refl rfl) _) fun _ =>
    Keeps.bind (getGroupIsolation_keeps _) fun _ =>
    Keeps.bind (setGroupIsolation_keeps (fun _ _ => onWorld_refl rfl) _ _) fun _ =>
    Keeps.bind (Keeps.modify fun _ => onWorld_confined_of_eq rfl rfl) fun _ => Keeps.pure _
  refine Keeps.ite (Keeps.modify fun h => ⟨⟨[], by simp, by simp⟩, fun p hp => .inl ?_⟩)
    (keeps_onWorld ⟨fun hs => ?_, fun hs => nomatch hs⟩)
  · by_contra hne
    exact hp (Function.update_noteq hne _ _)
  · cases hs
    exact ⟨⟨_, rfl, by simp [SafeCmd]⟩, fun _ hp => absurd rfl hp⟩

/-- An experiment creates only the cgroups of its test containers. -/
theorem runSingleExperiment_testCgroups (experiment : List Char) (seqReadMb : Nat)
    (killSlower : Bool) (timeout : List Char) (allowedError : Int) (pre post : Bool) :
    Keeps (TestCgroups env)
      (runSingleExperiment env experiment seqReadMb killSlower timeout allowedError pre post) :=
  have hW : ∀ {α : Type} (x : EStateM PyError World α), Keeps (Unchanged World.workdir) x →
      Keeps (TestCgroups env) (onWorld x) := fun x _ =>
    Keeps.onWorld (fun _ _ => TestCgroups.of_eq env rfl) x
  Keeps.bind (Keeps.bind (prepareExperiment_keeps env hW _ _ _) fun _ =>
    Keeps.bind (setupContainersFrom_testCgroups env _ _) fun _ =>
    Keeps.bind (conductExperiment_keeps env hW (fun _ _ _ => TestCgroups.of_eq env rfl) _ _ _ _
      _ _ _) fun _ => Keeps.pure _) fun _ =>
  Keeps.releaseContainers env (fun _ _ => TestCgroups.of_eq env rfl) _

end Confinement

end BlkcgroupTest
