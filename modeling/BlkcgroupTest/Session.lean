import BlkcgroupTest.Commands
import BlkcgroupTest.ParserScan
import BlkcgroupTest.Scoring

/-!
# blkcgroup test: running experiments

`run_single_experiment` parses one experiment, sets up its data files, creates a
container per clause, runs the workers, measures and scores, and then removes the output
files and releases the containers.  `run_experiments` prepares the working directory and
the device, sets `group_isolation` to `1`, runs every experiment of the batch, and then
removes the working directory and restores `group_isolation`.  Neither has a `try`: an
exception raised anywhere leaves both at once.

`runSingleExperiment` is written as its three phases, `prepareExperiment` (before any
container exists), `setupContainers`, and `conductExperiment` (from the callbacks to
`remove_output_files`), followed by `releaseContainers`.  The worker processes of
`run_worker_processes_in_parallel` take the interleaving `Env.schedule` gives them; with a
`pids_file` they run the protocol of `KillProtocol` along it, and leave their `echo` and
`kill` command lines in the `utils.system` log and the two pid files as the protocol leaves
them (`workerProcesses`).

Results:

* `runSingleExperiment_release`: a normal return releases every cgroup view the call
  created; an exception before `release_containers` leaves every one of them live.
* `runExperiments_abort`: when an experiment of the batch raises, `run_experiments`
  raises the same exception in the state that experiment left: no later experiment runs,
  the working directory is not removed and `group_isolation` stays `1`; when every
  experiment returns normally, the directory is removed and the setting restored.
* `runExperiments_live`: a normal return of `run_experiments` leaves the live cgroup views
  of before the run; an experiment that raises before `release_containers` leaves live only
  the views it created, beyond those.
* `runExperiments_counters`: a normal return has counted every experiment of the batch once
  as tried and passed no more than it tried; an experiment that raises leaves counters that
  count at least the experiments before it, again with no more passes than tries.
* `conductExperiment_killSlower`: with `kill_slower`, the workers start with `pids_file`
  and `pids_file.moved` absent, the state `KillState.init` of the protocol of
  `KillProtocol`, one task per runner; whatever interleaving they take, the commands they
  run are one `echo` of each task's pid into `workdir/pids_file` and `kill`s of the tasks'
  pids, and `pids_file.moved` exists after the experiment.

The device lookup of `setupHarness` is `device_holding_file` of `Devices` on the mount
table of `Env`, passed through `actual_disk_device` with `google_hacks`, and
`enable_blkio_and_cfq` runs on the part of `/sys` that `Host` holds.
-/

namespace BlkcgroupTest

section Harness

variable (env : Env)

/-- `get_group_isolation(device)`. -/
def getGroupIsolation (device : List Char) : EStateM PyError Host (List Char) := do
  let h ← get
  match h.groupIsolation device with
  | some value => return value
  | none => throw (.external ("Machine does not have disk device ".toList ++ device))

/-- `set_group_isolation(device, value)`. -/
def setGroupIsolation (device value : List Char) : EStateM PyError Host Unit := do
  let h ← get
  match h.groupIsolation device with
  | some _ => set { h with groupIsolation := Function.update h.groupIsolation device (some value) }
  | none => throw (.external ("Machine does not have disk device ".toList ++ device))

/-- `run_single_experiment` before any container exists: parse, set up the data files,
clear the two pid files, drop the caches and look up the root cgroups.  Returns the
planned containers and `pids_file`. -/
def prepareExperiment (experiment : List Char) (seqReadMb : Nat) (killSlower : Bool) :
    EStateM PyError Host (List Planned × List Char) := do
  let exper ← liftExcept (parseExperiment experiment)
  onWorld (modify fun w => { w with inputFileCount := 0, outputFileCount := 0 })
  let planned ← onWorld (setupWorkerFiles seqReadMb exper)
  let h ← get
  let pidsFile := if killSlower then pathJoin h.workdir "pids_file".toList else []
  (if killSlower then do
      onWorld (removeFile pidsFile)
      onWorld (removeFile (pidsFile ++ ".moved".toList))
    else pure ())
  external env .dropCaches
  external env (.rootCgroup "cpuset".toList)
  external env (.rootCgroup "blkio".toList)
  return (planned, pidsFile)

/-- The `pids_file` the tasks of `runners` share: `enum_worker_runners` gives every task the
same one, `''` without `kill_slower`. -/
def sharedPidsFile : List Task → List Char
  | [] => []
  | t :: _ => t.pidsFile

/-- What the worker processes of `runners` leave in the world after the schedule `acts`.
With a `pids_file`, the command lines `run_worker` and `kill_slower_workers` pass to
`utils.system`, and the two pid files as the protocol leaves them; it starts from
`KillState.init`, both files absent, as `run_single_experiment` removed them.  Without a
`pids_file` each process only runs its payload. -/
def workerProcesses (runners : List Task) (acts : List Action) : EStateM PyError World Unit :=
  modify fun w =>
    if sharedPidsFile runners = [] then w
    else match runLogged runners.length (sharedPidsFile runners) KillState.init acts with
      | some (s, cmds) =>
          { w with system := w.system ++ cmds,
                   files := Function.update
                     (Function.update w.files (sharedPidsFile runners) s.pidsFile.isSome)
                     (sharedPidsFile runners ++ ".moved".toList) s.movedFile.isSome }
      | none => w

/-- `self.run_worker_processes_in_parallel(runners)`: fork a process per task, which may
raise before any of them starts, then wait for all of them; they take the interleaving
`env.schedule` gives. -/
def runWorkerProcessesInParallel (runners : List Task) : EStateM PyError Host Unit := do
  external env (.runWorkerProcesses runners)
  let h ← get
  onWorld (workerProcesses runners (env.schedule runners h).1)

/-- `run_single_experiment` once the containers exist, up to `remove_output_files`. -/
def conductExperiment (exper : List Built) (containerNames : List (List Char))
    (pidsFile timeout : List Char) (allowedError : Int)
    (preExperimentCb postExperimentCb : Bool) : EStateM PyError Host Unit := do
  (if preExperimentCb then external env (.preExperimentCb containerNames) else pure ())
  let runners ← liftExcept (enumWorkerRunners exper pidsFile timeout)
  runWorkerProcessesInParallel env runners
  let h ← get
  external env (.getDeviceId h.device)
  let timevals ← measureContainers env exper (env.deviceId h.device) fun _ => none
  let passing ← liftExcept (scoreExperiment exper timevals allowedError)
  (if passing then modify fun h => { h with passedExperiments := h.passedExperiments + 1 }
    else pure ())
  modify fun h => { h with triedExperiments := h.triedExperiments + 1 }
  (if postExperimentCb then external env (.postExperimentCb containerNames) else pure ())
  onWorld removeOutputFiles

/-- `run_single_experiment` up to its last statement: the containers it built. -/
def experimentBody (experiment : List Char) (seqReadMb : Nat) (killSlower : Bool)
    (timeout : List Char) (allowedError : Int) (preExperimentCb postExperimentCb : Bool) :
    EStateM PyError Host (List Built) := do
  let (planned, pidsFile) ← prepareExperiment env experiment seqReadMb killSlower
  let (exper, containerNames) ← setupContainers env planned
  conductExperiment env exper containerNames pidsFile timeout allowedError preExperimentCb
    postExperimentCb
  return exper

/-- `run_single_experiment(exper_num, experiment, seq_read_mb, kill_slower, timeout,
allowed_error, pre_experiment_cb, post_experiment_cb)`. -/
def runSingleExperiment (experiment : List Char) (seqReadMb : Nat) (killSlower : Bool)
    (timeout : List Char) (allowedError : Int) (preExperimentCb postExperimentCb : Bool) :
    EStateM PyError Host Unit := do
  let exper ← experimentBody env experiment seqReadMb killSlower timeout allowedError
    preExperimentCb postExperimentCb
  releaseContainers env exper

/-- `run_experiments` before the loop: the working directory, the device, and
`group_isolation` set to `1`.  Returns the setting it replaced. -/
def setupHarness (workvol : List Char) : EStateM PyError Host (List Char) := do
  let h ← get
  (if !h.files workvol then throw (.external ("Machine does not have ".toList ++ workvol))
    else pure ())
  let workdir := pathJoin workvol "blkcgroup_test_tmp".toList
  modify fun h => { h with workdir := workdir }
  (if !h.files workdir then
      modify fun h => { h with files := Function.update h.files workdir true }
    else onWorld (utilsSystem (rmContentsCmd workdir)))
  let device ← liftExcept (env.device workvol)
  modify fun h => { h with device := device }
  onSysfs (enableBlkioAndCfq device)
  let oldGroupIsolation ← getGroupIsolation device
  setGroupIsolation device "1".toList
  modify fun h => { h with srcdir := env.srcdir, inputFileCount := 0, outputFileCount := 0,
                           existingInputFiles := fun _ => none, triedExperiments := 0,
                           passedExperiments := 0 }
  return oldGroupIsolation

/-- `run_experiments` after the loop: remove the working directory, restore the setting. -/
def finishHarness (oldGroupIsolation : List Char) : EStateM PyError Host Unit := do
  let h ← get
  onWorld (utilsSystem (rmCmd h.workdir))
  setGroupIsolation h.device oldGroupIsolation

/-- The body of the loop of `run_experiments` on `experiment = (workers, allowed_error)`. -/
def runBatchItem (seqReadMb : Nat) (killSlower : Bool) (timeout : List Char)
    (preExperimentCb postExperimentCb : Bool) (experiment : List Char × Int) :
    EStateM PyError Host Unit :=
  runSingleExperiment env experiment.1 seqReadMb killSlower timeout experiment.2
    preExperimentCb postExperimentCb

/-- `run_experiments(experiments, seq_read_mb, workvol, kill_slower, timeout,
pre_experiment_cb, post_experiment_cb)`, with no command-line option. -/
def runExperiments (experiments : List (List Char × Int)) (seqReadMb : Nat)
    (workvol : List Char) (killSlower : Bool) (timeout : List Char)
    (preExperimentCb postExperimentCb : Bool) : EStateM PyError Host Unit := do
  let oldGroupIsolation ← setupHarness env workvol
  experiments.forM
    (runBatchItem env seqReadMb killSlower timeout preExperimentCb postExperimentCb)
  finishHarness oldGroupIsolation

end Harness

section Frame

variable (env : Env)

/-- The working directory, the device and its `group_isolation` setting. -/
def Host.setup (h : Host) : List Char × List Char × (List Char → Option (List Char)) :=
  (h.workdir, h.device, h.groupIsolation)

theorem onWorld_keeps_setup {α : Type} {x : EStateM PyError World α}
    (hx : Keeps (Unchanged World.workdir) x) : Keeps (Unchanged Host.setup) (onWorld x) := by
  constructor <;> intro h _ h' hw <;> unfold onWorld at hw <;> split at hw <;> cases hw
  · exact congrArg (·, h.device, h.groupIsolation) (hx.ok ‹_›)
  · exact congrArg (·, h.device, h.groupIsolation) (hx.error ‹_›)

theorem workerProcesses_keeps (runners : List Task) (acts : List Action) :
    Keeps (Unchanged World.workdir) (workerProcesses runners acts) :=
  Keeps.modify fun w => by
    dsimp only [Unchanged]
    split
    · rfl
    · split <;> rfl

variable {R : Host → Host → Prop} [IsRefl Host R] [IsTrans Host R]
  (hW : ∀ {α : Type} (x : EStateM PyError World α), Keeps (Unchanged World.workdir) x →
    Keeps R (onWorld x))
  (hC : ∀ (h : Host) (tried passed : Nat),
    R h { h with triedExperiments := tried, passedExperiments := passed })
  (hS : ∀ h new, R h { h with live := h.live ++ new, created := h.created ++ new })
  (hL : ∀ h l, R h { h with live := l })

include hW in
theorem prepareExperiment_keeps (experiment : List Char) (seqReadMb : Nat) (killSlower : Bool) :
    Keeps R (prepareExperiment env experiment seqReadMb killSlower) :=
  Keeps.bind (Keeps.liftExcept _) fun _ =>
  Keeps.bind (hW _ (Keeps.modify fun _ => rfl)) fun _ =>
  Keeps.bind (hW _ (Keeps.setupWorkerFiles _ _)) fun _ =>
  Keeps.bind Keeps.get fun _ =>
  Keeps.bind (Keeps.ite (Keeps.bind (hW _ (Keeps.removeFile _)) fun _ => hW _ (Keeps.removeFile _))
    (Keeps.pure _)) fun _ =>
  Keeps.bind (Keeps.external env _) fun _ =>
  Keeps.bind (Keeps.external env _) fun _ =>
  Keeps.bind (Keeps.external env _) fun _ => Keeps.pure _

include hW in
theorem runWorkerProcessesInParallel_keeps (runners : List Task) :
    Keeps R (runWorkerProcessesInParallel env runners) :=
  Keeps.bind (Keeps.external env _) fun _ =>
  Keeps.bind Keeps.get fun _ => hW _ (workerProcesses_keeps _ _)

include hW hC in
theorem conductExperiment_keeps (exper : List Built) (containerNames : List (List Char))
    (pidsFile timeout : List Char) (allowedError : Int) (pre post : Bool) :
    Keeps R (conductExperiment env exper containerNames pidsFile timeout allowedError pre post) :=
  Keeps.bind (Keeps.ite (Keeps.external env _) (Keeps.pure _)) fun _ =>
  Keeps.bind (Keeps.liftExcept _) fun _ =>
  Keeps.bind (runWorkerProcessesInParallel_keeps env hW _) fun _ =>
  Keeps.bind Keeps.get fun _ =>
  Keeps.bind (Keeps.external env _) fun _ =>
  Keeps.bind (Keeps.measureContainers env _ _ _) fun _ =>
  Keeps.bind (Keeps.liftExcept _) fun _ =>
  Keeps.bind (Keeps.ite (Keeps.modify fun h => hC h _ _) (Keeps.pure _)) fun _ =>
  Keeps.bind (Keeps.modify fun h => hC h _ _) fun _ =>
  Keeps.bind (Keeps.ite (Keeps.external env _) (Keeps.pure _)) fun _ =>
  hW _ Keeps.removeOutputFiles

include hW hC hS in
theorem experimentBody_keeps (experiment : List Char) (seqReadMb : Nat) (killSlower : Bool)
    (timeout : List Char) (allowedError : Int) (pre post : Bool) :
    Keeps R (experimentBody env experiment seqReadMb killSlower timeout allowedError pre post) :=
  Keeps.bind (prepareExperiment_keeps env hW _ _ _) fun _ =>
  Keeps.bind (Keeps.setupContainersFrom env hS _ _) fun _ =>
  Keeps.bind (conductExperiment_keeps env hW hC _ _ _ _ _ _ _) fun _ => Keeps.pure _

include hW hC hS hL in
theorem runSingleExperiment_keeps (experiment : List Char) (seqReadMb : Nat)
    (killSlower : Bool) (timeout : List Char) (allowedError : Int) (pre post : Bool) :
    Keeps R (runSingleExperiment env experiment seqReadMb killSlower timeout allowedError pre
      post) :=
  Keeps.bind (experimentBody_keeps env hW hC hS _ _ _ _ _ _ _) fun _ =>
    Keeps.releaseContainers env hL _

end Frame

section ExperimentViews

variable (env : Env)

theorem onWorld_keeps_live {α : Type} (x : EStateM PyError World α)
    (_ : Keeps (Unchanged World.workdir) x) : Keeps (Unchanged Host.live) (onWorld x) :=
  @Keeps.onWorld α (Unchanged Host.live) (fun _ _ => rfl) x

/-- A step that leaves the cgroup bookkeeping alone grows it by nothing. -/
theorem Grows.of_eq {h h' : Host} (hl : h'.live = h.live) (hc : h'.created = h.created) :
    Grows h h' :=
  ⟨[], by rw [hl, List.append_nil], by rw [hc, List.append_nil]⟩

theorem onWorld_grows {α : Type} (x : EStateM PyError World α)
    (_ : Keeps (Unchanged World.workdir) x) : Keeps Grows (onWorld x) :=
  Keeps.onWorld (fun _ _ => Grows.of_eq rfl rfl) x

/-- When it returns, the body of `run_single_experiment` added the views of the containers
it built to the live ones, and nothing else. -/
theorem experimentBody_ok {experiment timeout : List Char} {seqReadMb : Nat} {killSlower : Bool}
    {allowedError : Int} {pre post : Bool} {h h' : Host} {exper : List Built}
    (hb : experimentBody env experiment seqReadMb killSlower timeout allowedError pre post h =
      .ok exper h') : h'.live = h.live ++ views exper := by
  obtain ⟨⟨planned, pidsFile⟩, h1, hp, hb⟩ := bind_eq_ok hb
  obtain ⟨⟨built, names⟩, h2, hs, hb⟩ := bind_eq_ok hb
  obtain ⟨_, _, hc, ⟨⟩⟩ := bind_eq_ok hb
  have e1 : h1.live = h.live := (prepareExperiment_keeps env onWorld_keeps_live _ _ _).ok hp
  have e3 : h'.live = h2.live :=
    (conductExperiment_keeps env onWorld_keeps_live (fun _ _ _ => rfl) _ _ _ _ _ _ _).ok hc
  obtain ⟨-, -, rfl⟩ := setupContainersFrom_ok env hs
  rw [e3, ← e1]

/-- A normal return of `run_single_experiment` releases every view it created: the live
views are those there were before.  An exception raised before `release_containers`
propagates unchanged and leaves every view created by the call live. -/
theorem runSingleExperiment_release (experiment : List Char) (seqReadMb : Nat)
    (killSlower : Bool) (timeout : List Char) (allowedError : Int) (pre post : Bool)
    (h h' : Host) :
    (runSingleExperiment env experiment seqReadMb killSlower timeout allowedError pre post h =
        .ok () h' → h'.live.Perm h.live) ∧
    (∀ e, experimentBody env experiment seqReadMb killSlower timeout allowedError pre post h =
        .error e h' →
      runSingleExperiment env experiment seqReadMb killSlower timeout allowedError pre post h =
          .error e h' ∧ h'.live = h.live ++ h'.created.drop h.created.length) := by
  constructor
  · intro hr
    obtain ⟨exper, h1, hb, hr⟩ := bind_eq_ok hr
    rw [releaseContainers_ok env hr, experimentBody_ok env hb]
    exact diff_views_perm _ _
  · intro e hb
    refine ⟨bind_apply_error hb, Grows.live_eq ?_⟩
    exact (experimentBody_keeps env onWorld_grows (fun _ _ _ => Grows.of_eq rfl rfl)
      (fun _ new => ⟨new, rfl, rfl⟩) _ _ _ _ _ _ _).error hb

/-- A `pre_experiment_cb` that raises; no other call raises. -/
def preCbRaises (c : Call) (_ : Host) : Option PyError :=
  match c with
  | .preExperimentCb _ => some (.external "pre_experiment_cb".toList)
  | _ => none

theorem runSingleExperiment_release_pre_cb :
    ∃ e h', experimentBody (sampleEnv preCbRaises fun _ => []) "100".toList 10 false [] 5 true
        false sampleHost = .error e h' ∧
      h'.live = [] ++ h'.created.drop 0 := by
  have hp : parseExperiment "100".toList = .ok [⟨100, none, 0⟩] :=
    parseExperiment_eq_ok_iff.2 (by decide)
  obtain ⟨e, h', hb⟩ : ∃ e h', experimentBody (sampleEnv preCbRaises fun _ => []) "100".toList
      10 false [] 5 true false sampleHost = .error e h' := by
    unfold experimentBody prepareExperiment
    rw [hp]
    exact ⟨_, _, rfl⟩
  exact ⟨e, h', hb, ((runSingleExperiment_release _ _ _ _ _ _ _ _ _ h').2 e hb).2⟩

/-- With a `pre_experiment_cb` that raises, `run_single_experiment('100')` raises with
both views of the container it created still live. -/
theorem runSingleExperiment_pre_cb_leaks :
    ∃ e h', runSingleExperiment (sampleEnv preCbRaises fun _ => []) "100".toList 10 false [] 5
        true false sampleHost = .error e h' ∧
      h'.created = [⟨"cpuset".toList, "/dev/cgroup/blkcgroupt0".toList⟩,
        ⟨"blkio".toList, "/dev/cgroup/blkcgroupt0".toList⟩] ∧ h'.live = h'.created := by
  have hp : parseExperiment "100".toList = .ok [⟨100, none, 0⟩] :=
    parseExperiment_eq_ok_iff.2 (by decide)
  unfold runSingleExperiment experimentBody prepareExperiment
  rw [hp]
  exact ⟨_, _, rfl, rfl, rfl⟩

end ExperimentViews

section Batch

variable (env : Env)

/-- A grammar error raises before anything is touched. -/
theorem runSingleExperiment_parse_error {experiment timeout : List Char} {seqReadMb : Nat}
    {killSlower : Bool} {allowedError : Int} {pre post : Bool} {e : PyError}
    (he : parseExperiment experiment = .error e) (h : Host) :
    runSingleExperiment env experiment seqReadMb killSlower timeout allowedError pre post h =
      .error e h := by
  unfold runSingleExperiment experimentBody prepareExperiment
  rw [he]
  rfl

theorem getGroupIsolation_ok {device v : List Char} {h h' : Host}
    (hg : getGroupIsolation device h = .ok v h') : h.groupIsolation device = some v ∧ h' = h := by
  cases hd : h.groupIsolation device <;>
    simp only [getGroupIsolation, bind_apply_ok (get_apply h), hd] at hg <;> cases hg
  exact ⟨rfl, rfl⟩

theorem setGroupIsolation_ok {device value : List Char} {h h' : Host} {u : Unit}
    (hs : setGroupIsolation device value h = .ok u h') :
    h' = { h with groupIsolation := Function.update h.groupIsolation device (some value) } := by
  cases hd : h.groupIsolation device <;>
    simp only [setGroupIsolation, bind_apply_ok (get_apply h), hd] at hs <;> cases hs
  rfl

/-- What the setup of `run_experiments` does when it returns: the device lookup found a
device, whose `group_isolation` setting it returns; the working directory and the device
are set, the setting is `1`, and both counters are `0`. -/
theorem setupHarness_spec {workvol old : List Char} {h h' : Host}
    (hs : setupHarness env workvol h = .ok old h') :
    ∃ device, env.device workvol = .ok device ∧ h.groupIsolation device = some old ∧
      h'.setup = (pathJoin workvol "blkcgroup_test_tmp".toList, device,
        Function.update h.groupIsolation device (some "1".toList)) ∧
      h'.triedExperiments = 0 ∧ h'.passedExperiments = 0 := by
  simp only [setupHarness, bind_apply_ok (get_apply h)] at hs
  obtain ⟨_, h1, hv, hs⟩ := bind_eq_ok hs
  obtain rfl : h = h1 := by split at hv <;> cases hv; rfl
  obtain ⟨_, _, ⟨⟩, hs⟩ := bind_eq_ok hs
  obtain ⟨_, h2, hf, hs⟩ := bind_eq_ok hs
  have e2 := (show Keeps (Unchanged Host.setup) _ from
    Keeps.ite (Keeps.modify fun _ => by rfl)
      (onWorld_keeps_setup (Keeps.modify fun _ => by rfl))).ok hf
  obtain ⟨device, _, hd, hs5⟩ := bind_eq_ok hs
  obtain ⟨hdev, rfl⟩ := liftExcept_eq_ok hd
  obtain ⟨_, _, ⟨⟩, hs6⟩ := bind_eq_ok hs5
  obtain ⟨_, h3, hx, hs7⟩ := bind_eq_ok hs6
  have e3 := (@Keeps.onSysfs _ (Unchanged Host.setup) (fun _ _ => rfl) _).ok hx
  obtain ⟨v, _, hg, hs8⟩ := bind_eq_ok hs7
  obtain ⟨hv, rfl⟩ := getGroupIsolation_ok hg
  obtain ⟨_, _, hsg, hs9⟩ := bind_eq_ok hs8
  cases setGroupIsolation_ok hsg
  obtain ⟨_, _, ⟨⟩, ⟨⟩⟩ := bind_eq_ok hs9
  simp only [Unchanged, Host.setup, Prod.mk.injEq] at e2 e3
  refine ⟨device, hdev, by rw [← e2.2.2, ← e3.2.2]; exact hv, ?_, rfl, rfl⟩
  simp [Host.setup, e2, e3]

/-- When `run_experiments` gets past its setup, the working directory and the device are
set and `group_isolation` of the device is `1`; the setting it replaced is returned. -/
theorem setupHarness_ok {workvol old : List Char} {h h' : Host}
    (hs : setupHarness env workvol h = .ok old h') :
    h.groupIsolation (env.deviceHolding workvol) = some old ∧
      h'.setup = (pathJoin workvol "blkcgroup_test_tmp".toList, env.deviceHolding workvol,
        Function.update h.groupIsolation (env.deviceHolding workvol) (some "1".toList)) := by
  obtain ⟨device, hd, hold, hset, -⟩ := setupHarness_spec env hs
  rw [Env.deviceHolding_of_device hd]
  exact ⟨hold, hset⟩

/-- After the loop: the command removing the working directory is the last one run, and
the setting of the device is back to `old_group_isolation`. -/
theorem finishHarness_ok {old : List Char} {h h' : Host} {u : Unit}
    (hf : finishHarness old h = .ok u h') :
    h'.system = h.system ++ [rmCmd h.workdir] ∧
      h'.groupIsolation = Function.update h.groupIsolation h.device (some old) := by
  obtain ⟨_, _, ⟨⟩, hf⟩ := bind_eq_ok hf
  obtain ⟨_, _, ⟨⟩, hf⟩ := bind_eq_ok hf
  cases setGroupIsolation_ok hf
  exact ⟨rfl, rfl⟩

/-- Every experiment of the batch keeps the working directory, the device and its setting. -/
theorem runBatchItem_keeps_setup (seqReadMb : Nat) (killSlower : Bool) (timeout : List Char)
    (pre post : Bool) (experiment : List Char × Int) :
    Keeps (Unchanged Host.setup)
      (runBatchItem env seqReadMb killSlower timeout pre post experiment) :=
  runSingleExperiment_keeps env (fun _ hx => onWorld_keeps_setup hx) (fun _ _ _ => rfl)
    (fun _ _ => rfl) (fun _ _ => rfl) _ _ _ _ _ _ _

/-- An experiment that raises ends the batch: `run_experiments` raises its exception in the
state it left. -/
theorem runExperiments_error (done : List (List Char × Int)) {rest : List (List Char × Int)}
    {experiment : List Char × Int} {seqReadMb : Nat} {workvol timeout old : List Char}
    {killSlower pre post : Bool} {h h1 h2 h3 : Host} {e : PyError}
    (hs : setupHarness env workvol h = .ok old h1)
    (hd : done.forM (runBatchItem env seqReadMb killSlower timeout pre post) h1 = .ok () h2)
    (hx : runBatchItem env seqReadMb killSlower timeout pre post experiment h2 = .error e h3) :
    runExperiments env (done ++ experiment :: rest) seqReadMb workvol killSlower timeout pre post
      h = .error e h3 := by
  simp only [runExperiments, bind_apply_ok hs]
  refine bind_apply_error ?_
  simp only [List.forM_append, List.forM_cons', bind_apply_ok hd, bind_apply_error hx]

/-- `run_experiments` has no `try`.  When an experiment of the batch raises, it raises the
same exception in the state that experiment left: the later experiments do not run, the
working directory is not removed and `group_isolation` of the device stays `1`.  Only
when every experiment returns is the directory removed, by the last command run, and the
setting restored. -/
theorem runExperiments_abort (experiments : List (List Char × Int)) (seqReadMb : Nat)
    (workvol : List Char) (killSlower : Bool) (timeout : List Char) (pre post : Bool)
    (h : Host) :
    (∀ done experiment rest old h1 h2 e h3, experiments = done ++ experiment :: rest →
      setupHarness env workvol h = .ok old h1 →
      done.forM (runBatchItem env seqReadMb killSlower timeout pre post) h1 = .ok () h2 →
      runBatchItem env seqReadMb killSlower timeout pre post experiment h2 = .error e h3 →
      runExperiments env experiments seqReadMb workvol killSlower timeout pre post h =
          .error e h3 ∧
        h3.groupIsolation (env.deviceHolding workvol) = some "1".toList) ∧
    (∀ h', runExperiments env experiments seqReadMb workvol killSlower timeout pre post h =
        .ok () h' →
      h'.groupIsolation (env.deviceHolding workvol) =
          h.groupIsolation (env.deviceHolding workvol) ∧
        h'.system.getLast? = some (rmCmd (pathJoin workvol "blkcgroup_test_tmp".toList))) := by
  have hloop : ∀ l : List (List Char × Int), Keeps (Unchanged Host.setup)
      (l.forM (runBatchItem env seqReadMb killSlower timeout pre post)) := fun _ =>
    Keeps.forM fun _ _ => runBatchItem_keeps_setup env _ _ _ _ _ _
  constructor
  · intro done experiment rest old h1 h2 e h3 hb hs hd hx
    refine ⟨hb ▸ runExperiments_error env done hs hd hx, ?_⟩
    have e3 : h3.setup = h1.setup :=
      ((runBatchItem_keeps_setup env _ _ _ _ _ _).error hx).trans ((hloop done).ok hd)
    rw [(setupHarness_ok env hs).2] at e3
    simp only [Host.setup, Prod.mk.injEq] at e3
    rw [e3.2.2, Function.update_same]
  · intro h' hr
    obtain ⟨old, h1, hs, hr⟩ := bind_eq_ok hr
    obtain ⟨_, h2, hd, hf⟩ := bind_eq_ok hr
    obtain ⟨hold, e1⟩ := setupHarness_ok env hs
    have e2 : h2.setup = h1.setup := (hloop experiments).ok hd
    rw [e1] at e2
    simp only [Host.setup, Prod.mk.injEq] at e2
    obtain ⟨hsys, hgi⟩ := finishHarness_ok hf
    rw [hsys, hgi, e2.1, e2.2.1, Function.update_same, hold]
    simp

/-- Once its setup and every experiment of the batch returned, `run_experiments` returns:
the device still has its setting, so restoring it cannot raise. -/
theorem runExperiments_ok_of_loop {experiments : List (List Char × Int)} {seqReadMb : Nat}
    {workvol timeout old : List Char} {killSlower pre post : Bool} {h h1 h2 : Host}
    (hs : setupHarness env workvol h = .ok old h1)
    (hd : experiments.forM (runBatchItem env seqReadMb killSlower timeout pre post) h1 =
      .ok () h2) :
    ∃ h', runExperiments env experiments seqReadMb workvol killSlower timeout pre post h =
      .ok () h' := by
  have e2 : h2.setup = h1.setup :=
    (Keeps.forM fun _ _ => runBatchItem_keeps_setup env _ _ _ _ _ _).ok hd
  rw [(setupHarness_ok env hs).2] at e2
  simp only [Host.setup, Prod.mk.injEq] at e2
  have hg : h2.groupIsolation h2.device = some "1".toList := by
    rw [e2.2.2, e2.2.1, Function.update_same]
  refine ⟨{ h2 with
      system := h2.system ++ [rmCmd h2.workdir]
      groupIsolation := Function.update h2.groupIsolation h2.device (some old) }, ?_⟩
  simp only [runExperiments, bind_apply_ok hs, bind_apply_ok hd, finishHarness,
    setGroupIsolation, bind_apply, get_apply]
  simp only [onWorld, utilsSystem, modify_apply, hg, set_apply]

/-- The machine `sampleHost` once `run_experiments` set it up on `/w`. -/
def sampleReady : Host :=
  { sampleHost with
    workdir := "/w/blkcgroup_test_tmp".toList
    srcdir := "/src".toList
    files := Function.update sampleHost.files (pathJoin "/w".toList "blkcgroup_test_tmp".toList) true
    device := "sda".toList
    groupIsolation := Function.update sampleHost.groupIsolation "sda".toList (some "1".toList) }

theorem setupHarness_sample (raises : Call → Host → Option PyError)
    (timeLines : Cgroup → List (List Char)) :
    setupHarness (sampleEnv raises timeLines) "/w".toList sampleHost = .ok "0".toList sampleReady := by
  unfold setupHarness
  rw [sampleEnv_device]
  rfl

theorem runExperiments_abort_bogus :
    ∃ e h3, runExperiments (sampleEnv (fun _ _ => none) fun _ => []) [("bogus".toList, 5)] 10
        "/w".toList false [] false false sampleHost = .error e h3 ∧
      h3.groupIsolation "sda".toList = some "1".toList := by
  obtain ⟨e, he⟩ := @parseExperiment_raises "bogus".toList (by decide)
  have ha := (runExperiments_abort (sampleEnv (fun _ _ => none) fun _ => [])
    [("bogus".toList, 5)] 10 _ false [] false false _).1 []
    ("bogus".toList, 5) [] _ _ _ _ _ rfl (setupHarness_sample _ _) rfl
    (runSingleExperiment_parse_error _ he _)
  rw [Env.deviceHolding_of_device (sampleEnv_device _ _)] at ha
  exact ⟨e, _, ha⟩

/-- In the batch `['bogus', '100']` the grammar error of the first experiment ends
`run_experiments`: the second never runs, `group_isolation` stays `1` where it was `0`, and
no `rm -rf` of the working directory is run. -/
theorem runExperiments_bogus_first :
    ∃ e h', runExperiments (sampleEnv (fun _ _ => none) fun _ => [])
        [("bogus".toList, 5), ("100".toList, 5)] 10 "/w".toList false [] false false
        sampleHost = .error e h' ∧
      h'.triedExperiments = 0 ∧ h'.groupIsolation "sda".toList = some "1".toList ∧
        h'.system = [] := by
  obtain ⟨e, he⟩ := @parseExperiment_raises "bogus".toList (by decide)
  exact ⟨e, _, runExperiments_error _ [] (setupHarness_sample _ _) rfl
    (runSingleExperiment_parse_error _ he _), rfl, rfl, rfl⟩

end Batch

section Counters

variable (env : Env)

/-- `tried_experiments` and `passed_experiments`.  `run_single_experiment` adds one to
`passed_experiments` when the experiment passed and then one to `tried_experiments`, with
nothing between the two that can raise; no other statement of an experiment touches them,
and `run_experiments` sets both to `0` before its loop. -/
def Host.counters (h : Host) : Nat × Nat :=
  (h.triedExperiments, h.passedExperiments)

/-- The two counter updates of one experiment. -/
def tallyCounters (passing : Bool) (h : Host) : Host :=
  { h with passedExperiments := h.passedExperiments + (if passing then 1 else 0),
           triedExperiments := h.triedExperiments + 1 }

@[simp] theorem tallyCounters_counters (passing : Bool) (h : Host) :
    (tallyCounters passing h).counters =
      (h.triedExperiments + 1, h.passedExperiments + if passing then 1 else 0) := rfl

/-- From `h` to `h'` no counter went down, and `passed_experiments` grew by no more than
`tried_experiments`. -/
def Tallied (h h' : Host) : Prop :=
  h.triedExperiments ≤ h'.triedExperiments ∧
    h'.passedExperiments + h.triedExperiments ≤ h.passedExperiments + h'.triedExperiments

instance : IsRefl Host Tallied :=
  ⟨fun _ => ⟨le_rfl, le_rfl⟩⟩

instance : IsTrans Host Tallied :=
  ⟨fun _ _ _ ⟨a1, b1⟩ ⟨a2, b2⟩ => ⟨a1.trans a2, by omega⟩⟩

theorem tallyCounters_congr (passing : Bool) {h h' : Host} (e : h'.counters = h.counters) :
    (tallyCounters passing h').counters = (tallyCounters passing h).counters := by
  simp only [Host.counters, Prod.mk.injEq] at e
  simp only [tallyCounters_counters, e]

/-- Counters that one experiment's updates made are tallied. -/
theorem tallied_of_counters {passing : Bool} {h h' : Host}
    (e : h'.counters = (tallyCounters passing h).counters) : Tallied h h' := by
  rw [tallyCounters_counters] at e
  simp only [Host.counters, Prod.mk.injEq] at e
  unfold Tallied
  split at e <;> omega

/-- The block from the first counter update on runs the rest from the state both updates
made. -/
theorem tally_apply (passing : Bool) {α : Type} (k : EStateM PyError Host α) (h : Host) :
    ((if passing then modify fun h : Host =>
          { h with passedExperiments := h.passedExperiments + 1 } else pure ()) >>= fun _ =>
      (modify fun h : Host => { h with triedExperiments := h.triedExperiments + 1 }) >>= fun _ =>
        k) h = k (tallyCounters passing h) := by
  cases passing <;> rfl

theorem tally_keeps {R : Host → Host → Prop} [IsTrans Host R] (passing : Bool) {α : Type}
    {k : EStateM PyError Host α} (hP : ∀ h, R h (tallyCounters passing h)) (hk : Keeps R k) :
    Keeps R ((if passing then modify fun h : Host =>
          { h with passedExperiments := h.passedExperiments + 1 } else pure ()) >>= fun _ =>
      (modify fun h : Host => { h with triedExperiments := h.triedExperiments + 1 }) >>= fun _ =>
        k) :=
  ⟨fun hr => IsTrans.trans _ _ _ (hP _) (hk.ok ((tally_apply passing k _).symm.trans hr)),
    fun hr => IsTrans.trans _ _ _ (hP _) (hk.error ((tally_apply passing k _).symm.trans hr))⟩

section Tally

variable {R : Host → Host → Prop} [IsRefl Host R] [IsTrans Host R]
  (hW : ∀ {α : Type} (x : EStateM PyError World α), Keeps (Unchanged World.workdir) x →
    Keeps R (onWorld x))
  (hP : ∀ h passing, R h (tallyCounters passing h))
  (hS : ∀ h new, R h { h with live := h.live ++ new, created := h.created ++ new })
  (hL : ∀ h l, R h { h with live := l })

include hW hP in
theorem conductExperiment_keeps_tally (exper : List Built) (containerNames : List (List Char))
    (pidsFile timeout : List Char) (allowedError : Int) (pre post : Bool) :
    Keeps R (conductExperiment env exper containerNames pidsFile timeout allowedError pre post) :=
  Keeps.bind (Keeps.ite (Keeps.external env _) (Keeps.pure _)) fun _ =>
  Keeps.bind (Keeps.liftExcept _) fun _ =>
  Keeps.bind (runWorkerProcessesInParallel_keeps env hW _) fun _ =>
  Keeps.bind Keeps.get fun _ =>
  Keeps.bind (Keeps.external env _) fun _ =>
  Keeps.bind (Keeps.measureContainers env _ _ _) fun _ =>
  Keeps.bind (Keeps.liftExcept _) fun passing =>
  tally_keeps passing (hP · passing) <|
  Keeps.bind (Keeps.ite (Keeps.external env _) (Keeps.pure _)) fun _ =>
  hW _ Keeps.removeOutputFiles

include hW hP hS hL in
theorem runSingleExperiment_keeps_tally (experiment : List Char) (seqReadMb : Nat)
    (killSlower : Bool) (timeout : List Char) (allowedError : Int) (pre post : Bool) :
    Keeps R (runSingleExperiment env experiment seqReadMb killSlower timeout allowedError pre
      post) :=
  Keeps.bind (Keeps.bind (prepareExperiment_keeps env hW _ _ _) fun _ =>
    Keeps.bind (Keeps.setupContainersFrom env hS _ _) fun _ =>
    Keeps.bind (conductExperiment_keeps_tally env hW hP _ _ _ _ _ _ _) fun _ => Keeps.pure _)
    fun _ => Keeps.releaseContainers env hL _

end Tally

/-- Peel a statement that keeps the counters off a block that returns. -/
theorem counters_bind_ok {α β : Type} {x : EStateM PyError Host α}
    {k : α → EStateM PyError Host β} (hx : Keeps (Unchanged Host.counters) x) {h h'' : Host}
    {b : β} (hr : (x >>= k) h = .ok b h'') : ∃ a h', h'.counters = h.counters ∧ k a h' = .ok b h'' :=
  let ⟨a, h', h1, h2⟩ := bind_eq_ok hr
  ⟨a, h', hx.ok h1, h2⟩

theorem onWorld_keeps_counters {α : Type} (x : EStateM PyError World α) :
    Keeps (Unchanged Host.counters) (onWorld x) :=
  @Keeps.onWorld α (Unchanged Host.counters) (fun _ _ => rfl) x

/-- The scoring part of an experiment, when it returns, counted the experiment once as
tried, and as passed once or not at all. -/
theorem conductExperiment_ok_counters {exper : List Built} {containerNames : List (List Char)}
    {pidsFile timeout : List Char} {allowedError : Int} {pre post : Bool} {h h' : Host} {u : Unit}
    (hc : conductExperiment env exper containerNames pidsFile timeout allowedError pre post h =
      .ok u h') :
    ∃ passing : Bool, h'.counters = (tallyCounters passing h).counters := by
  unfold conductExperiment at hc
  obtain ⟨_, h1, e1, hc⟩ := counters_bind_ok (Keeps.ite (Keeps.external env _) (Keeps.pure _)) hc
  obtain ⟨_, h2, e2, hc⟩ := counters_bind_ok (Keeps.liftExcept _) hc
  obtain ⟨_, h3, e3, hc⟩ := counters_bind_ok
    (runWorkerProcessesInParallel_keeps env (fun x _ => onWorld_keeps_counters x) _) hc
  obtain ⟨_, h4, e4, hc⟩ := counters_bind_ok Keeps.get hc
  obtain ⟨_, h5, e5, hc⟩ := counters_bind_ok (Keeps.external env _) hc
  obtain ⟨_, h6, e6, hc⟩ := counters_bind_ok (Keeps.measureContainers env _ _ _) hc
  obtain ⟨passing, h7, e7, hc⟩ := counters_bind_ok (Keeps.liftExcept _) hc
  rw [tally_apply] at hc
  have e8 := (Keeps.bind (Keeps.ite (Keeps.external env _) (Keeps.pure _)) fun _ =>
    onWorld_keeps_counters removeOutputFiles).ok hc
  exact ⟨passing, e8.trans (tallyCounters_congr passing
    (e7.trans (e6.trans (e5.trans (e4.trans (e3.trans (e2.trans e1)))))))⟩

/-- An experiment that returns was counted once as tried, and as passed once or not at
all. -/
theorem runSingleExperiment_ok_counters {experiment timeout : List Char} {seqReadMb : Nat}
    {killSlower : Bool} {allowedError : Int} {pre post : Bool} {h h' : Host} {u : Unit}
    (hr : runSingleExperiment env experiment seqReadMb killSlower timeout allowedError pre post h =
      .ok u h') :
    ∃ passing : Bool, h'.counters = (tallyCounters passing h).counters := by
  obtain ⟨_, h3, hb, hr⟩ := bind_eq_ok hr
  obtain ⟨_, h1, e1, hb⟩ := counters_bind_ok
    (prepareExperiment_keeps env (fun x _ => onWorld_keeps_counters x) _ _ _) hb
  obtain ⟨_, h2, e2, hb⟩ := counters_bind_ok
    (@Keeps.setupContainersFrom env (Unchanged Host.counters) _ _ (fun _ _ => rfl) _ _) hb
  obtain ⟨_, h2', hc, ⟨⟩⟩ := bind_eq_ok hb
  obtain ⟨passing, e3⟩ := conductExperiment_ok_counters env hc
  have e4 : h'.counters = h3.counters :=
    (@Keeps.releaseContainers env (Unchanged Host.counters) _ _ (fun _ _ => rfl) _).ok hr
  exact ⟨passing, e4.trans (e3.trans (tallyCounters_congr passing (e2.trans e1)))⟩

/-- `run_experiments` starts its loop with both counters at `0`. -/
theorem setupHarness_counters {workvol old : List Char} {h h' : Host}
    (hs : setupHarness env workvol h = .ok old h') : h'.counters = (0, 0) := by
  obtain ⟨_, -, -, -, ht, hp⟩ := setupHarness_spec env hs
  simp [Host.counters, ht, hp]

/-- The end of `run_experiments` leaves the counters alone. -/
theorem finishHarness_counters {old : List Char} {h h' : Host} {u : Unit}
    (hf : finishHarness old h = .ok u h') : h'.counters = h.counters := by
  obtain ⟨_, _, ⟨⟩, hf⟩ := bind_eq_ok hf
  obtain ⟨_, _, ⟨⟩, hf⟩ := bind_eq_ok hf
  cases setGroupIsolation_ok hf
  rfl

/-- A run of experiments that returns counted each of them once as tried, and passed no
more of them than it tried. -/
theorem forM_runBatchItem_counters {seqReadMb : Nat} {killSlower pre post : Bool}
    {timeout : List Char} (l : List (List Char × Int)) {h h' : Host}
    (hd : l.forM (runBatchItem env seqReadMb killSlower timeout pre post) h = .ok () h') :
    h'.triedExperiments = h.triedExperiments + l.length ∧ Tallied h h' := by
  induction l generalizing h with
  | nil =>
      cases hd
      exact ⟨rfl, refl _⟩
  | cons experiment l ih =>
      rw [List.forM_cons'] at hd
      obtain ⟨_, h1, h1r, hd⟩ := bind_eq_ok hd
      obtain ⟨passing, e1⟩ := runSingleExperiment_ok_counters env h1r
      obtain ⟨ih1, ih2⟩ := ih hd
      have t1 := tallied_of_counters e1
      rw [tallyCounters_counters] at e1
      simp only [Host.counters, Prod.mk.injEq] at e1
      exact ⟨by simp only [List.length_cons]; omega, IsTrans.trans _ _ _ t1 ih2⟩

/-- `run_experiments` counts its experiments.  When it returns, `tried_experiments` is the
number of experiments of the batch and `passed_experiments` at most that, so the failures
it reports are never negative.  When an experiment of the batch raises, the counters it
leaves count at least the experiments before it, and again no more passes than tries. -/
theorem runExperiments_counters (experiments : List (List Char × Int)) (seqReadMb : Nat)
    (workvol : List Char) (killSlower : Bool) (timeout : List Char) (pre post : Bool)
    (h : Host) :
    (∀ h', runExperiments env experiments seqReadMb workvol killSlower timeout pre post h =
        .ok () h' →
      h'.triedExperiments = experiments.length ∧
        h'.passedExperiments ≤ h'.triedExperiments) ∧
    (∀ done experiment rest old h1 h2 e h3, experiments = done ++ experiment :: rest →
      setupHarness env workvol h = .ok old h1 →
      done.forM (runBatchItem env seqReadMb killSlower timeout pre post) h1 = .ok () h2 →
      runBatchItem env seqReadMb killSlower timeout pre post experiment h2 = .error e h3 →
      done.length ≤ h3.triedExperiments ∧ h3.passedExperiments ≤ h3.triedExperiments) := by
  constructor
  · intro h' hr
    obtain ⟨old, h1, hs, hr⟩ := bind_eq_ok hr
    obtain ⟨_, h2, hd, hf⟩ := bind_eq_ok hr
    have e1 := setupHarness_counters env hs
    have e3 := finishHarness_counters hf
    obtain ⟨ht, -, hg⟩ := forM_runBatchItem_counters env experiments hd
    simp only [Host.counters, Prod.mk.injEq] at e1 e3
    omega
  · intro done experiment rest old h1 h2 e h3 _ hs hd hx
    have e1 := setupHarness_counters env hs
    obtain ⟨ht, -, hg⟩ := forM_runBatchItem_counters env done hd
    obtain ⟨h23, hg'⟩ := (@runSingleExperiment_keeps_tally env Tallied _ _
      (fun x _ => @Keeps.onWorld _ Tallied (fun _ _ => ⟨le_rfl, le_rfl⟩) x)
      (fun _ _ => tallied_of_counters rfl) (fun _ _ => ⟨le_rfl, le_rfl⟩)
      (fun _ _ => ⟨le_rfl, le_rfl⟩) _ _ _ _ _ _ _).error hx
    simp only [Host.counters, Prod.mk.injEq] at e1
    omega

theorem runExperiments_counters_rdseq_bogus :
    (∃ h', runExperiments (sampleEnv (fun _ _ => none) fun _ => ["sda 100".toList])
        [("10 rdseq".toList, 5)] 1 "/w".toList false [] false false sampleHost = .ok () h' ∧
      h'.triedExperiments = 1 ∧ h'.passedExperiments ≤ h'.triedExperiments) ∧
    (∃ e h3, runExperiments (sampleEnv (fun _ _ => none) fun _ => ["sda 100".toList])
        [("10 rdseq".toList, 5), ("bogus".toList, 5)] 1 "/w".toList false [] false false
        sampleHost = .error e h3 ∧
      1 ≤ h3.triedExperiments ∧ h3.passedExperiments ≤ h3.triedExperiments) := by
  have hp : parseExperiment "10 rdseq".toList = .ok [⟨10, some "rdseq".toList, 1⟩] :=
    parseExperiment_eq_ok_iff.2 (by decide)
  obtain ⟨e, he⟩ := @parseExperiment_raises "bogus".toList (by decide)
  have hs := setupHarness_sample (fun _ _ => none) fun _ => ["sda 100".toList]
  obtain ⟨h2, hd⟩ : ∃ h2, [("10 rdseq".toList, 5)].forM (runBatchItem
      (sampleEnv (fun _ _ => none) fun _ => ["sda 100".toList]) 1 false [] false false)
      sampleReady = .ok () h2 := by
    simp only [List.forM_cons', List.forM_nil', runBatchItem, runSingleExperiment, experimentBody,
      prepareExperiment, hp]
    exact ⟨_, rfl⟩
  obtain ⟨h', hr⟩ := runExperiments_ok_of_loop _ hs hd
  have hx : runBatchItem (sampleEnv (fun _ _ => none) fun _ => ["sda 100".toList]) 1 false []
      false false ("bogus".toList, 5) h2 = .error e h2 := runSingleExperiment_parse_error _ he _
  exact ⟨⟨h', hr, (runExperiments_counters _ _ _ _ _ _ _ _ _).1 h' hr⟩,
    ⟨e, h2, runExperiments_error _ [("10 rdseq".toList, 5)] hs hd hx,
      (runExperiments_counters _ _ _ _ _ _ _ _ _).2 _ _ [] _ _ _ _ _ rfl hs hd hx⟩⟩

end Counters

section BatchViews

variable (env : Env)

theorem getGroupIsolation_keeps {R : Host → Host → Prop} [IsRefl Host R] (device : List Char) :
    Keeps R (getGroupIsolation device) := by
  constructor <;> intro h _ h' hg <;> cases hd : h.groupIsolation device <;>
    simp only [getGroupIsolation, bind_apply_ok (get_apply h), hd] at hg <;> cases hg <;>
    exact refl _

theorem setGroupIsolation_keeps {R : Host → Host → Prop} [IsRefl Host R]
    (hR : ∀ h g, R h { h with groupIsolation := g }) (device value : List Char) :
    Keeps R (setGroupIsolation device value) := by
  constructor <;> intro h _ h' hg <;> cases hd : h.groupIsolation device <;>
    simp only [setGroupIsolation, bind_apply_ok (get_apply h), hd] at hg <;> cases hg
  · exact hR _ _
  all_goals exact refl _

/-- The cgroup views live and created. -/
def Host.cgroups (h : Host) : List Cgroup × List Cgroup :=
  (h.live, h.created)

/-- The setup of `run_experiments` creates and releases no cgroup. -/
theorem setupHarness_keeps_cgroups (workvol : List Char) :
    Keeps (Unchanged Host.cgroups) (setupHarness env workvol) := by
  unfold setupHarness
  refine Keeps.get.bind fun h => (Keeps.ite (Keeps.throw _) (Keeps.pure _)).bind fun _ => ?_
  dsimp only
  exact Keeps.bind (Keeps.modify fun _ => by rfl) fun _ =>
    Keeps.bind (Keeps.ite (Keeps.modify fun _ => by rfl)
      (@Keeps.onWorld _ (Unchanged Host.cgroups) (fun _ _ => rfl) _)) fun _ =>
    Keeps.bind (Keeps.liftExcept _) fun _ =>
    Keeps.bind (Keeps.modify fun _ => by rfl) fun _ =>
    Keeps.bind (@Keeps.onSysfs _ (Unchanged Host.cgroups) (fun _ _ => rfl) _) fun _ =>
    Keeps.bind (getGroupIsolation_keeps _) fun _ =>
    Keeps.bind (setGroupIsolation_keeps (R := Unchanged Host.cgroups) (fun _ _ => rfl) _ _)
      fun _ => Keeps.bind (Keeps.modify fun _ => by rfl) fun _ => Keeps.pure _

/-- The end of `run_experiments` creates and releases no cgroup. -/
theorem finishHarness_keeps_cgroups (old : List Char) :
    Keeps (Unchanged Host.cgroups) (finishHarness old) :=
  Keeps.get.bind fun _ => (@Keeps.onWorld _ (Unchanged Host.cgroups) (fun _ _ => rfl) _).bind
    fun _ => setGroupIsolation_keeps (R := Unchanged Host.cgroups) (fun _ _ => rfl) _ _

/-- An experiment that returns released every cgroup view it created. -/
theorem runSingleExperiment_ok_live {experiment timeout : List Char} {seqReadMb : Nat}
    {killSlower pre post : Bool} {allowedError : Int} {h h' : Host}
    (hr : runSingleExperiment env experiment seqReadMb killSlower timeout allowedError pre post h =
      .ok () h') : h'.live.Perm h.live := by
  obtain ⟨exper, h1, hb, hr⟩ := bind_eq_ok hr
  rw [releaseContainers_ok env hr, experimentBody_ok env hb]
  exact diff_views_perm _ _

theorem forM_runBatchItem_live {seqReadMb : Nat} {killSlower pre post : Bool}
    {timeout : List Char} (l : List (List Char × Int)) {h h' : Host}
    (hd : l.forM (runBatchItem env seqReadMb killSlower timeout pre post) h = .ok () h') :
    h'.live.Perm h.live := by
  induction l generalizing h with
  | nil => cases hd; rfl
  | cons experiment l ih =>
      rw [List.forM_cons'] at hd
      obtain ⟨_, h1, h1r, hd⟩ := bind_eq_ok hd
      exact (ih hd).trans (runSingleExperiment_ok_live env h1r)

/-- `run_experiments` leaks no cgroup of an experiment that returned.  When it returns, the
live cgroup views are the ones before the run, up to order.  When an experiment raises
before `release_containers`, `run_experiments` raises the same exception, and the views
left live beyond those before the run are exactly the ones that experiment created. -/
theorem runExperiments_live (experiments : List (List Char × Int)) (seqReadMb : Nat)
    (workvol : List Char) (killSlower : Bool) (timeout : List Char) (pre post : Bool)
    (h : Host) :
    (∀ h', runExperiments env experiments seqReadMb workvol killSlower timeout pre post h =
        .ok () h' → h'.live.Perm h.live) ∧
    (∀ done experiment rest old h1 h2 e h3, experiments = done ++ experiment :: rest →
      setupHarness env workvol h = .ok old h1 →
      done.forM (runBatchItem env seqReadMb killSlower timeout pre post) h1 = .ok () h2 →
      experimentBody env experiment.1 seqReadMb killSlower timeout experiment.2 pre post h2 =
        .error e h3 →
      runExperiments env experiments seqReadMb workvol killSlower timeout pre post h =
          .error e h3 ∧
        h3.live.Perm (h.live ++ h3.created.drop h2.created.length)) := by
  constructor
  · intro h' hr
    obtain ⟨old, h1, hs, hr⟩ := bind_eq_ok hr
    obtain ⟨_, h2, hd, hf⟩ := bind_eq_ok hr
    have e1 : h1.live = h.live := congrArg Prod.fst ((setupHarness_keeps_cgroups env workvol).ok hs)
    have e3 : h'.live = h2.live := congrArg Prod.fst ((finishHarness_keeps_cgroups old).ok hf)
    rw [e3, ← e1]
    exact forM_runBatchItem_live env experiments hd
  · intro done experiment rest old h1 h2 e h3 hb hs hd hx
    refine ⟨hb ▸ runExperiments_error env done hs hd (bind_apply_error hx), ?_⟩
    have e1 : h1.live = h.live := congrArg Prod.fst ((setupHarness_keeps_cgroups env workvol).ok hs)
    rw [Grows.live_eq ((experimentBody_keeps env onWorld_grows (fun _ _ _ => Grows.of_eq rfl rfl)
      (fun _ new => ⟨new, rfl, rfl⟩) _ _ _ _ _ _ _).error hx), ← e1]
    exact (forM_runBatchItem_live env done hd).append_right _

theorem runExperiments_live_pre_cb :
    (∃ h', runExperiments (sampleEnv preCbRaises fun _ => ["sda 100".toList])
        [("10 rdseq".toList, 5)] 1 "/w".toList false [] false false sampleHost = .ok () h' ∧
      h'.live.Perm sampleHost.live) ∧
    (∃ e h3, runExperiments (sampleEnv preCbRaises fun _ => ["sda 100".toList])
        [("100".toList, 5)] 10 "/w".toList false [] true false sampleHost = .error e h3 ∧
      h3.created = [⟨"cpuset".toList, "/dev/cgroup/blkcgroupt0".toList⟩,
        ⟨"blkio".toList, "/dev/cgroup/blkcgroupt0".toList⟩] ∧ h3.live.Perm h3.created) := by
  have hp : parseExperiment "10 rdseq".toList = .ok [⟨10, some "rdseq".toList, 1⟩] :=
    parseExperiment_eq_ok_iff.2 (by decide)
  have hp100 : parseExperiment "100".toList = .ok [⟨100, none, 0⟩] :=
    parseExperiment_eq_ok_iff.2 (by decide)
  have hs := setupHarness_sample preCbRaises fun _ => ["sda 100".toList]
  obtain ⟨h2, hd⟩ : ∃ h2, [("10 rdseq".toList, 5)].forM (runBatchItem
      (sampleEnv preCbRaises fun _ => ["sda 100".toList]) 1 false [] false false)
      sampleReady = .ok () h2 := by
    simp only [List.forM_cons', List.forM_nil', runBatchItem, runSingleExperiment, experimentBody,
      prepareExperiment, hp]
    exact ⟨_, rfl⟩
  obtain ⟨h', hr⟩ := runExperiments_ok_of_loop _ hs hd
  obtain ⟨e, h3, hb, hc⟩ : ∃ e h3, experimentBody (sampleEnv preCbRaises fun _ => ["sda 100".toList])
      "100".toList 10 false [] 5 true false sampleReady = .error e h3 ∧
      h3.created = [⟨"cpuset".toList, "/dev/cgroup/blkcgroupt0".toList⟩,
        ⟨"blkio".toList, "/dev/cgroup/blkcgroupt0".toList⟩] := by
    unfold experimentBody prepareExperiment
    rw [hp100]
    exact ⟨_, _, rfl, rfl⟩
  exact ⟨⟨h', hr, (runExperiments_live _ _ _ _ _ _ _ _ _).1 h' hr⟩, ⟨e, h3,
    (runExperiments_live _ [("100".toList, 5)] 10 _ false [] true false _).2 [] _ [] _ _ _ _ _ rfl
      hs rfl hb |>.imp_right fun hl => ⟨hc, hl⟩⟩⟩

end BatchViews

section KillSlower

variable (env : Env)

/-- Every task of `enum_worker_runners` appends to `pids_file`. -/
theorem enumWorkerRunners_pidsFile {exper : List Built} {pidsFile timeout : List Char}
    {runners : List Task} (he : enumWorkerRunners exper pidsFile timeout = .ok runners) :
    ∀ t ∈ runners, t.pidsFile = pidsFile := by
  unfold enumWorkerRunners at he
  split at he
  · split at he
    · cases he
    · cases he
      simp only [List.mem_append, List.mem_singleton]
      rintro t (ht | rfl)
      · exact (mem_containerTasks ht).1
      · rfl
  · cases he
    exact fun t ht => (mem_containerTasks ht).1

/-- The preparation of an experiment names `pids_file` in the working directory with
`kill_slower`, and `''` without; with `kill_slower` it leaves it and `pids_file.moved`
absent. -/
theorem prepareExperiment_pidsFile {experiment : List Char} {seqReadMb : Nat}
    {killSlower : Bool} {h h' : Host} {planned : List Planned} {pidsFile : List Char}
    (hp : prepareExperiment env experiment seqReadMb killSlower h = .ok (planned, pidsFile) h') :
    pidsFile = (if killSlower then pathJoin h.workdir "pids_file".toList else []) ∧
      (killSlower = true →
        h'.files pidsFile = false ∧ h'.files (pidsFile ++ ".moved".toList) = false) := by
  obtain ⟨_, h1, hx, hp1⟩ := bind_eq_ok hp
  obtain ⟨-, rfl⟩ := liftExcept_eq_ok hx
  obtain ⟨_, h2, hm, hp2⟩ := bind_eq_ok hp1
  obtain ⟨_, h3, hw, hp3⟩ := bind_eq_ok hp2
  have km : Keeps (Unchanged Host.setup) (onWorld (modify fun w : World =>
      { w with inputFileCount := 0, outputFileCount := 0 })) :=
    onWorld_keeps_setup (Keeps.modify fun _ => rfl)
  have e3 : h3.setup = h1.setup :=
    ((onWorld_keeps_setup (Keeps.setupWorkerFiles _ _)).ok hw).trans (km.ok hm)
  obtain ⟨_, _, ⟨⟩, hp4⟩ := bind_eq_ok hp3
  obtain ⟨_, h4, hr, hp5⟩ := bind_eq_ok hp4
  obtain ⟨_, h6, hx1, hp6⟩ := bind_eq_ok hp5
  obtain ⟨_, h7, hx2, hp7⟩ := bind_eq_ok hp6
  obtain ⟨_, h8, hx3, hp8⟩ := bind_eq_ok hp7
  cases hp8
  cases external_eq_ok env hx1
  cases external_eq_ok env hx2
  cases external_eq_ok env hx3
  refine ⟨by rw [show h3.workdir = h1.workdir from congrArg Prod.fst e3], fun hk => ?_⟩
  subst hk
  rw [if_pos rfl] at hr ⊢
  obtain ⟨_, h5, hr1, hr2⟩ := bind_eq_ok hr
  have hf5 := congrArg World.files
    (EStateM.Result.ok.inj ((removeFile_apply _ _).symm.trans (onWorld_eq_ok hr1).1)).2
  have hf4 := congrArg World.files
    (EStateM.Result.ok.inj ((removeFile_apply _ _).symm.trans (onWorld_eq_ok hr2).1)).2
  simp only [if_true] at hf4 hf5 ⊢
  have hne : pathJoin h3.workdir "pids_file".toList ≠
      pathJoin h3.workdir "pids_file".toList ++ ".moved".toList := fun h => by
    simpa using congrArg List.length h
  exact ⟨by rw [← hf4, Function.update_noteq hne, ← hf5, Function.update_same],
    by rw [← hf4, Function.update_same]⟩

/-- The worker processes of a `kill_slower` experiment run a complete schedule of the
protocol from `KillState.init`, one task per runner, and pass its commands to
`utils.system`: each task echoes its pid once, every command is the `echo` or the `kill`
of a task, and `pids_file.moved` exists at the end when there was a task. -/
theorem runWorkerProcessesInParallel_killSlower {runners : List Task} {pidsFile : List Char}
    {h h' : Host} {u : Unit} (hr : runWorkerProcessesInParallel env runners h = .ok u h')
    (hpf : ∀ t ∈ runners, t.pidsFile = pidsFile) (hne : pidsFile ≠ []) :
    ∃ cmds, h'.system = h.system ++ cmds ∧ h'.workdir = h.workdir ∧
      (∀ i, cmds.count (echoPidCmd i pidsFile) = if i < runners.length then 1 else 0) ∧
      (∀ c ∈ cmds, ∃ i < runners.length, c = echoPidCmd i pidsFile ∨ c = killCmd i) ∧
      (runners ≠ [] → h'.files (pidsFile ++ ".moved".toList) = true) := by
  obtain ⟨_, _, hx, hr⟩ := bind_eq_ok hr
  cases external_eq_ok env hx
  obtain ⟨_, _, ⟨⟩, hr⟩ := bind_eq_ok hr
  have hw := (onWorld_eq_ok hr).1
  cases runners with
  | nil =>
      simp only [workerProcesses, sharedPidsFile, modify_apply, if_true,
        EStateM.Result.ok.injEq] at hw
      refine ⟨[], by rw [← hw.2, List.append_nil], by rw [← hw.2], fun i => ?_, by simp, ?_⟩
      · simp
      · exact fun hn => absurd rfl hn
  | cons t ts =>
      have hsh : sharedPidsFile (t :: ts) = pidsFile := hpf t (List.mem_cons_self _ _)
      obtain ⟨s, cmds, hl, hcount, hcmds, hmoved⟩ :=
        (env.schedule (t :: ts) h).2.runLogged pidsFile
      simp only [workerProcesses, modify_apply, hsh, hne, if_false, hl,
        EStateM.Result.ok.injEq] at hw
      refine ⟨cmds, by rw [← hw.2], by rw [← hw.2], hcount, hcmds, fun _ => ?_⟩
      rw [← hw.2]
      simp [hmoved (Nat.succ_pos _)]

/-- Once the containers exist, an experiment that returns changed the files and the
commands run only by its workers and then `remove_output_files`. -/
theorem conductExperiment_world {exper : List Built} {names : List (List Char)}
    {pidsFile timeout : List Char} {allowedError : Int} {pre post : Bool} {h h' : Host}
    {u : Unit}
    (hc : conductExperiment env exper names pidsFile timeout allowedError pre post h =
      .ok u h') :
    ∃ runners h1 h2, enumWorkerRunners exper pidsFile timeout = .ok runners ∧
      h1.toWorld = h.toWorld ∧ runWorkerProcessesInParallel env runners h1 = .ok () h2 ∧
      removeOutputFiles h2.toWorld = .ok () h'.toWorld := by
  have kcb : ∀ c (b : Bool), Keeps (Unchanged Host.toWorld)
      (if b then external env c else pure ()) := fun _ _ =>
    Keeps.ite (Keeps.external env _) (Keeps.pure _)
  obtain ⟨_, _, hpre, hc⟩ := bind_eq_ok hc
  obtain ⟨runners, h1, hl, hc1⟩ := bind_eq_ok hc
  obtain ⟨hen, rfl⟩ := liftExcept_eq_ok hl
  obtain ⟨_, h2, hw, hc2⟩ := bind_eq_ok hc1
  refine ⟨runners, h1, h2, hen, (kcb _ _).ok hpre, hw, ?_⟩
  obtain ⟨_, _, ⟨⟩, hc3⟩ := bind_eq_ok hc2
  obtain ⟨_, _, hx, hc4⟩ := bind_eq_ok hc3
  cases external_eq_ok env hx
  obtain ⟨_, _, hm, hc5⟩ := bind_eq_ok hc4
  cases (measureContainers_ok env hm).1
  obtain ⟨passing, _, hs, hc6⟩ := bind_eq_ok hc5
  obtain ⟨-, rfl⟩ := liftExcept_eq_ok hs
  rw [tally_apply] at hc6
  obtain ⟨_, h5, hpost, hc⟩ := bind_eq_ok hc6
  exact ((kcb _ _).ok hpost) ▸ (onWorld_eq_ok hc).1

/-- `pids_file.moved` is not an output file: `remove_output_files` keeps it. -/
theorem moved_not_writeFile (wd : List Char) (n : Nat) :
    ¬WriteFile wd n (pathJoin wd "pids_file".toList ++ ".moved".toList) := by
  rintro ⟨k, -, hk⟩
  rw [pathJoin_append (by decide) (by decide), outputFileName, dataFileName] at hk
  have := pathJoin_right_inj (by decide) (by simp) hk
  simp at this

end KillSlower

end BlkcgroupTest
