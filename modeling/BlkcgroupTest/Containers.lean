import BlkcgroupTest.Devices
import BlkcgroupTest.KillProtocol
import BlkcgroupTest.ParserOutcome
import BlkcgroupTest.ParserScan
import BlkcgroupTest.Workers
import Mathlib.Data.Multiset.Basic

/-!
# blkcgroup test: containers and the machine around the harness

`setup_containers` gives every container of an experiment a cpuset cgroup and a blkio
view of it, `measure_containers` reads the disk time of each blkio cgroup, and
`release_containers` hands both views back.  These functions talk to collaborators
(`cpuset`, `cgroup`, `utils`) whose code is not part of the repository: here a
collaborator is an `Env`, which says what each call returns and, for each call site and
state, whether it raises and with what.

* `Host`: the harness attributes of `World`, the device's `group_isolation` setting, the
  cgroup views handed out and not yet released (`live`), every view handed out
  (`created`, bookkeeping of the model), the experiment counters, and what
  `enable_blkio_and_cfq` reads of `/sys`.
* `Env`: the collaborators, the mount table and disk map the device lookup reads, and the
  interleaving the worker processes of an experiment take.
* `setupContainers`, `measureContainers`, `releaseContainers`, `enumWorkerRunners`.
* `sampleEnv` and `sampleHost`: a machine the concrete runs of the harness are stated on.

Results:

* `setupContainersFrom_ok`: when every container was created, both views of each of them
  are live, in order; `Keeps.setupContainersFrom` with `Grows`: also when a creation
  raises, every view created before it is still live.  `setupContainersFrom_testCgroups`:
  the only cgroups created are views of the test containers `blkcgroupt<i>`.
* `releaseContainers_ok` and `diff_views_perm`: releasing the views of a tree that were
  added last gives back the live views there were before (up to order).
* `parseExperiment_workerRepeat`: in an accepted experiment a container without a worker
  has `worker_repeat` `0`, and when the text has no `*0` a container has `worker_repeat`
  at least `1` exactly when it has a worker; `setup_worker_files` gives each container
  `worker_repeat` commands.  A worker with `*0` gets memory from `plan_container_size`
  and no command.
* `measureContainers_ok`: `measure_containers` changes no state, and gives a time to
  exactly the names of the containers whose `blkio.time` has a line for the device.
* `measureContainers_recorded`: the time it records for a name is `int(parts[-1])` of the
  last line for the device among the lines of the containers with that name, in tree
  order: each such line overwrites the one before.
* `enumWorkerRunners_tasks`: for an accepted experiment whose files and containers were set
  up, `enum_worker_runners` returns one task per `worker_repeat` of each container whose
  worker is not `sleep`, and one more with `pids_file` and `timeout`; never the
  `IndexError` of `tree[0]`.
-/

namespace BlkcgroupTest

/-- A view `cgroup.cgroup(subsystem, path)` of one cgroup directory. -/
structure Cgroup where
  subsystem : List Char
  path : List Char
deriving DecidableEq, Repr

/-- A container dict once `setup_container` gave it its cgroups and its `'name'`. -/
structure Built extends Planned where
  cpuCgroup : Cgroup
  blkioCgroup : Cgroup
  name : List Char

/-- One entry of the list `enum_worker_runners` returns: the arguments of `run_worker`. -/
structure Task where
  cmd : List Char
  cpuCgroup : Cgroup
  blkioCgroup : Cgroup
  pidsFile : List Char
deriving DecidableEq, Repr

/-- The calls into collaborators that can raise, with the arguments they are given. -/
inductive Call
  | dropCaches
  | rootCgroup (subsystem : List Char)
  | createContainer (cname : List Char) (mbytes blkioShares : Nat)
  | preExperimentCb (names : List (List Char))
  | runWorkerProcesses (runners : List Task)
  | getDeviceId (device : List Char)
  | getAttr (cgroup : Cgroup)
  | postExperimentCb (names : List (List Char))
  | release (cgroup : Cgroup)
deriving DecidableEq, Repr

/-- The machine as the harness sees it.  `groupIsolation d` is the content of
`/sys/block/d/queue/iosched/group_isolation`, `none` when the disk does not exist;
`sysfs` is what `enable_blkio_and_cfq` reads and writes. -/
structure Host extends World where
  device : List Char
  groupIsolation : List Char → Option (List Char)
  live : List Cgroup
  created : List Cgroup
  triedExperiments : Nat
  passedExperiments : Nat
  sysfs : Sysfs

/-- What the collaborators return, and when they raise.  The device lookup of
`run_experiments` reads the mount table `mounts` and, with its argument `google_hacks`,
the output `diskMap` of `tunedisknames printmap` when that tool exists.  `schedule` is the
interleaving the operating system gives the worker processes of an experiment: one in
which every process can take each of its actions when it does, and runs to its end. -/
structure Env where
  raises : Call → Host → Option PyError
  rootName : List Char
  cpusetHierarchy : Bool
  containerPath : List Char → List Char
  cgroupName : List Char → List Char
  timeLines : Cgroup → List (List Char)
  deviceId : List Char → List Char
  mounts : PosixMounts
  srcdir : List Char
  googleHacks : Bool
  tunerExists : Bool
  diskMap : List (List Char)
  schedule : (runners : List Task) → Host → { acts : List Action // Complete runners.length acts }

/-- The device `run_experiments` measures: `device_holding_file(workvol)`, passed through
`actual_disk_device` with `google_hacks`. -/
def Env.device (env : Env) (workvol : List Char) : Except PyError (List Char) := do
  let device ← env.mounts.deviceHolding workvol
  if env.googleHacks then actualDiskDevice env.tunerExists env.diskMap device
  else pure device

/-- The device of `Env.device`, when the lookup finds one. -/
def Env.deviceHolding (env : Env) (workvol : List Char) : List Char :=
  match env.device workvol with
  | .ok device => device
  | .error _ => []

theorem Env.deviceHolding_of_device {env : Env} {workvol device : List Char}
    (h : env.device workvol = .ok device) : env.deviceHolding workvol = device := by
  simp [Env.deviceHolding, h]

section SampleMachine

/-- A machine to run the model on: the calls raise as `raises` says, a container's cgroup is
under `/dev/cgroup`, `blkio.time` of a cgroup has the lines `timeLines`, and `/w` is the
mount point of `/dev/sda1`.  The worker processes of an experiment run one after the
other. -/
def sampleEnv (raises : Call → Host → Option PyError) (timeLines : Cgroup → List (List Char)) :
    Env where
  raises := raises
  rootName := []
  cpusetHierarchy := true
  containerPath cname := "/dev/cgroup/".toList ++ cname
  cgroupName := id
  timeLines := timeLines
  deviceId := id
  mounts := ⟨"/".toList, fun p => p == "/w".toList, ["/dev/sda1 /w ext4 rw 0 0".toList], rfl⟩
  srcdir := "/src".toList
  googleHacks := false
  tunerExists := false
  diskMap := []
  schedule runners _ := ⟨oneByOne runners.length, oneByOne_complete _⟩

/-- The machine of `sampleEnv` before the harness runs: `/w` is its one file, and every disk
runs CFQ with `group_isolation` at `0`. -/
def sampleHost : Host where
  workdir := []
  srcdir := []
  inputFileCount := 0
  outputFileCount := 0
  existingInputFiles _ := none
  files p := p == "/w".toList
  system := []
  device := []
  groupIsolation _ := some "0".toList
  live := []
  created := []
  triedExperiments := 0
  passedExperiments := 0
  sysfs := ⟨fun _ => true, true, fun _ => "[cfq]".toList, []⟩

theorem sampleEnv_device (raises : Call → Host → Option PyError)
    (timeLines : Cgroup → List (List Char)) :
    (sampleEnv raises timeLines).device "/w".toList = .ok "sda".toList := by
  rw [Env.device,
    PosixMounts.deviceHolding_of_ismount (sampleEnv raises timeLines).mounts "/w".toList rfl]
  rfl

end SampleMachine

/-- The two cgroup views of each container, in the order `release_containers` releases
them. -/
def views (tree : List Built) : List Cgroup :=
  tree.flatMap fun container => [container.cpuCgroup, container.blkioCgroup]

@[simp] theorem views_nil : views [] = [] := rfl

@[simp] theorem views_cons (container : Built) (tree : List Built) :
    views (container :: tree) = container.cpuCgroup :: container.blkioCgroup :: views tree :=
  rfl

/-- `h'` has the cgroup views of `h` and some more, created and still live. -/
def Grows (h h' : Host) : Prop :=
  ∃ new, h'.live = h.live ++ new ∧ h'.created = h.created ++ new

instance : IsRefl Host Grows :=
  ⟨fun h => ⟨[], by simp, by simp⟩⟩

instance : IsTrans Host Grows :=
  ⟨fun _ _ _ ⟨n1, h1, h1'⟩ ⟨n2, h2, h2'⟩ =>
    ⟨n1 ++ n2, by simp [h1, h2], by simp [h1', h2']⟩⟩

theorem Grows.live_eq {h h' : Host} (hg : Grows h h') :
    h'.live = h.live ++ h'.created.drop h.created.length := by
  obtain ⟨new, hl, hc⟩ := hg
  simp [hl, hc]

section Containers

variable (env : Env)

/-- A call into a collaborator: it raises what `env` says, and changes nothing the model
tracks. -/
def external (c : Call) : EStateM PyError Host Unit := fun h =>
  match env.raises c h with
  | some e => .error e h
  | none => .ok () h

theorem external_eq_ok {c : Call} {h h' : Host} {u : Unit} (hx : external env c h = .ok u h') :
    h' = h := by
  unfold external at hx
  split at hx <;> cases hx
  rfl

theorem Keeps.external {R : Host → Host → Prop} [IsRefl Host R] (c : Call) :
    Keeps R (external env c) := by
  constructor <;> intro h _ h' hx <;> unfold BlkcgroupTest.external at hx <;>
    split at hx <;> cases hx <;> exact refl h

/-- A harness method on the fields of `World`, run on the whole machine. -/
def onWorld {α : Type} (x : EStateM PyError World α) : EStateM PyError Host α := fun h =>
  match x h.toWorld with
  | .ok a w => .ok a { h with toWorld := w }
  | .error e w => .error e { h with toWorld := w }

theorem onWorld_eq_ok {α : Type} {x : EStateM PyError World α} {h h' : Host} {a : α}
    (hx : onWorld x h = .ok a h') :
    x h.toWorld = .ok a h'.toWorld ∧ h' = { h with toWorld := h'.toWorld } := by
  unfold onWorld at hx
  split at hx <;> cases hx
  exact ⟨by assumption, rfl⟩

/-- A method of the harness keeps every relation that holds whatever it does to `World`. -/
theorem Keeps.onWorld {α : Type} {R : Host → Host → Prop}
    (hR : ∀ (h : Host) (w : World), R h { h with toWorld := w }) (x : EStateM PyError World α) :
    Keeps R (onWorld x) := by
  constructor <;> intro h _ h' hx <;> unfold BlkcgroupTest.onWorld at hx <;>
    split at hx <;> cases hx <;> exact hR _ _

/-- `enable_blkio_and_cfq`, on what it reads and writes of `/sys`, run on the whole
machine. -/
def onSysfs {α : Type} (x : EStateM PyError Sysfs α) : EStateM PyError Host α := fun h =>
  match x h.sysfs with
  | .ok a s => .ok a { h with sysfs := s }
  | .error e s => .error e { h with sysfs := s }

theorem onSysfs_eq_ok {α : Type} {x : EStateM PyError Sysfs α} {h h' : Host} {a : α}
    (hx : onSysfs x h = .ok a h') : h' = { h with sysfs := h'.sysfs } := by
  unfold onSysfs at hx
  split at hx <;> cases hx
  rfl

theorem Keeps.onSysfs {α : Type} {R : Host → Host → Prop}
    (hR : ∀ (h : Host) (s : Sysfs), R h { h with sysfs := s }) (x : EStateM PyError Sysfs α) :
    Keeps R (onSysfs x) := by
  constructor <;> intro h _ h' hx <;> unfold BlkcgroupTest.onSysfs at hx <;>
    split at hx <;> cases hx <;> exact hR _ _

/-- A relation between worlds, read on the worlds of two hosts. -/
def OnWorld (R : World → World → Prop) (h h' : Host) : Prop :=
  R h.toWorld h'.toWorld

instance (R : World → World → Prop) [IsRefl World R] : IsRefl Host (OnWorld R) :=
  ⟨fun _ => refl (r := R) _⟩

instance (R : World → World → Prop) [IsTrans World R] : IsTrans Host (OnWorld R) :=
  ⟨fun _ _ _ => IsTrans.trans (r := R) _ _ _⟩

theorem keeps_onWorld {α : Type} {R : World → World → Prop} {x : EStateM PyError World α}
    (hx : Keeps R x) : Keeps (OnWorld R) (onWorld x) := by
  constructor <;> intro h _ h' hw <;> unfold BlkcgroupTest.onWorld at hw <;> split at hw <;>
    cases hw
  · exact hx.ok ‹_›
  · exact hx.error ‹_›

theorem onWorld_refl {R : World → World → Prop} [IsRefl World R] {h h' : Host}
    (e : h'.toWorld = h.toWorld) : OnWorld R h h' := by
  unfold OnWorld
  rw [e]
  exact refl _

/-- `TEST_CGROUP_PREFIX`. -/
def testCgroupPrefix : List Char :=
  "blkcgroupt".toList

/-- `'%s%d' % (TEST_CGROUP_PREFIX, i)`. -/
def testCgroupName (i : Nat) : List Char :=
  testCgroupPrefix ++ decimal i

/-- `CONTAINER_MBYTES`. -/
def containerMbytes : Nat :=
  360

/-- `plan_container_size(container)`. -/
def planContainerSize (container : Planned) : Nat :=
  if container.worker.isSome then containerMbytes else 0

theorem planContainerSize_pos (container : Planned) :
    0 < planContainerSize container ↔ container.worker ≠ none := by
  cases h : container.worker <;> simp [planContainerSize, containerMbytes, h]

/-- A `*0` in the text `parse_experiment` reads, which ends with the `;` it appends, is a
`*0` of the experiment. -/
theorem starZero_of_append_semicolon {text : List Char} (h : "*0".toList <:+: text ++ [';']) :
    "*0".toList <:+: text := by
  obtain ⟨s, t, hst⟩ := h
  rcases List.eq_nil_or_concat t with rfl | ⟨t', b, rfl⟩
  · have := congrArg List.getLast? hst
    rw [List.append_nil, show "*0".toList = ['*', '0'] from rfl] at this
    simp at this
  · rw [List.concat_eq_append, ← List.append_assoc] at hst
    exact ⟨s, t', (List.append_inj' hst rfl).1⟩

/-- In an accepted experiment a container without a worker has `worker_repeat` `0`, and
when the text has no `*0`, a container has `worker_repeat` at least `1` exactly when it has
a worker; `setup_worker_files` keeps the containers and gives each `worker_repeat`
commands, and `plan_container_size` gives memory to those with a worker. -/
theorem parseExperiment_workerRepeat (text : List Char) (cs : List Container)
    (h : parseExperiment text = .ok cs) :
    (∀ c ∈ cs, c.worker = none → c.workerRepeat = 0) ∧
    (¬"*0".toList <:+: text → ∀ c ∈ cs, 1 ≤ c.workerRepeat ↔ c.worker ≠ none) ∧
    ∀ seqReadMb w planned w', setupWorkerFiles seqReadMb cs w = .ok planned w' →
      planned.map Planned.toContainer = cs ∧
      ∀ p ∈ planned, p.workerCmds.length = p.workerRepeat ∧
        (0 < planContainerSize p ↔ p.worker ≠ none) := by
  have h0 : ∀ c ∈ cs, c.worker = none → c.workerRepeat = 0 := fun c hc hw => by
    obtain ⟨_, _, -, ht⟩ := parseExperiment_mem h c hc
    rcases parseContainer_workerRepeat ht with ⟨-, h0⟩ | ⟨hw', -⟩
    · exact h0
    · exact absurd hw hw'
  refine ⟨h0, fun hz c hc => ⟨fun h1 hw => by simp [h0 c hc hw] at h1, fun hw => ?_⟩,
    fun _ _ _ _ hp => ?_⟩
  · obtain ⟨_, _, hsuf, ht⟩ := parseExperiment_mem h c hc
    exact (parseContainer_workerRepeat_pos ht hw).resolve_right fun hi =>
      hz (starZero_of_append_semicolon (hi.trans hsuf.isInfix))
  · obtain ⟨hmap, hlen⟩ := setupWorkerFiles_workerCmds hp
    exact ⟨hmap, fun p hp => ⟨hlen p hp, planContainerSize_pos p⟩⟩

theorem parseExperiment_workerRepeat_rdseq :
    ∃ cs, parseExperiment "500 rdseq*2, 500".toList = .ok cs ∧
      (∀ c ∈ cs, c.worker = none → c.workerRepeat = 0) ∧
      ¬"*0".toList <:+: "500 rdseq*2, 500".toList ∧
      (∀ c ∈ cs, 1 ≤ c.workerRepeat ↔ c.worker ≠ none) ∧
      ∀ seqReadMb w planned w', setupWorkerFiles seqReadMb cs w = .ok planned w' →
        planned.map Planned.toContainer = cs ∧
        ∀ p ∈ planned, p.workerCmds.length = p.workerRepeat ∧
          (0 < planContainerSize p ↔ p.worker ≠ none) := by
  have h : parseExperiment "500 rdseq*2, 500".toList =
      .ok [⟨500, some "rdseq".toList, 2⟩, ⟨500, none, 0⟩] :=
    parseExperiment_eq_ok_iff.2 (by decide)
  have hz : ¬"*0".toList <:+: "500 rdseq*2, 500".toList := by decide
  obtain ⟨h0, h1, h2⟩ := parseExperiment_workerRepeat _ _ h
  exact ⟨_, h, h0, hz, h1 hz, h2⟩

/-- `'10 rdseq*0'` is accepted with a worker and `worker_repeat` `0`: the container gets
its 360 MB from `plan_container_size` and no worker command. -/
theorem parseExperiment_rdseq_star_zero :
    parseExperiment "10 rdseq*0".toList = .ok [⟨10, some "rdseq".toList, 0⟩] ∧
      setupWorkerFiles 100 [⟨10, some "rdseq".toList, 0⟩]
          ⟨"/w".toList, "/s".toList, 0, 0, fun _ => none, fun _ => false, []⟩ =
        .ok [⟨⟨10, some "rdseq".toList, 0⟩, []⟩]
          ⟨"/w".toList, "/s".toList, 0, 0, fun _ => none, fun _ => false, []⟩ ∧
      planContainerSize ⟨⟨10, some "rdseq".toList, 0⟩, []⟩ = 360 :=
  ⟨parseExperiment_eq_ok_iff.2 (by decide), rfl, rfl⟩

/-- `setup_container(container, cname, ...)`: create the cgroup below the root cpuset,
view it as a cpuset and as a blkio cgroup, and name the container after it. -/
def setupContainer (container : Planned) (cname : List Char) : EStateM PyError Host Built := do
  let mbytes := planContainerSize container
  let blkioShares := container.dtf
  if !env.cpusetHierarchy then
    throw (.valueError "cpuset does not yet support separate mount of io cgroups".toList)
  external env (.createContainer cname mbytes blkioShares)
  let path := env.containerPath cname
  let cpuCgroup : Cgroup := ⟨"cpuset".toList, path⟩
  let blkioCgroup : Cgroup := ⟨"blkio".toList, path⟩
  modify fun h => { h with live := h.live ++ [cpuCgroup, blkioCgroup],
                           created := h.created ++ [cpuCgroup, blkioCgroup] }
  let name := env.cgroupName path
  let name := if env.rootName ≠ [] then name.drop (env.rootName.length + 1) else name
  return { container with cpuCgroup := cpuCgroup, blkioCgroup := blkioCgroup, name := name }

/-- The loop of `setup_containers` from index `i`: the containers it built and
`container_names`. -/
def setupContainersFrom :
    Nat → List Planned → EStateM PyError Host (List Built × List (List Char))
  | _, [] => pure ([], [])
  | i, container :: tree => do
      let built ← setupContainer env container (testCgroupName i)
      let (rest, names) ← setupContainersFrom (i + 1) tree
      return (built :: rest, testCgroupName i :: names)

/-- `setup_containers(tree, device, ...)`. -/
def setupContainers (tree : List Planned) : EStateM PyError Host (List Built × List (List Char)) :=
  setupContainersFrom env 0 tree

/-- `container['blkio_cgroup'].get_attr('time')`. -/
def getAttrTime (cgroup : Cgroup) : EStateM PyError Host (List (List Char)) := do
  external env (.getAttr cgroup)
  return env.timeLines cgroup

/-- One line of `blkio.time`: `parts = line.split()`, and when `parts[0] == device` the
container's time is `int(parts[-1])`. -/
def measureLine (device name : List Char) (timevals : List Char → Option Int)
    (line : List Char) : Except PyError (List Char → Option Int) :=
  match pySplit line with
  | [] => .error .indexError
  | part :: parts =>
      if part = device then
        (pyInt ((part :: parts).getLast (List.cons_ne_nil _ _))).map fun t =>
          Function.update timevals name (some t)
      else .ok timevals

/-- `measure_containers(tree, device, timevals)`, returning the filled `timevals`. -/
def measureContainers (tree : List Built) (device : List Char)
    (timevals : List Char → Option Int) : EStateM PyError Host (List Char → Option Int) :=
  tree.foldlM (fun timevals container => do
    let lines ← getAttrTime env container.blkioCgroup
    liftExcept (lines.foldlM (measureLine device container.name) timevals)) timevals

/-- `cgroup.release()`. -/
def releaseCgroup (cgroup : Cgroup) : EStateM PyError Host Unit := do
  external env (.release cgroup)
  modify fun h => { h with live := h.live.erase cgroup }

/-- `release_containers(exper)`. -/
def releaseContainers (exper : List Built) : EStateM PyError Host Unit :=
  exper.forM fun container => do
    releaseCgroup env container.cpuCgroup
    releaseCgroup env container.blkioCgroup

/-- `enum_worker_runners(tree, pids_file, timeout)`: a task per non-empty command, and
with `pids_file` and `timeout` set a `sleep` task in the first container. -/
def enumWorkerRunners (tree : List Built) (pidsFile timeout : List Char) :
    Except PyError (List Task) :=
  let tasks := tree.flatMap fun container =>
    (container.workerCmds.map WorkerCmd.render).filterMap fun cmd =>
      if cmd = [] then none
      else some ⟨cmd, container.cpuCgroup, container.blkioCgroup, pidsFile⟩
  if pidsFile ≠ [] ∧ timeout ≠ [] then
    match tree with
    | [] => .error .indexError
    | container :: _ =>
        .ok (tasks ++ [⟨"sleep ".toList ++ timeout, container.cpuCgroup, container.blkioCgroup,
          pidsFile⟩])
  else .ok tasks

theorem setupContainer_ok {container : Planned} {cname : List Char} {h h' : Host} {b : Built}
    (hs : setupContainer env container cname h = .ok b h') :
    b.toPlanned = container ∧
      h' = { h with live := h.live ++ [b.cpuCgroup, b.blkioCgroup],
                    created := h.created ++ [b.cpuCgroup, b.blkioCgroup] } ∧
      b.cpuCgroup = ⟨"cpuset".toList, env.containerPath cname⟩ ∧
      b.blkioCgroup = ⟨"blkio".toList, env.containerPath cname⟩ := by
  cases hc : env.cpusetHierarchy <;>
    cases hr : env.raises (.createContainer cname (planContainerSize container) container.dtf) h <;>
    simp [setupContainer, external, hc, hr, bind_apply] at hs
  obtain ⟨rfl, rfl⟩ := hs
  exact ⟨rfl, rfl, rfl, rfl⟩

theorem setupContainer_error {container : Planned} {cname : List Char} {h h' : Host}
    {e : PyError} (hs : setupContainer env container cname h = .error e h') : h' = h := by
  cases hc : env.cpusetHierarchy <;>
    cases hr : env.raises (.createContainer cname (planContainerSize container) container.dtf) h <;>
    simp [setupContainer, external, hc, hr, bind_apply, -bind_pure_comp] at hs <;>
    exact hs.2.symm

/-- When every container was created, `setup_containers` built one container per planned
one, named `blkcgroupt<i>` in order, and both views of each are live. -/
theorem setupContainersFrom_ok {i : Nat} {tree : List Planned} {h h' : Host} {bs : List Built}
    {names : List (List Char)} (hs : setupContainersFrom env i tree h = .ok (bs, names) h') :
    bs.map Built.toPlanned = tree ∧ names = (List.range' i tree.length).map testCgroupName ∧
      h' = { h with live := h.live ++ views bs, created := h.created ++ views bs } := by
  induction tree generalizing i h bs names with
  | nil =>
      cases hs
      simp
  | cons container tree ih =>
      obtain ⟨b, h1, hb, hs⟩ := bind_eq_ok hs
      obtain ⟨⟨rest, names'⟩, h2, hr, hs⟩ := bind_eq_ok hs
      cases hs
      obtain ⟨rfl, rfl, -⟩ := setupContainer_ok env hb
      obtain ⟨rfl, rfl, rfl⟩ := ih hr
      simp [List.range'_succ]

/-- `setup_containers` keeps every relation that holds when views are created; with
`Grows`: also when the creation of a container raises, every view created before it is
live. -/
theorem Keeps.setupContainersFrom {R : Host → Host → Prop} [IsRefl Host R] [IsTrans Host R]
    (hR : ∀ h new, R h { h with live := h.live ++ new, created := h.created ++ new })
    (i : Nat) (tree : List Planned) : Keeps R (setupContainersFrom env i tree) := by
  induction tree generalizing i with
  | nil => exact Keeps.pure _
  | cons container tree ih =>
      refine Keeps.bind ⟨fun hb => ?_, fun hb => ?_⟩
        fun _ => (ih (i + 1)).bind fun _ => Keeps.pure _
      · obtain ⟨-, rfl, -⟩ := setupContainer_ok env hb
        exact hR _ _
      · rw [setupContainer_error env hb]
        exact refl _

/-- From `h` to `h'` the only cgroups created are views of test containers
`blkcgroupt<i>`. -/
def TestCgroups (h h' : Host) : Prop :=
  ∃ new, h'.created = h.created ++ new ∧
    ∀ cg ∈ new, ∃ i, cg.path = env.containerPath (testCgroupName i)

instance : IsRefl Host (TestCgroups env) :=
  ⟨fun _ => ⟨[], by simp, by simp⟩⟩

instance : IsTrans Host (TestCgroups env) :=
  ⟨fun _ _ _ ⟨n1, e1, t1⟩ ⟨n2, e2, t2⟩ =>
    ⟨n1 ++ n2, by rw [e2, e1, List.append_assoc],
      fun cg hc => (List.mem_append.1 hc).elim (t1 cg) (t2 cg)⟩⟩

theorem TestCgroups.of_eq {h h' : Host} (hc : h'.created = h.created) : TestCgroups env h h' :=
  ⟨[], by rw [hc, List.append_nil], by simp⟩

/-- `setup_containers` creates only the views of its containers `blkcgroupt<i>`. -/
theorem setupContainersFrom_testCgroups (i : Nat) (tree : List Planned) :
    Keeps (TestCgroups env) (setupContainersFrom env i tree) := by
  induction tree generalizing i with
  | nil => exact Keeps.pure _
  | cons container tree ih =>
      refine Keeps.bind ⟨fun hb => ?_, fun hb => ?_⟩
        fun _ => (ih (i + 1)).bind fun _ => Keeps.pure _
      · obtain ⟨-, rfl, hcpu, hblkio⟩ := setupContainer_ok env hb
        refine ⟨_, rfl, fun cg hc => ⟨i, ?_⟩⟩
        rcases List.mem_pair.1 hc with rfl | rfl
        · rw [hcpu]
        · rw [hblkio]
      · rw [setupContainer_error env hb]
        exact refl _

theorem Keeps.measureContainers {R : Host → Host → Prop} [IsRefl Host R] [IsTrans Host R]
    (tree : List Built) (device : List Char) (timevals : List Char → Option Int) :
    Keeps R (measureContainers env tree device timevals) :=
  Keeps.foldlM (fun _ _ _ => ((Keeps.external env _).bind fun _ => Keeps.pure _).bind
    fun _ => Keeps.liftExcept _) _

theorem releaseCgroup_ok {cgroup : Cgroup} {h h' : Host} {u : Unit}
    (hr : releaseCgroup env cgroup h = .ok u h') : h' = { h with live := h.live.erase cgroup } := by
  obtain ⟨_, h1, hx, hr⟩ := bind_eq_ok hr
  cases external_eq_ok env hx
  cases hr
  rfl

theorem Keeps.releaseContainers {R : Host → Host → Prop} [IsRefl Host R] [IsTrans Host R]
    (hR : ∀ h l, R h { h with live := l }) (exper : List Built) :
    Keeps R (releaseContainers env exper) :=
  Keeps.forM fun _ _ =>
    ((Keeps.external env _).bind fun _ => Keeps.modify fun h => hR h _).bind fun _ =>
      (Keeps.external env _).bind fun _ => Keeps.modify fun h => hR h _

/-- `release_containers` drops the views of the tree from the live ones, in order. -/
theorem releaseContainers_ok {exper : List Built} {h h' : Host} {u : Unit}
    (hr : releaseContainers env exper h = .ok u h') :
    h' = { h with live := h.live.diff (views exper) } := by
  induction exper generalizing h with
  | nil =>
      cases hr
      simp
  | cons container exper ih =>
      rw [releaseContainers, List.forM_cons'] at hr
      obtain ⟨_, h1, h1r, hr⟩ := bind_eq_ok hr
      obtain ⟨_, h2, h2r, h3r⟩ := bind_eq_ok h1r
      cases releaseCgroup_ok env h2r
      cases releaseCgroup_ok env h3r
      cases ih hr
      simp

/-- Releasing the views a tree added last gives back the views there were before. -/
theorem diff_views_perm (live : List Cgroup) (tree : List Built) :
    ((live ++ views tree).diff (views tree)).Perm live := by
  rw [← Multiset.coe_eq_coe, ← Multiset.coe_sub, ← Multiset.coe_add, add_tsub_cancel_right]

end Containers

section Measured

variable (env : Env)

/-- A line of `blkio.time` whose first field is `device`: the line `measure_containers`
takes the time from. -/
def isDeviceLine (device line : List Char) : Bool :=
  (pySplit line).head? == some device

theorem measureLine_ok {device name line : List Char} {tv tv' : List Char → Option Int}
    (h : measureLine device name tv line = .ok tv') :
    (∀ n, n ≠ name → tv' n = tv n) ∧
      (tv' name).isSome = ((tv name).isSome || isDeviceLine device line) := by
  unfold measureLine at h
  unfold isDeviceLine
  split at h
  · cases h
  next part parts hsplit =>
    rw [hsplit]
    split at h
    next hd =>
      subst hd
      cases hp : pyInt ((part :: parts).getLast (List.cons_ne_nil _ _)) <;> rw [hp] at h <;> cases h
      exact ⟨fun n hn => Function.update_noteq hn _ _, by simp⟩
    next hd =>
      cases h
      simp [hd]

theorem foldlM_measureLine_ok {device name : List Char} {lines : List (List Char)}
    {tv tv' : List Char → Option Int} (h : lines.foldlM (measureLine device name) tv = .ok tv') :
    (∀ n, n ≠ name → tv' n = tv n) ∧
      (tv' name).isSome = ((tv name).isSome || lines.any (isDeviceLine device)) := by
  induction lines generalizing tv with
  | nil => cases h; simp
  | cons line lines ih =>
      rw [List.foldlM_cons] at h
      cases h1 : measureLine device name tv line with
      | error e => rw [h1] at h; cases h
      | ok tv1 =>
          rw [h1] at h
          obtain ⟨hn1, hs1⟩ := measureLine_ok h1
          obtain ⟨hn, hs⟩ := ih h
          refine ⟨fun n hne => (hn n hne).trans (hn1 n hne), ?_⟩
          rw [hs, hs1, List.any_cons, Bool.or_assoc]

/-- Whether some container of `tree` named `name` has a line for `device` in its
`blkio.time`. -/
def timedBy (device : List Char) (tree : List Built) (name : List Char) : Bool :=
  tree.any fun c => c.name == name && (env.timeLines c.blkioCgroup).any (isDeviceLine device)

theorem getAttrTime_ok {cgroup : Cgroup} {h h' : Host} {lines : List (List Char)}
    (hg : getAttrTime env cgroup h = .ok lines h') : lines = env.timeLines cgroup ∧ h' = h := by
  obtain ⟨_, h1, hx, hg⟩ := bind_eq_ok hg
  cases external_eq_ok env hx
  cases hg
  exact ⟨rfl, rfl⟩

/-- `measure_containers` fills in a time for exactly the names of the containers whose
`blkio.time` has a line for the device. -/
theorem measureContainers_ok {tree : List Built} {device : List Char}
    {tv tv' : List Char → Option Int} {h h' : Host}
    (hm : measureContainers env tree device tv h = .ok tv' h') :
    h' = h ∧ ∀ n, (tv' n).isSome = ((tv n).isSome || timedBy env device tree n) := by
  induction tree generalizing tv h with
  | nil => cases hm; simp [timedBy]
  | cons c tree ih =>
      rw [measureContainers, List.foldlM_cons] at hm
      obtain ⟨tv1, h1, hc, hrest⟩ := bind_eq_ok hm
      obtain ⟨lines, h2, hg, hl⟩ := bind_eq_ok hc
      obtain ⟨rfl, rfl⟩ := getAttrTime_ok env hg
      obtain ⟨hf, rfl⟩ := liftExcept_eq_ok hl
      obtain ⟨hn1, hs1⟩ := foldlM_measureLine_ok hf
      obtain ⟨rfl, ih⟩ := ih hrest
      refine ⟨rfl, fun n => ?_⟩
      rw [ih]
      by_cases hn : n = c.name
      · subst hn; rw [hs1]; simp [timedBy, Bool.or_assoc]
      · rw [hn1 n hn]; simp [timedBy, beq_eq_false_iff_ne.mpr (Ne.symm hn)]

end Measured

section LastLine

variable (env : Env)

/-- The last line for `device` among `lines`.  Each line for the device overwrites
`timevals[container['name']]`, so the time recorded for a name is that of the last such
line among the lines of the containers with that name, in tree order. -/
def lastDeviceLine (device : List Char) (lines : List (List Char)) : Option (List Char) :=
  (lines.filter (isDeviceLine device)).getLast?

/-- The `blkio.time` lines of the containers of `tree` named `name`, in tree order. -/
def timeLinesOf (tree : List Built) (name : List Char) : List (List Char) :=
  (tree.filter (·.name == name)).flatMap fun c => env.timeLines c.blkioCgroup

/-- `timevals[name]` went from `old` to `v` over lines whose last line for the device is
`last`: unchanged when there is none, and `int(parts[-1])` of it otherwise. -/
def Recorded (old : Option Int) (last : Option (List Char)) (v : Option Int) : Prop :=
  (last = none ∧ v = old) ∨ ∃ line field t, last = some line ∧
    (pySplit line).getLast? = some field ∧ pyInt field = .ok t ∧ v = some t

theorem recorded_none (old : Option Int) : Recorded old none old :=
  .inl ⟨rfl, rfl⟩

/-- Reading more lines: the last line of the later ones wins, if there is one. -/
theorem Recorded.then {old v v' : Option Int} {l l' : Option (List Char)}
    (h : Recorded old l v) (h' : Recorded v l' v') : Recorded old (l'.or l) v' := by
  rcases h' with ⟨rfl, rfl⟩ | ⟨line, field, t, rfl, hf, ht, rfl⟩
  · simpa using h
  · exact .inr ⟨line, field, t, rfl, hf, ht, rfl⟩

theorem lastDeviceLine_append (device : List Char) (l l' : List (List Char)) :
    lastDeviceLine device (l ++ l') = (lastDeviceLine device l').or (lastDeviceLine device l) := by
  simp [lastDeviceLine, List.filter_append]

theorem measureLine_recorded {device name line : List Char} {tv tv' : List Char → Option Int}
    (h : measureLine device name tv line = .ok tv') :
    (∀ n, n ≠ name → tv' n = tv n) ∧
      Recorded (tv name) (lastDeviceLine device [line]) (tv' name) := by
  unfold measureLine at h
  split at h
  · cases h
  next part parts hsplit =>
    split at h
    next hd =>
      subst hd
      cases hp : pyInt ((part :: parts).getLast (List.cons_ne_nil _ _)) <;> rw [hp] at h <;>
        cases h
      refine ⟨fun n hn => Function.update_noteq hn _ _, .inr ⟨line, _, _, ?_, ?_, hp, by simp⟩⟩
      · simp [lastDeviceLine, isDeviceLine, hsplit]
      · rw [hsplit, List.getLast?_eq_getLast _ (List.cons_ne_nil _ _)]
    next hd =>
      cases h
      exact ⟨fun _ _ => rfl, .inl ⟨by simp [lastDeviceLine, isDeviceLine, hsplit, hd], rfl⟩⟩

theorem foldlM_measureLine_recorded {device name : List Char} {lines : List (List Char)}
    {tv tv' : List Char → Option Int} (h : lines.foldlM (measureLine device name) tv = .ok tv') :
    (∀ n, n ≠ name → tv' n = tv n) ∧
      Recorded (tv name) (lastDeviceLine device lines) (tv' name) := by
  induction lines using List.reverseRecOn generalizing tv' with
  | nil =>
      cases h
      exact ⟨fun _ _ => rfl, recorded_none _⟩
  | append_singleton lines line ih =>
      rw [List.foldlM_append] at h
      cases h1 : lines.foldlM (measureLine device name) tv with
      | error e => simp [h1, bind, Except.bind] at h
      | ok tv1 =>
          simp only [h1, bind, Except.bind, List.foldlM_cons, List.foldlM_nil] at h
          cases h2 : measureLine device name tv1 line <;> rw [h2] at h <;> cases h
          obtain ⟨hn1, hr1⟩ := ih h1
          obtain ⟨hn2, hr2⟩ := measureLine_recorded h2
          refine ⟨fun n hn => (hn2 n hn).trans (hn1 n hn), ?_⟩
          rw [lastDeviceLine_append]
          exact hr1.then hr2

theorem timeLinesOf_append_single (tree : List Built) (c : Built) (name : List Char) :
    timeLinesOf env (tree ++ [c]) name =
      timeLinesOf env tree name ++ if c.name = name then env.timeLines c.blkioCgroup else [] := by
  by_cases hc : c.name = name <;> simp [timeLinesOf, List.filter_append, hc]

/-- `measure_containers` records for every name `int(parts[-1])` of the last line for the
device among the `blkio.time` lines of the containers with that name, in tree order; a
name with no such line keeps its value.  It changes nothing else. -/
theorem measureContainers_recorded {tree : List Built} {device : List Char}
    {tv tv' : List Char → Option Int} {h h' : Host}
    (hm : measureContainers env tree device tv h = .ok tv' h') :
    h' = h ∧ ∀ n, Recorded (tv n) (lastDeviceLine device (timeLinesOf env tree n)) (tv' n) := by
  induction tree using List.reverseRecOn generalizing tv' h' with
  | nil =>
      cases hm
      exact ⟨rfl, fun n => recorded_none _⟩
  | append_singleton tree c ih =>
      rw [measureContainers, List.foldlM_append] at hm
      obtain ⟨tv1, h1, hinit, hc⟩ := bind_eq_ok hm
      obtain ⟨rfl, hrec⟩ := ih hinit
      simp only [List.foldlM_cons, List.foldlM_nil, bind_pure] at hc
      obtain ⟨lines, h3, hg, hl⟩ := bind_eq_ok hc
      obtain ⟨rfl, rfl⟩ := getAttrTime_ok env hg
      obtain ⟨hf, rfl⟩ := liftExcept_eq_ok hl
      obtain ⟨hn, hr⟩ := foldlM_measureLine_recorded hf
      refine ⟨rfl, fun n => ?_⟩
      rw [timeLinesOf_append_single, lastDeviceLine_append]
      by_cases hcn : c.name = n
      · subst hcn
        simpa using (hrec c.name).then hr
      · simpa [hcn, hn n (Ne.symm hcn)] using (hrec n).then (recorded_none (tv1 n))

theorem measureContainers_recorded_last_line :
    ∃ tv' h', measureContainers (sampleEnv (fun _ _ => none) fun cg =>
          if cg.path = "/c0".toList then
            ["8:16 120".toList, "8:0 7".toList, "8:16 130".toList]
          else ["8:16 55".toList])
        [⟨⟨⟨500, none, 0⟩, []⟩, ⟨"blkio".toList, "/c0".toList⟩, ⟨"blkio".toList, "/c0".toList⟩,
          "g0".toList⟩,
          ⟨⟨⟨500, none, 0⟩, []⟩, ⟨"blkio".toList, "/c1".toList⟩, ⟨"blkio".toList, "/c1".toList⟩,
          "g1".toList⟩]
        "8:16".toList (fun _ => none) sampleHost = .ok tv' h' ∧
      h' = sampleHost ∧
      ∀ n, Recorded none (lastDeviceLine "8:16".toList (timeLinesOf
        (sampleEnv (fun _ _ => none) fun cg =>
          if cg.path = "/c0".toList then
            ["8:16 120".toList, "8:0 7".toList, "8:16 130".toList]
          else ["8:16 55".toList])
        [⟨⟨⟨500, none, 0⟩, []⟩, ⟨"blkio".toList, "/c0".toList⟩, ⟨"blkio".toList, "/c0".toList⟩,
          "g0".toList⟩,
          ⟨⟨⟨500, none, 0⟩, []⟩, ⟨"blkio".toList, "/c1".toList⟩, ⟨"blkio".toList, "/c1".toList⟩,
          "g1".toList⟩] n)) (tv' n) :=
  ⟨_, _, rfl, @measureContainers_recorded _ _ _ _ _ sampleHost _ rfl⟩

end LastLine

section Runners

variable (env : Env)

/-- The tasks `enum_worker_runners` makes of one container's commands: none when they are
all empty, one per command when none is. -/
theorem length_runners {cmds : List WorkerCmd} {sleeps : Prop} [Decidable sleeps]
    (hr : ∀ cmd ∈ cmds, cmd.render = [] ↔ sleeps) (cpu blkio : Cgroup) (pidsFile : List Char) :
    ((cmds.map WorkerCmd.render).filterMap fun cmd =>
        if cmd = [] then none else some (Task.mk cmd cpu blkio pidsFile)).length =
      if sleeps then 0 else cmds.length := by
  induction cmds with
  | nil => split <;> rfl
  | cons cmd cmds ih =>
      have h1 := hr cmd (List.mem_cons_self _ _)
      have ih' := ih fun c hc => hr c (List.mem_cons_of_mem _ hc)
      rw [List.map_cons, List.filterMap_cons]
      by_cases hs : sleeps
      · simpa [h1.2 hs, hs] using ih'
      · simp only [mt h1.1 hs, if_false, List.length_cons, hs] at ih' ⊢
        rw [ih']

/-- Every task `enum_worker_runners` makes from a container's commands has a command, the
container's two cgroups, and `pids_file`. -/
theorem mem_containerTasks {tree : List Built} {pidsFile : List Char} {t : Task}
    (ht : t ∈ tree.flatMap fun b => (b.workerCmds.map WorkerCmd.render).filterMap fun cmd =>
      if cmd = [] then none else some (Task.mk cmd b.cpuCgroup b.blkioCgroup pidsFile)) :
    t.pidsFile = pidsFile ∧ t.cmd ≠ [] ∧
      ∃ c ∈ tree, t.cpuCgroup = c.cpuCgroup ∧ t.blkioCgroup = c.blkioCgroup := by
  simp only [List.mem_flatMap, List.mem_filterMap, List.mem_map] at ht
  obtain ⟨b, hb, cmd, -, hcmd⟩ := ht
  split at hcmd
  · cases hcmd
  · cases hcmd
    exact ⟨rfl, ‹_›, b, hb, rfl, rfl⟩

/-- A container of an accepted experiment whose files were set up gives one task per
`worker_repeat`, or none when its worker is `sleep`. -/
theorem containerTasks_length {text : List Char} {cs : List Container}
    (hp : parseExperiment text = .ok cs) {seqReadMb : Nat} {w w' : World}
    {planned : List Planned} (hf : setupWorkerFiles seqReadMb cs w = .ok planned w')
    {b : Built} (hbp : b.toPlanned ∈ planned) (pidsFile : List Char) :
    ((b.workerCmds.map WorkerCmd.render).filterMap fun cmd =>
      if cmd = [] then none else some (Task.mk cmd b.cpuCgroup b.blkioCgroup pidsFile)).length =
        if b.worker = some "sleep".toList then 0 else b.workerRepeat := by
  obtain ⟨hcs, hlen⟩ := setupWorkerFiles_workerCmds hf
  have hbc : b.toContainer ∈ cs := hcs ▸ List.mem_map_of_mem _ hbp
  cases hw : b.worker with
  | none =>
      obtain ⟨t, r, -, hc⟩ := parseExperiment_mem hp _ hbc
      rcases parseContainer_workerRepeat hc with ⟨-, h0⟩ | ⟨hn, -⟩
      · have hnil : b.workerCmds = [] := List.eq_nil_of_length_eq_zero ((hlen _ hbp).trans h0)
        simp [hnil, h0]
      · exact absurd hw hn
  | some worker =>
      have hne : worker ≠ [] := fun h0 => parseExperiment_worker_ne_nil hp _ hbc (hw ▸ h0 ▸ rfl)
      have hr : ∀ cmd ∈ b.workerCmds, cmd.render = [] ↔ worker = "sleep".toList := by
        intro cmd hc
        obtain ⟨worker', hw', _, _, hrun⟩ := setupWorkerFiles_cmd hf _ hbp cmd hc
        rw [hw, Option.some.injEq] at hw'
        subst hw'
        rw [setupWorker_render_eq_nil hrun, or_iff_right hne]
      rw [length_runners hr, hlen _ hbp]
      simp

/-- The worker processes of an experiment.  For an accepted experiment whose data files and
containers were set up, `enum_worker_runners` returns, never with the `IndexError` of
`tree[0]`, one task per `worker_repeat` of each container whose worker is not `sleep`, and
with `pids_file` and `timeout` set one more; each task has a command, runs in the two
cgroups of one container of the experiment, and is given `pids_file`. -/
theorem enumWorkerRunners_tasks {text : List Char} {cs : List Container}
    (hp : parseExperiment text = .ok cs) {seqReadMb : Nat} {w w' : World}
    {planned : List Planned} (hf : setupWorkerFiles seqReadMb cs w = .ok planned w')
    {h h' : Host} {exper : List Built} {names : List (List Char)}
    (hs : setupContainers env planned h = .ok (exper, names) h') (pidsFile timeout : List Char) :
    ∃ tasks, enumWorkerRunners exper pidsFile timeout = .ok tasks ∧
      tasks.length =
        (cs.map fun c => if c.worker = some "sleep".toList then 0 else c.workerRepeat).sum +
          (if pidsFile ≠ [] ∧ timeout ≠ [] then 1 else 0) ∧
      ∀ t ∈ tasks, t.pidsFile = pidsFile ∧ t.cmd ≠ [] ∧
        ∃ c ∈ exper, t.cpuCgroup = c.cpuCgroup ∧ t.blkioCgroup = c.blkioCgroup := by
  obtain ⟨hpl, -, -⟩ := setupContainersFrom_ok env hs
  obtain ⟨hcs, -⟩ := setupWorkerFiles_workerCmds hf
  have hsum : (exper.flatMap fun b => (b.workerCmds.map WorkerCmd.render).filterMap fun cmd =>
      if cmd = [] then none else some (Task.mk cmd b.cpuCgroup b.blkioCgroup pidsFile)).length =
        (cs.map fun c => if c.worker = some "sleep".toList then 0 else c.workerRepeat).sum := by
    rw [List.flatMap_def, List.length_flatten, List.map_map, Function.comp_def,
      List.map_congr_left fun b hb =>
        containerTasks_length hp hf (hpl ▸ List.mem_map_of_mem _ hb) pidsFile,
      ← hcs, ← hpl, List.map_map, List.map_map]
    rfl
  have hne : exper ≠ [] := by
    rintro rfl
    exact parseExperiment_ne_nil hp (by rw [← hcs, ← hpl]; rfl)
  unfold enumWorkerRunners
  split
  · rename_i hset
    obtain ⟨b0, rest, rfl⟩ := List.exists_cons_of_ne_nil hne
    refine ⟨_, rfl, by simp only [List.length_append, hsum, hset, List.length_singleton],
      fun t ht => ?_⟩
    rcases List.mem_append.1 ht with ht | ht
    · exact mem_containerTasks ht
    · rw [List.mem_singleton.1 ht]
      exact ⟨rfl, by simp, b0, List.mem_cons_self _ _, rfl, rfl⟩
  · rename_i hset
    exact ⟨_, rfl, by simp only [hsum, hset, if_false, Nat.add_zero], fun _ => mem_containerTasks⟩

theorem enumWorkerRunners_tasks_sleep :
    ∃ planned w' exper names h',
      setupWorkerFiles 12 [⟨500, some "rdseq".toList, 2⟩, ⟨300, some "sleep".toList, 3⟩,
          ⟨200, none, 0⟩] sampleHost.toWorld = .ok planned w' ∧
      setupContainers (sampleEnv (fun _ _ => none) fun _ => []) planned sampleHost =
        .ok (exper, names) h' ∧
      ∃ tasks, enumWorkerRunners exper "p".toList "100".toList = .ok tasks ∧
        tasks.length = ([⟨500, some "rdseq".toList, 2⟩, ⟨300, some "sleep".toList, 3⟩,
            ⟨200, none, 0⟩].map fun c : Container =>
              if c.worker = some "sleep".toList then 0 else c.workerRepeat).sum +
          (if "p".toList ≠ [] ∧ "100".toList ≠ [] then 1 else 0) ∧
        ∀ t ∈ tasks, t.pidsFile = "p".toList ∧ t.cmd ≠ [] ∧
          ∃ c ∈ exper, t.cpuCgroup = c.cpuCgroup ∧ t.blkioCgroup = c.blkioCgroup := by
  have hp : parseExperiment "500 rdseq*2, 300 sleep*3, 200".toList =
      .ok [⟨500, some "rdseq".toList, 2⟩, ⟨300, some "sleep".toList, 3⟩, ⟨200, none, 0⟩] :=
    parseExperiment_eq_ok_iff.2 (by decide)
  refine ⟨_, _, _, _, _, rfl, rfl, ?_⟩
  exact @enumWorkerRunners_tasks (sampleEnv (fun _ _ => none) fun _ => []) _ _ hp 12
    sampleHost.toWorld _ _ rfl sampleHost _ _ _ rfl _ _

end Runners

end BlkcgroupTest
