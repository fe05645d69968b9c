import BlkcgroupTest.Parser
import Mathlib.Data.List.Nodup

/-!
# blkcgroup test: worker command synthesis

Before any cgroup exists, `run_single_experiment` resets the harness's file counters
and calls `setup_worker_files`, which asks `setup_worker` for one command per worker
instance.  `setup_worker` allocates the instance's data file (`some_zeroed_input_file`
for the readers, `some_output_file` for the writer) and formats a `dd` or `rand_read`
command line around it; `remove_output_files` deletes the writers' files afterwards.

The state is a `World`: the attributes of `test_harness` these methods touch, and the
file system and `utils.system` log as they leave them.  Python exceptions keep the
mutations made before the `raise`, so the methods are `EStateM PyError World` programs.

A command is kept as the arguments of its format string (`WorkerCmd`), and
`WorkerCmd.render` is the `%` formatting itself; `setup_worker` returns the rendered
string.

Main results:
* `setupWorker_cases`: what one call can do, one case per worker kind;
* `setupWorker_kind`: an `rdseq` or `rdrand` worker reads a data file, a `wrseq` worker
  writes one;
* `setupWorkerFiles_distinct_files`: from counters reset to `0`, the worker instances of
  an accepted experiment name pairwise-distinct data files, an `rddata<k>` for each
  `rdseq` or `rdrand` instance and a `write<k>` for each `wrseq` instance, and
  `remove_output_files` deletes exactly the files of its `wrseq` instances.
-/

namespace BlkcgroupTest

/-- The format arguments of a command built by `setup_worker`. -/
inductive WorkerCmd
  | ddRead (fileName : List Char) (mbytes : Nat) (extraOptions : List Char)
  | randRead (srcdir : List Char) (count : Nat) (delayms : List Char) (logIosize : Nat)
      (fileName : List Char)
  | ddWrite (fileName : List Char) (count : Nat) (extraOptions : List Char)
  | sleep
deriving DecidableEq, Repr

/-- The state the harness methods read and write: the attributes of `test_harness`
they use, the file system, and the command lines run by `utils.system`. -/
structure World where
  workdir : List Char
  srcdir : List Char
  inputFileCount : Nat
  outputFileCount : Nat
  existingInputFiles : List Char → Option Nat
  files : List Char → Bool
  system : List (List Char)

/-- A container dict once `setup_worker_files` gave it its `'worker_cmds'`. -/
structure Planned extends Container where
  workerCmds : List WorkerCmd

section Workers

/-- The `%` formatting of each command of `setup_worker`. -/
def WorkerCmd.render : WorkerCmd → List Char
  | .ddRead f m e =>
      "/bin/dd if=".toList ++ f ++ " of=/dev/null bs=1M count=".toList ++ decimal m ++ ' ' :: e
  | .randRead d c dl l f =>
      d ++ "/rand_read -c ".toList ++ decimal c ++ ' ' :: dl ++ ' ' :: decimal l ++ ' ' :: f
  | .ddWrite f c e =>
      "/bin/dd if=/dev/zero of=".toList ++ f ++ " bs=64K count=".toList ++ decimal c ++ ' ' :: e
  | .sleep => []

/-- The data file a command reads or writes. -/
def WorkerCmd.fileName? : WorkerCmd → Option (List Char)
  | .ddRead f _ _ => some f
  | .randRead _ _ _ _ f => some f
  | .ddWrite f _ _ => some f
  | .sleep => none

/-- `os.path.join(self.workdir, '%s%d' % (prefix, n))`. -/
def dataFileName (workdir pfx : List Char) (n : Nat) : List Char :=
  pathJoin workdir (pfx ++ decimal n)

/-- `utils.system(cmd)`, which succeeds here. -/
def utilsSystem (cmd : List Char) : EStateM PyError World Unit :=
  modify fun w => { w with system := w.system ++ [cmd] }

/-- `os.path.exists(file)` then `os.remove(file)`. -/
def removeFile (file : List Char) : EStateM PyError World Unit :=
  modify fun w => { w with files := Function.update w.files file false }

theorem removeFile_apply (file : List Char) (w : World) :
    removeFile file w = .ok () { w with files := Function.update w.files file false } := rfl

/-- The `dd` that grows an input file from `oldMbytes` to `mbytes` MiB. -/
def zeroFillCmd (name : List Char) (oldMbytes mbytes : Nat) : List Char :=
  "/bin/dd if=/dev/zero of=".toList ++ name ++ " bs=1M seek=".toList ++ decimal oldMbytes ++
    " count=".toList ++ decimal (mbytes - oldMbytes)

/-- `some_zeroed_input_file(prefix, mbytes)`: a fresh name, grown to `mbytes` MiB. -/
def someZeroedInputFile (pfx : List Char) (mbytes : Nat) : EStateM PyError World (List Char) := do
  let w ← get
  let name := dataFileName w.workdir pfx w.inputFileCount
  set { w with inputFileCount := w.inputFileCount + 1 }
  let oldMbytes := (w.existingInputFiles name).getD 0
  if mbytes > oldMbytes then
    utilsSystem (zeroFillCmd name oldMbytes mbytes)
    modify fun w =>
      { w with existingInputFiles := Function.update w.existingInputFiles name (some mbytes) }
  return name

/-- `output_file_name(n)`. -/
def outputFileName (workdir : List Char) (n : Nat) : List Char :=
  dataFileName workdir "write".toList n

/-- `some_output_file()`. -/
def someOutputFile : EStateM PyError World (List Char) := do
  let w ← get
  set { w with outputFileCount := w.outputFileCount + 1 }
  return outputFileName w.workdir w.outputFileCount

/-- `remove_output_files()`. -/
def removeOutputFiles : EStateM PyError World Unit := do
  let w ← get
  (List.range w.outputFileCount).forM fun n => removeFile (outputFileName w.workdir n)
  modify fun w => { w with outputFileCount := 0 }

/-- `worker.split('.', 1)[1]` when there is a `.`, else `''`. -/
def variantOf (worker : List Char) : List Char :=
  (worker.dropWhile (· ≠ '.')).drop 1

/-- A quote character, as `repr` of a `str` writes it. -/
def quoteChar : Char :=
  Char.ofNat 39

/-- `int(s)` of Python 2: optional blanks and sign around a non-empty digit run. -/
def pyInt (s : List Char) : Except PyError Int :=
  let t := (lstrip (lstrip s).reverse).reverse
  let bad := PyError.valueError
    ("invalid literal for int() with base 10: ".toList ++ quoteChar :: s ++ [quoteChar])
  let digits (ds : List Char) : Bool := !ds.isEmpty && ds.all Char.isDigit
  match t with
  | '-' :: ds => if digits ds then .ok (-(digitsValue ds : Int)) else .error bad
  | '+' :: ds => if digits ds then .ok (digitsValue ds) else .error bad
  | ds => if digits ds then .ok (digitsValue ds) else .error bad

/-- `'%d' % n` for a Python `int`. -/
def pyIntStr (i : Int) : List Char :=
  if i < 0 then '-' :: decimal i.natAbs else decimal i.natAbs

/-- The `delayms` argument of `rdrand`: `'-d %d ' % int(variant[5:])` for a `delay`
variant, `''` for none, and `bad worker` otherwise. -/
def rdrandDelay (worker variant : List Char) : Except PyError (List Char) :=
  if "delay".toList.isPrefixOf variant then
    (pyInt (variant.drop 5)).map fun d => "-d ".toList ++ pyIntStr d ++ [' ']
  else if variant ≠ [] then
    .error (.valueError ("bad worker: ".toList ++ worker))
  else
    .ok []

/-- `setup_worker(worker, mbytes)`: allocate the worker's data file and format its
command; `''` and `sleep` give the empty command. -/
def setupWorker (worker : List Char) (mbytes : Nat) : EStateM PyError World WorkerCmd := do
  let variant := variantOf worker
  if "rdseq".toList.isPrefixOf worker then
    let fileName ← someZeroedInputFile "rddata".toList mbytes
    let extraOptions := if variant = "dir".toList then "iflag=direct ".toList else []
    return .ddRead fileName mbytes extraOptions
  else if "rdrand".toList.isPrefixOf worker then
    let fileName ← someZeroedInputFile "rddata".toList mbytes
    let logIosize := 16
    let count := ((mbytes <<< 20) >>> logIosize) / 8
    let delayms ← liftExcept (rdrandDelay worker variant)
    let w ← get
    return .randRead w.srcdir count delayms logIosize fileName
  else if "wrseq".toList.isPrefixOf worker then
    let fileName ← someOutputFile
    let (mbytes, extraOptions) :=
      if variant = "sync".toList then (mbytes / 3, "conv=fdatasync ".toList)
      else if variant = "dir".toList then (mbytes, "oflag=direct ".toList)
      else (mbytes * 2, [])
    return .ddWrite fileName (mbytes * 16) extraOptions
  else if worker = [] ∨ worker = "sleep".toList then
    return .sleep
  else
    throw (.valueError ("unknown worker ".toList ++ worker))

/-- `container['worker']`. -/
def Container.workerKey (container : Container) : Except PyError (List Char) :=
  match container.worker with
  | some worker => .ok worker
  | none => .error (.keyError "worker".toList)

/-- `setup_worker_files(seq_read_mb, tree, key_prefix)`: `worker_repeat` commands per
container, each for an equal share of `seq_read_mb`. -/
def setupWorkerFiles (seqReadMb : Nat) (tree : List Container) :
    EStateM PyError World (List Planned) :=
  tree.mapM fun container => do
    let mult := container.workerRepeat
    let cmds ← (List.range mult).mapM fun _ => do
      let worker ← liftExcept container.workerKey
      setupWorker worker (seqReadMb / mult)
    return { container with workerCmds := cmds }

/-- Whether a command writes its data file. -/
def WorkerCmd.writes : WorkerCmd → Bool
  | .ddWrite _ _ _ => true
  | _ => false

theorem someZeroedInputFile_spec (pfx : List Char) (m : Nat) (w : World) :
    ∃ w', someZeroedInputFile pfx m w = .ok (dataFileName w.workdir pfx w.inputFileCount) w' ∧
      w'.workdir = w.workdir ∧ w'.srcdir = w.srcdir ∧ w'.files = w.files ∧
      w'.inputFileCount = w.inputFileCount + 1 ∧ w'.outputFileCount = w.outputFileCount := by
  simp only [someZeroedInputFile, bind_apply, get_apply, set_apply, utilsSystem, modify_apply,
    pure_apply]
  split <;> exact ⟨_, rfl, rfl, rfl, rfl, rfl, rfl⟩

theorem someOutputFile_apply (w : World) :
    someOutputFile w = .ok (outputFileName w.workdir w.outputFileCount)
      { w with outputFileCount := w.outputFileCount + 1 } := rfl

/-- What one call of `setup_worker` can do: allocate the next `rddata` file for a reader,
the next `write` file for a writer, or nothing for `sleep`. -/
theorem setupWorker_cases {worker : List Char} {m : Nat} {w w' : World} {cmd : WorkerCmd}
    (h : setupWorker worker m w = .ok cmd w') :
    w'.workdir = w.workdir ∧ w'.files = w.files ∧
      ((cmd.writes = false ∧
          cmd.fileName? = some (dataFileName w.workdir "rddata".toList w.inputFileCount) ∧
          w'.inputFileCount = w.inputFileCount + 1 ∧ w'.outputFileCount = w.outputFileCount) ∨
        (cmd.writes = true ∧ cmd.fileName? = some (outputFileName w.workdir w.outputFileCount) ∧
          w'.inputFileCount = w.inputFileCount ∧ w'.outputFileCount = w.outputFileCount + 1) ∨
        (cmd.fileName? = none ∧ w' = w)) := by
  obtain ⟨w1, h1, hwd, -, hf, hin, hout⟩ := someZeroedInputFile_spec "rddata".toList m w
  simp only [setupWorker] at h
  split at h
  · rw [bind_apply_ok h1] at h
    cases h
    exact ⟨hwd, hf, .inl ⟨rfl, rfl, hin, hout⟩⟩
  split at h
  · rw [bind_apply_ok h1] at h
    obtain ⟨d, w2, h2, h3⟩ := bind_eq_ok h
    obtain ⟨-, rfl⟩ := liftExcept_eq_ok h2
    simp only [bind_apply, get_apply, pure_apply, EStateM.Result.ok.injEq] at h3
    obtain ⟨rfl, rfl⟩ := h3
    exact ⟨hwd, hf, .inl ⟨rfl, rfl, hin, hout⟩⟩
  split at h
  · rw [bind_apply_ok (someOutputFile_apply w)] at h
    cases h
    exact ⟨rfl, rfl, .inr (.inl ⟨rfl, rfl, rfl, rfl⟩)⟩
  split at h
  · cases h
    exact ⟨rfl, rfl, .inr (.inr ⟨rfl, rfl⟩)⟩
  · cases h

/-- The kind of a worker fixes the kind of its command: `rdseq` and `rdrand` read a data
file, `wrseq` writes one. -/
theorem setupWorker_kind {worker : List Char} {m : Nat} {w w' : World} {cmd : WorkerCmd}
    (h : setupWorker worker m w = .ok cmd w') :
    (("rdseq".toList.isPrefixOf worker || "rdrand".toList.isPrefixOf worker) = true →
        cmd.writes = false ∧ cmd.fileName?.isSome = true) ∧
      ("wrseq".toList.isPrefixOf worker = true →
        cmd.writes = true ∧ cmd.fileName?.isSome = true) := by
  have hrw : ∀ {pfx : List Char}, ('r' :: pfx).isPrefixOf worker = true →
      "wrseq".toList.isPrefixOf worker = false := by
    intro pfx hw
    cases worker with
    | nil => simp [List.isPrefixOf] at hw
    | cons d worker =>
        simp only [List.isPrefixOf, Bool.and_eq_true, beq_iff_eq] at hw
        obtain ⟨rfl, -⟩ := hw
        rfl
  simp only [setupWorker] at h
  by_cases hrd : "rdseq".toList.isPrefixOf worker = true
  · rw [if_pos hrd] at h
    obtain ⟨_, _, -, ⟨⟩⟩ := bind_eq_ok h
    exact ⟨fun _ => ⟨rfl, rfl⟩, fun hw => absurd ((hrw hrd).symm.trans hw) Bool.false_ne_true⟩
  rw [if_neg hrd] at h
  by_cases hrr : "rdrand".toList.isPrefixOf worker = true
  · rw [if_pos hrr] at h
    obtain ⟨_, _, -, h⟩ := bind_eq_ok h
    obtain ⟨_, _, -, h⟩ := bind_eq_ok h
    obtain ⟨_, _, -, ⟨⟩⟩ := bind_eq_ok h
    exact ⟨fun _ => ⟨rfl, rfl⟩, fun hw => absurd ((hrw hrr).symm.trans hw) Bool.false_ne_true⟩
  rw [if_neg hrr] at h
  have hnr : ("rdseq".toList.isPrefixOf worker || "rdrand".toList.isPrefixOf worker) ≠ true := by
    rw [Ne, Bool.or_eq_true, not_or]
    exact ⟨hrd, hrr⟩
  by_cases hws : "wrseq".toList.isPrefixOf worker = true
  · rw [if_pos hws, bind_apply_ok (someOutputFile_apply w)] at h
    cases h
    exact ⟨fun hr => absurd hr hnr, fun _ => ⟨rfl, rfl⟩⟩
  · exact ⟨fun hr => absurd hr hnr, fun hw => absurd hw hws⟩

/-- `setup_worker_files` keeps each container and gives it exactly `worker_repeat`
commands. -/
theorem setupWorkerFiles_workerCmds {seqReadMb : Nat} {tree : List Container} {w w' : World}
    {planned : List Planned} (h : setupWorkerFiles seqReadMb tree w = .ok planned w') :
    planned.map Planned.toContainer = tree ∧
      ∀ p ∈ planned, p.workerCmds.length = p.workerRepeat := by
  have h2 := mapM_forall₂ h
  clear h
  induction h2 with
  | nil =>
      simp
  | @cons c p tree planned hp _ ih =>
      obtain ⟨_, _, hp⟩ := hp
      obtain ⟨cmds, _, hcmds, ⟨⟩⟩ := bind_eq_ok hp
      refine ⟨by simp [ih.1], ?_⟩
      simp only [List.mem_cons, forall_eq_or_imp]
      exact ⟨by simpa using (mapM_forall₂ hcmds).length_eq.symm, ih.2⟩

theorem forall₂_exists_left {α β : Type} {R : α → β → Prop} {l₁ : List α} {l₂ : List β}
    (h : List.Forall₂ R l₁ l₂) {b : β} (hb : b ∈ l₂) : ∃ a ∈ l₁, R a b := by
  induction h with
  | nil => cases hb
  | cons hab _ ih =>
      rcases List.mem_cons.1 hb with rfl | hb
      · exact ⟨_, List.mem_cons_self _ _, hab⟩
      · obtain ⟨a, ha, hr⟩ := ih hb
        exact ⟨a, List.mem_cons_of_mem _ ha, hr⟩

/-- Every command `setup_worker_files` gives a container is what `setup_worker` made for the
container's worker and its share `seq_read_mb // worker_repeat`, in some state. -/
theorem setupWorkerFiles_cmd {seqReadMb : Nat} {tree : List Container} {w w' : World}
    {planned : List Planned} (h : setupWorkerFiles seqReadMb tree w = .ok planned w') :
    ∀ p ∈ planned, ∀ cmd ∈ p.workerCmds, ∃ worker, p.worker = some worker ∧
      ∃ t t', setupWorker worker (seqReadMb / p.workerRepeat) t = .ok cmd t' := by
  intro p hp cmd hcmd
  obtain ⟨c, -, t, t', hc⟩ := forall₂_exists_left (mapM_forall₂ h) hp
  obtain ⟨cmds, _, hcmds, ⟨⟩⟩ := bind_eq_ok hc
  obtain ⟨_, -, s, s', hs⟩ := forall₂_exists_left (mapM_forall₂ hcmds) hcmd
  obtain ⟨worker, s1, hkey, hrun⟩ := bind_eq_ok hs
  obtain ⟨hkey, rfl⟩ := liftExcept_eq_ok hkey
  refine ⟨worker, ?_, _, _, hrun⟩
  unfold Container.workerKey at hkey
  split at hkey <;> cases hkey
  assumption

/-- `setup_worker` gives the empty command exactly for `''` and `sleep`. -/
theorem setupWorker_render_eq_nil {worker : List Char} {m : Nat} {w w' : World}
    {cmd : WorkerCmd} (h : setupWorker worker m w = .ok cmd w') :
    cmd.render = [] ↔ worker = [] ∨ worker = "sleep".toList := by
  have hne : ∀ pfx : List Char, pfx ≠ [] → pfx.isPrefixOf "sleep".toList = false →
      pfx.isPrefixOf worker = true → ¬ (worker = [] ∨ worker = "sleep".toList) := by
    rintro pfx hp hs hw (rfl | rfl)
    · cases pfx with
      | nil => exact hp rfl
      | cons c r => simp at hw
    · rw [hs] at hw
      cases hw
  obtain ⟨w1, h1, -⟩ := someZeroedInputFile_spec "rddata".toList m w
  simp only [setupWorker] at h
  split at h
  · rw [bind_apply_ok h1] at h
    cases h
    exact iff_of_false (by simp [WorkerCmd.render]) (hne "rdseq".toList (by simp) (by decide) ‹_›)
  split at h
  · rw [bind_apply_ok h1] at h
    obtain ⟨d, w2, h2, h3⟩ := bind_eq_ok h
    obtain ⟨-, rfl⟩ := liftExcept_eq_ok h2
    simp only [bind_apply, get_apply, pure_apply, EStateM.Result.ok.injEq] at h3
    obtain ⟨rfl, rfl⟩ := h3
    exact iff_of_false (by simp [WorkerCmd.render]) (hne "rdrand".toList (by simp) (by decide) ‹_›)
  split at h
  · rw [bind_apply_ok (someOutputFile_apply w)] at h
    cases h
    exact iff_of_false (by simp [WorkerCmd.render]) (hne "wrseq".toList (by simp) (by decide) ‹_›)
  split at h
  · cases h
    exact iff_of_true rfl ‹_›
  · cases h

end Workers

section PyIntRoundTrip

theorem noSpace_pyIntStr (i : Int) : NoSpace (pyIntStr i) := by
  unfold pyIntStr
  split
  · rintro c (_ | ⟨_, hc⟩)
    exacts [rfl, decimal_noSpace _ c hc]
  · exact decimal_noSpace _

theorem comma_not_mem_pyIntStr (i : Int) : ',' ∉ pyIntStr i := by
  have hd : ',' ∉ decimal i.natAbs := fun h => absurd (decimal_digits _ _ h) (by decide)
  unfold pyIntStr
  split
  · exact List.not_mem_cons_of_ne_of_not_mem (by decide) hd
  · exact hd

/-- `int()` of `'%d' % i`, also after leading blanks, is `i`. -/
theorem pyInt_blanks_pyIntStr {w : List Char} (hw : ∀ c ∈ w, isSpace c = true) (i : Int) :
    pyInt (w ++ pyIntStr i) = .ok i := by
  have hstrip : (lstrip (lstrip (w ++ pyIntStr i)).reverse).reverse = pyIntStr i := by
    have hrev : NoSpace (pyIntStr i).reverse := fun c hc =>
      noSpace_pyIntStr i c (List.mem_reverse.mp hc)
    rw [lstrip_append_of_noSpace hw (noSpace_pyIntStr i), ← List.nil_append (pyIntStr i).reverse,
      lstrip_append_of_noSpace (List.forall_mem_nil _) hrev, List.reverse_reverse]
  unfold pyInt
  simp only [hstrip]
  by_cases hi : i < 0
  · simp only [pyIntStr, hi, if_true]
    rw [if_pos (by simpa [decimal_ne_nil] using decimal_digits _), digitsValue_decimal]
    congr 1
    omega
  · obtain ⟨d, ds, hd, hdig⟩ : ∃ d ds, decimal i.natAbs = d :: ds ∧ d.isDigit = true := by
      cases h : decimal i.natAbs with
      | nil => exact absurd h (decimal_ne_nil _)
      | cons d ds => exact ⟨d, ds, rfl, decimal_digits _ d (h ▸ List.mem_cons_self d ds)⟩
    simp only [pyIntStr, hi, if_false, hd]
    split
    next heq => obtain ⟨rfl, -⟩ := List.cons.inj heq; exact absurd hdig (by decide)
    next heq => obtain ⟨rfl, -⟩ := List.cons.inj heq; exact absurd hdig (by decide)
    rw [← hd, if_pos (by simpa [decimal_ne_nil] using decimal_digits _), digitsValue_decimal]
    congr 1
    omega

/-- `int()` reads back what `'%d' %` wrote. -/
theorem pyInt_pyIntStr (i : Int) : pyInt (pyIntStr i) = .ok i :=
  pyInt_blanks_pyIntStr (List.forall_mem_nil _) i

end PyIntRoundTrip

section DistinctFiles

theorem pathJoin_right_inj {a x y : List Char} (hx : x.head? ≠ some '/')
    (hy : y.head? ≠ some '/')
    (h : pathJoin a x = pathJoin a y) : x = y := by
  simp only [pathJoin, hx, hy, if_false] at h
  split at h
  · exact List.append_cancel_left h
  · exact (List.cons.inj (List.append_cancel_left h)).2

theorem pathJoin_append {a b : List Char} (hb : b.head? ≠ some '/') (hbn : b ≠ [])
    (c : List Char) : pathJoin a b ++ c = pathJoin a (b ++ c) := by
  obtain ⟨x, r, rfl⟩ := List.exists_cons_of_ne_nil hbn
  unfold pathJoin
  split_ifs <;> simp_all

theorem dataFileName_rddata_inj {wd : List Char} {n n' : Nat}
    (h : dataFileName wd "rddata".toList n = dataFileName wd "rddata".toList n') : n = n' :=
  decimal_injective (List.append_cancel_left (pathJoin_right_inj (by simp) (by simp) h))

theorem outputFileName_inj {wd : List Char} {n n' : Nat}
    (h : outputFileName wd n = outputFileName wd n') : n = n' := by
  unfold outputFileName dataFileName at h
  exact decimal_injective (List.append_cancel_left (pathJoin_right_inj (by simp) (by simp) h))

theorem dataFileName_ne_outputFileName (wd : List Char) (n k : Nat) :
    dataFileName wd "rddata".toList n ≠ outputFileName wd k := by
  intro h
  unfold outputFileName dataFileName at h
  have := pathJoin_right_inj (by simp) (by simp) h
  simp at this

/-- `rddata0, ..., rddata(n-1)` of a working directory. -/
def ReadFile (workdir : List Char) (n : Nat) (f : List Char) : Prop :=
  ∃ k < n, f = dataFileName workdir "rddata".toList k

/-- `write0, ..., write(n-1)` of a working directory. -/
def WriteFile (workdir : List Char) (n : Nat) (f : List Char) : Prop :=
  ∃ k < n, f = outputFileName workdir k

theorem ReadFile.mono {wd f : List Char} {n n' : Nat} (h : ReadFile wd n f) (hn : n ≤ n') :
    ReadFile wd n' f := by
  obtain ⟨k, hk, rfl⟩ := h
  exact ⟨k, by omega, rfl⟩

theorem WriteFile.mono {wd f : List Char} {n n' : Nat} (h : WriteFile wd n f) (hn : n ≤ n') :
    WriteFile wd n' f := by
  obtain ⟨k, hk, rfl⟩ := h
  exact ⟨k, by omega, rfl⟩

/-- The invariant of `setup_worker_files` from a world `w0` whose counters were reset:
the commands so far name pairwise-distinct files, each reader an `rddata` file and each
writer a `write` file below the counters, and every `write` file below the counter is
named by a writer. -/
structure FilesNamed (w0 w : World) (cmds : List WorkerCmd) : Prop where
  workdir : w.workdir = w0.workdir
  files : w.files = w0.files
  nodup : (cmds.filterMap WorkerCmd.fileName?).Nodup
  named : ∀ c ∈ cmds, ∀ f, c.fileName? = some f →
    (c.writes = false ∧ ReadFile w0.workdir w.inputFileCount f) ∨
      (c.writes = true ∧ WriteFile w0.workdir w.outputFileCount f)
  writers : ∀ f, WriteFile w0.workdir w.outputFileCount f →
    ∃ c ∈ cmds, c.writes = true ∧ c.fileName? = some f

theorem filesNamed_init {w0 : World} (hout : w0.outputFileCount = 0) : FilesNamed w0 w0 [] :=
  ⟨rfl, rfl, List.nodup_nil, by simp, fun _ ⟨k, hk, _⟩ => by omega⟩

/-- A fresh file is not among the files already named. -/
theorem FilesNamed.not_mem {w0 w : World} {cmds : List WorkerCmd} (hI : FilesNamed w0 w cmds)
    {f : List Char} (hr : ¬ReadFile w0.workdir w.inputFileCount f)
    (hw : ¬WriteFile w0.workdir w.outputFileCount f) :
    f ∉ cmds.filterMap WorkerCmd.fileName? := by
  simp only [List.mem_filterMap, not_exists, not_and]
  intro c hc hcf
  rcases hI.named c hc f hcf with ⟨-, h⟩ | ⟨-, h⟩
  · exact hr h
  · exact hw h

section FilesNamed

variable {w0 w w' : World} {cmds : List WorkerCmd} {cmd : WorkerCmd}

/-- A command naming a file no earlier command names keeps the names pairwise distinct. -/
theorem FilesNamed.nodup_append {f : List Char} (hI : FilesNamed w0 w cmds)
    (hcf : cmd.fileName? = some f) (hr : ¬ReadFile w0.workdir w.inputFileCount f)
    (hw : ¬WriteFile w0.workdir w.outputFileCount f) :
    ((cmds ++ [cmd]).filterMap WorkerCmd.fileName?).Nodup := by
  rw [List.filterMap_append, List.nodup_append]
  refine ⟨hI.nodup, by simp [hcf], ?_⟩
  simpa [hcf] using hI.not_mem hr hw

/-- Files named so far stay below counters that did not go down. -/
theorem FilesNamed.named_mono (hI : FilesNamed w0 w cmds)
    (hin : w.inputFileCount ≤ w'.inputFileCount)
    (hout : w.outputFileCount ≤ w'.outputFileCount) :
    ∀ c ∈ cmds, ∀ f, c.fileName? = some f →
      (c.writes = false ∧ ReadFile w0.workdir w'.inputFileCount f) ∨
        (c.writes = true ∧ WriteFile w0.workdir w'.outputFileCount f) := by
  intro c hc f hcf
  rcases hI.named c hc f hcf with ⟨h1, h2⟩ | ⟨h1, h2⟩
  · exact .inl ⟨h1, h2.mono hin⟩
  · exact .inr ⟨h1, h2.mono hout⟩

/-- While the output counter stands still, every `write` file below it keeps its writer. -/
theorem FilesNamed.writers_append (hI : FilesNamed w0 w cmds)
    (hout : w'.outputFileCount = w.outputFileCount) :
    ∀ f, WriteFile w0.workdir w'.outputFileCount f →
      ∃ c ∈ cmds ++ [cmd], c.writes = true ∧ c.fileName? = some f := by
  intro f hwf
  obtain ⟨c, hc, h1, h2⟩ := hI.writers f (hout ▸ hwf)
  exact ⟨c, List.mem_append_left _ hc, h1, h2⟩

/-- One call of `setup_worker` keeps the invariant. -/
theorem FilesNamed.step {worker : List Char} {m : Nat} (hI : FilesNamed w0 w cmds)
    (h : setupWorker worker m w = .ok cmd w') : FilesNamed w0 w' (cmds ++ [cmd]) := by
  obtain ⟨hwd, hf, hcase⟩ := setupWorker_cases h
  rw [hI.workdir] at hcase
  have hwd' := hwd.trans hI.workdir
  have hf' := hf.trans hI.files
  rcases hcase with ⟨hwr, hfile, hin, hout⟩ | ⟨hwr, hfile, hin, hout⟩ | ⟨hfile, rfl⟩
  · -- a reader: the next `rddata` file
    refine ⟨hwd', hf', hI.nodup_append hfile ?_ ?_, ?_, hI.writers_append hout⟩
    · rintro ⟨k, hk, he⟩
      have := dataFileName_rddata_inj he
      omega
    · rintro ⟨k, -, he⟩
      exact dataFileName_ne_outputFileName _ _ _ he
    · simp only [List.mem_append, List.mem_singleton]
      rintro c (hc | rfl) f hcf
      · exact hI.named_mono (by omega) (by omega) c hc f hcf
      · rw [hfile] at hcf
        cases hcf
        exact .inl ⟨hwr, w.inputFileCount, by omega, rfl⟩
  · -- a writer: the next `write` file
    refine ⟨hwd', hf', hI.nodup_append hfile ?_ ?_, ?_, ?_⟩
    · rintro ⟨k, -, he⟩
      exact dataFileName_ne_outputFileName _ _ _ he.symm
    · rintro ⟨k, hk, he⟩
      have := outputFileName_inj he
      omega
    · simp only [List.mem_append, List.mem_singleton]
      rintro c (hc | rfl) f hcf
      · exact hI.named_mono (by omega) (by omega) c hc f hcf
      · rw [hfile] at hcf
        cases hcf
        exact .inr ⟨hwr, w.outputFileCount, by omega, rfl⟩
    · rintro f ⟨k, hk, rfl⟩
      by_cases hko : k < w.outputFileCount
      · obtain ⟨c, hc, h1, h2⟩ := hI.writers _ ⟨k, hko, rfl⟩
        exact ⟨c, List.mem_append_left _ hc, h1, h2⟩
      · have hk' : k = w.outputFileCount := by omega
        exact ⟨cmd, by simp, hwr, by rw [hfile, hk']⟩
  · -- `sleep`: no file
    refine ⟨hI.workdir, hI.files, by simpa [hfile] using hI.nodup, ?_, hI.writers_append rfl⟩
    simp only [List.mem_append, List.mem_singleton]
    rintro c (hc | rfl) f hcf
    · exact hI.named c hc f hcf
    · simp [hfile] at hcf

end FilesNamed

/-- The loops of `setup_worker_files` keep the invariant. -/
theorem FilesNamed.setupWorkerFiles {w0 w w' : World} {cmds : List WorkerCmd} {seqReadMb : Nat}
    {tree : List Container} {planned : List Planned} (hI : FilesNamed w0 w cmds)
    (h : setupWorkerFiles seqReadMb tree w = .ok planned w') :
    FilesNamed w0 w' (cmds ++ planned.flatMap Planned.workerCmds) := by
  have hI' : FilesNamed w0 w (cmds ++ ([] : List Planned).flatMap Planned.workerCmds) := by
    simpa using hI
  refine mapM_invariant (fun s ps => FilesNamed w0 s (cmds ++ ps.flatMap Planned.workerCmds))
    ?_ hI' h
  intro container _ s ps p s' hP hp
  obtain ⟨cs, s1, hcs, hret⟩ := bind_eq_ok hp
  cases hret
  have hP' : FilesNamed w0 s (cmds ++ ps.flatMap Planned.workerCmds ++ []) := by
    simpa using hP
  have := mapM_invariant
    (fun s cs' => FilesNamed w0 s (cmds ++ ps.flatMap Planned.workerCmds ++ cs')) ?_ hP' hcs
  · simpa using this
  intro _ _ s bs b s' hQ hb
  obtain ⟨worker, s2, hw, hcmd⟩ := bind_eq_ok hb
  obtain ⟨-, rfl⟩ := liftExcept_eq_ok hw
  simpa only [List.append_assoc] using hQ.step hcmd

/-- The deletion loop of `remove_output_files` over the indices `l`. -/
theorem forM_removeFile (wd : List Char) (l : List Nat) (w : World) :
    ∃ w', l.forM (fun n => removeFile (outputFileName wd n)) w = .ok () w' ∧
      w'.outputFileCount = w.outputFileCount ∧
      ∀ f, w'.files f = true ↔ w.files f = true ∧ ∀ n ∈ l, f ≠ outputFileName wd n := by
  induction l generalizing w with
  | nil =>
      exact ⟨w, rfl, rfl, by simp⟩
  | cons n l ih =>
      obtain ⟨w', h, hout, hf⟩ :=
        ih { w with files := Function.update w.files (outputFileName wd n) false }
      refine ⟨w', by rw [List.forM_cons', bind_apply_ok (removeFile_apply _ _)]; exact h, hout,
        fun f => ?_⟩
      rw [hf f, List.forall_mem_cons]
      by_cases hfn : f = outputFileName wd n
      · subst hfn
        simp
      · simp [Function.update_noteq hfn, hfn]

/-- `remove_output_files` deletes `write0, ..., write(n-1)` for the counter `n`, keeps
every other file, and resets the counter. -/
theorem removeOutputFiles_spec (w : World) :
    ∃ w', removeOutputFiles w = .ok () w' ∧ w'.outputFileCount = 0 ∧
      ∀ f, w'.files f = true ↔
        w.files f = true ∧ ¬WriteFile w.workdir w.outputFileCount f := by
  obtain ⟨w', h, -, hf⟩ := forM_removeFile w.workdir (List.range w.outputFileCount) w
  refine ⟨_, by rw [removeOutputFiles, bind_apply_ok (get_apply w), bind_apply_ok h]; rfl, rfl,
    fun f => ?_⟩
  rw [hf f]
  simp [WriteFile, List.mem_range]

end DistinctFiles

section Frame

theorem Keeps.removeFile (file : List Char) : Keeps (Unchanged World.workdir) (removeFile file) :=
  Keeps.modify fun _ => rfl

theorem Keeps.someZeroedInputFile (pfx : List Char) (m : Nat) :
    Keeps (Unchanged World.workdir) (someZeroedInputFile pfx m) := by
  constructor <;> intro s _ s' h <;>
    obtain ⟨w', h', hwd, -⟩ := someZeroedInputFile_spec pfx m s <;>
    rw [h'] at h <;> cases h
  exact hwd

theorem Keeps.setupWorker (worker : List Char) (m : Nat) :
    Keeps (Unchanged World.workdir) (setupWorker worker m) := by
  unfold BlkcgroupTest.setupWorker
  refine Keeps.ite ((Keeps.someZeroedInputFile _ _).bind fun _ => Keeps.pure _)
    (Keeps.ite ((Keeps.someZeroedInputFile _ _).bind fun _ =>
      (Keeps.liftExcept _).bind fun _ => Keeps.get.bind fun _ => Keeps.pure _)
    (Keeps.ite ?_ (Keeps.ite (Keeps.pure _) (Keeps.throw _))))
  exact ⟨fun h => by cases h; rfl, fun h => by cases h⟩

/-- `setup_worker` keeps a relation that its file allocations keep. -/
theorem setupWorker_keeps {R : World → World → Prop} [IsRefl World R] [IsTrans World R]
    (hz : ∀ m, Keeps R (someZeroedInputFile "rddata".toList m))
    (ho : ∀ w, R w { w with outputFileCount := w.outputFileCount + 1 }) (worker : List Char)
    (m : Nat) : Keeps R (setupWorker worker m) := by
  unfold BlkcgroupTest.setupWorker
  refine Keeps.ite ((hz _).bind fun _ => Keeps.pure _)
    (Keeps.ite ((hz _).bind fun _ =>
      (Keeps.liftExcept _).bind fun _ => Keeps.get.bind fun _ => Keeps.pure _)
    (Keeps.ite ?_ (Keeps.ite (Keeps.pure _) (Keeps.throw _))))
  exact ⟨fun h => by cases h; exact ho _, fun h => by cases h⟩

theorem Keeps.setupWorkerFiles (seqReadMb : Nat) (tree : List Container) :
    Keeps (Unchanged World.workdir) (setupWorkerFiles seqReadMb tree) :=
  Keeps.mapM fun _ _ => (Keeps.mapM fun _ _ => (Keeps.liftExcept _).bind fun _ =>
    Keeps.setupWorker _ _).bind fun _ => Keeps.pure _

/-- `remove_output_files` keeps a relation that holds whatever it does to the files and
the output counter. -/
theorem removeOutputFiles_keeps {R : World → World → Prop} [IsRefl World R] [IsTrans World R]
    (hF : ∀ w f, R w { w with files := f }) (hC : ∀ w, R w { w with outputFileCount := 0 }) :
    Keeps R removeOutputFiles :=
  Keeps.get.bind fun _ => (Keeps.forM fun _ _ => Keeps.modify fun w => hF w _).bind fun _ =>
    Keeps.modify hC

theorem Keeps.removeOutputFiles : Keeps (Unchanged World.workdir) removeOutputFiles :=
  removeOutputFiles_keeps (fun _ _ => rfl) fun _ => rfl

end Frame

end BlkcgroupTest
