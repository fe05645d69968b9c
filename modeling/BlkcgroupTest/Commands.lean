import BlkcgroupTest.Workers

/-!
# blkcgroup test: command lines and the paths in them

`run_worker` starts a worker with `subprocess.Popen(cmd.split())`, and the harness runs
shell command lines through `utils.system`.  Both put the paths of the working
directory into a string and let whitespace split it again.

* `WorkerCmd.argv`: `cmd.split()` of a worker command; `WorkerCmd.fileOperand`: the
  argument that names the data file (`if=` and `of=` of `dd`, the last argument of
  `rand_read`).
* `echoPidCmd`, `rmContentsCmd`, `rmCmd`: the other shell command lines built from a
  path (`zeroFillCmd`, the fourth, is in `Workers`).

Results:

* `setupWorker_fileOperand`: when the working directory has no whitespace, the file
  operand of every command `setup_worker` accepts is the data file it allocated.
* `setupWorker_space_in_workvol`: with a space in `workvol` the operand of an `rdseq`
  worker is a different path.
* `shellCmd_words`: a path without whitespace is one word of each shell command line.
-/

namespace BlkcgroupTest

section Commands

/-- `cmd.split()` in `run_worker`: the argument vector of the worker process. -/
def WorkerCmd.argv (cmd : WorkerCmd) : List (List Char) :=
  pySplit cmd.render

/-- The argument that names the data file: the text after `if=` in the first argument of
a reading `dd`, after `of=` in the second argument of a writing one, and the last
argument of `rand_read`. -/
def WorkerCmd.fileOperand (cmd : WorkerCmd) : Option (List Char) :=
  match cmd, cmd.argv with
  | .ddRead .., _ :: word :: _ =>
      if "if=".toList.isPrefixOf word then some (word.drop 3) else none
  | .ddWrite .., _ :: _ :: word :: _ =>
      if "of=".toList.isPrefixOf word then some (word.drop 3) else none
  | .randRead .., words => words.getLast?
  | _, _ => none

/-- `'echo %d >> %s' % (p.pid, pids_file)` in `run_worker`. -/
def echoPidCmd (pid : Nat) (pidsFile : List Char) : List Char :=
  "echo ".toList ++ decimal pid ++ " >> ".toList ++ pidsFile

/-- `'kill %d' % pid` in `kill_slower_workers`. -/
def killCmd (pid : Nat) : List Char :=
  "kill ".toList ++ decimal pid

/-- `'rm -rf %s/*' % self.workdir` in `run_experiments`. -/
def rmContentsCmd (workdir : List Char) : List Char :=
  "rm -rf ".toList ++ workdir ++ "/*".toList

/-- `'rm -rf %s' % self.workdir` in `run_experiments`. -/
def rmCmd (workdir : List Char) : List Char :=
  "rm -rf ".toList ++ workdir

/-- Two tasks that echo into the same file write the same line only for the same pid. -/
theorem echoPidCmd_inj {i j : Nat} {pidsFile : List Char}
    (h : echoPidCmd i pidsFile = echoPidCmd j pidsFile) : i = j := by
  simp only [echoPidCmd, List.append_assoc, List.append_cancel_left_eq] at h
  have key : ∀ n, (decimal n ++ (" >> ".toList ++ pidsFile)).takeWhile Char.isDigit =
      decimal n := fun n => by
    rw [List.takeWhile_append_of_pos (decimal_digits n),
      show " >> ".toList ++ pidsFile = ' ' :: (">> ".toList ++ pidsFile) from rfl,
      List.takeWhile_cons_of_neg (by decide), List.append_nil]
  exact decimal_injective (by rw [← key i, h, key j])

theorem echoPidCmd_ne_killCmd (i j : Nat) (pidsFile : List Char) :
    echoPidCmd i pidsFile ≠ killCmd j := by
  simp [echoPidCmd, killCmd]

theorem noSpace_append {a b : List Char} (ha : NoSpace a) (hb : NoSpace b) : NoSpace (a ++ b) := by
  intro c hc
  rcases List.mem_append.1 hc with h | h
  · exact ha c h
  · exact hb c h

theorem noSpace_pathJoin {a b : List Char} (ha : NoSpace a) (hb : NoSpace b) :
    NoSpace (pathJoin a b) := by
  unfold pathJoin
  split_ifs
  · exact hb
  · exact noSpace_append ha hb
  · exact noSpace_append ha fun c hc => by
      rcases List.mem_cons.1 hc with rfl | h
      · rfl
      · exact hb c h

theorem noSpace_dataFileName {wd : List Char} (pfx : List Char) (n : Nat) (hwd : NoSpace wd)
    (hpfx : NoSpace pfx) : NoSpace (dataFileName wd pfx n) :=
  noSpace_pathJoin hwd (noSpace_append hpfx (decimal_noSpace n))

/-- A word `w` with no whitespace, then whitespace: `w` is the first argument. -/
theorem pySplit_word_append_space {w : List Char} (hne : w ≠ []) (hw : NoSpace w) {c : Char}
    (h : isSpace c = true) (s : List Char) : pySplit (w ++ c :: s) = w :: pySplit s := by
  rw [pySplit_append_space h, pySplit_word hne hw]
  rfl

theorem pySplit_append_space_word {w : List Char} (hne : w ≠ []) (hw : NoSpace w) {c : Char}
    (h : isSpace c = true) (s : List Char) : pySplit (s ++ c :: w) = pySplit s ++ [w] := by
  rw [pySplit_append_space h, pySplit_word hne hw]

/-- A file name with no whitespace is the file operand of a command that names it. -/
theorem fileOperand_eq {cmd : WorkerCmd} {f : List Char} (hf : cmd.fileName? = some f)
    (hne : f ≠ []) (hs : NoSpace f) : cmd.fileOperand = some f := by
  have hsp : isSpace ' ' = true := rfl
  cases cmd with
  | ddRead _ m e =>
      cases hf
      have hw : NoSpace ("if=".toList ++ f) := noSpace_append (by decide) hs
      have : (WorkerCmd.ddRead f m e).argv = "/bin/dd".toList :: ("if=".toList ++ f) ::
          pySplit ("of=/dev/null bs=1M count=".toList ++ decimal m ++ ' ' :: e) := by
        have h := pySplit_word_append_space (by simp) hw hsp
          ("of=/dev/null bs=1M count=".toList ++ decimal m ++ ' ' :: e)
        rw [← h, ← pySplit_word_append_space (by decide) (by decide) hsp]
        simp [WorkerCmd.argv, WorkerCmd.render]
      simp [WorkerCmd.fileOperand, this]
  | randRead d c dl l _ =>
      cases hf
      have : (WorkerCmd.randRead d c dl l f).argv =
          pySplit (d ++ "/rand_read -c ".toList ++ decimal c ++ ' ' :: dl ++ ' ' :: decimal l) ++
            [f] := by
        rw [← pySplit_append_space_word hne hs hsp]
        simp [WorkerCmd.argv, WorkerCmd.render]
      simp [WorkerCmd.fileOperand, this]
  | ddWrite _ n e =>
      cases hf
      have hw : NoSpace ("of=".toList ++ f) := noSpace_append (by decide) hs
      have : (WorkerCmd.ddWrite f n e).argv = "/bin/dd".toList :: "if=/dev/zero".toList ::
          ("of=".toList ++ f) :: pySplit ("bs=64K count=".toList ++ decimal n ++ ' ' :: e) := by
        have h := pySplit_word_append_space (by simp) hw hsp
          ("bs=64K count=".toList ++ decimal n ++ ' ' :: e)
        rw [← h, ← pySplit_word_append_space (by decide) (by decide) hsp,
          ← pySplit_word_append_space (by decide) (by decide) hsp]
        simp [WorkerCmd.argv, WorkerCmd.render]
      simp [WorkerCmd.fileOperand, this]
  | sleep => cases hf

theorem pathJoin_ne_nil (a : List Char) {b : List Char} (hb : b ≠ []) : pathJoin a b ≠ [] := by
  unfold pathJoin
  split_ifs <;> simp [hb]

theorem dataFileName_ne_nil (wd pfx : List Char) (n : Nat) : dataFileName wd pfx n ≠ [] :=
  pathJoin_ne_nil _ (by simp [decimal_ne_nil])

/-- When the working directory has no whitespace, the argument of every command
`setup_worker` accepts that names a data file names the file it allocated. -/
theorem setupWorker_fileOperand {worker : List Char} {mbytes : Nat} {w w' : World}
    {cmd : WorkerCmd} (hwd : NoSpace w.workdir) (hs : setupWorker worker mbytes w = .ok cmd w') :
    cmd.fileOperand = cmd.fileName? := by
  obtain ⟨-, -, ⟨-, hf, -⟩ | ⟨-, hf, -⟩ | ⟨hf, -⟩⟩ := setupWorker_cases hs
  · exact (fileOperand_eq hf (dataFileName_ne_nil _ _ _)
      (noSpace_dataFileName _ _ hwd (by decide))).trans hf.symm
  · exact (fileOperand_eq hf (dataFileName_ne_nil _ _ _)
      (noSpace_dataFileName _ _ hwd (by decide))).trans hf.symm
  · cases cmd <;> first | rfl | cases hf

/-- `' '.join(words)`. -/
def unwords : List (List Char) → List Char
  | [] => []
  | [w] => w
  | w :: ws => w ++ ' ' :: unwords ws

/-- Words without whitespace joined by spaces split back into themselves. -/
theorem pySplit_unwords (ws : List (List Char)) (h : ∀ w ∈ ws, w ≠ [] ∧ NoSpace w) :
    pySplit (unwords ws) = ws := by
  induction ws with
  | nil => rfl
  | cons w ws ih =>
      obtain ⟨⟨hne, hw⟩, hws⟩ := List.forall_mem_cons.1 h
      cases ws with
      | nil => exact pySplit_word hne hw
      | cons w' ws =>
          rw [show unwords (w :: w' :: ws) = w ++ ' ' :: unwords (w' :: ws) from rfl,
            pySplit_word_append_space hne hw (rfl : isSpace ' ' = true), ih hws]

theorem pySplit_eq_words {s : List Char} {ws : List (List Char)} (h : s = unwords ws)
    (hw : ∀ w ∈ ws, w ≠ [] ∧ NoSpace w) : pySplit s = ws :=
  h ▸ pySplit_unwords ws hw

/-- A path with no whitespace is one word of every shell command line built from it. -/
theorem shellCmd_words {path : List Char} (hne : path ≠ []) (hs : NoSpace path)
    (pid oldMbytes mbytes : Nat) :
    pySplit (zeroFillCmd path oldMbytes mbytes) = ["/bin/dd".toList, "if=/dev/zero".toList,
      "of=".toList ++ path, "bs=1M".toList, "seek=".toList ++ decimal oldMbytes,
      "count=".toList ++ decimal (mbytes - oldMbytes)] ∧
    pySplit (echoPidCmd pid path) = ["echo".toList, decimal pid, ">>".toList, path] ∧
    pySplit (rmContentsCmd path) = ["rm".toList, "-rf".toList, path ++ "/*".toList] ∧
    pySplit (rmCmd path) = ["rm".toList, "-rf".toList, path] := by
  have hword : ∀ {pfx sfx : List Char}, NoSpace pfx → NoSpace sfx → sfx ≠ [] →
      pfx ++ sfx ≠ [] ∧ NoSpace (pfx ++ sfx) :=
    fun hp hs hne => ⟨by simp [hne], noSpace_append hp hs⟩
  have hnum : ∀ pfx n, NoSpace pfx → pfx ++ decimal n ≠ [] ∧ NoSpace (pfx ++ decimal n) :=
    fun _ n hp => hword hp (decimal_noSpace n) (decimal_ne_nil n)
  refine ⟨pySplit_eq_words (by simp [zeroFillCmd, unwords]) ?_,
    pySplit_eq_words (by simp [echoPidCmd, unwords]) ?_,
    pySplit_eq_words (by simp [rmContentsCmd, unwords]) ?_,
    pySplit_eq_words (by simp [rmCmd, unwords]) ?_⟩ <;>
    simp only [List.forall_mem_cons, List.not_mem_nil, false_imp_iff, implies_true, and_true]
  · exact ⟨by decide, by decide, hword (by decide) hs hne, by decide, hnum _ _ (by decide),
      hnum _ _ (by decide)⟩
  · exact ⟨by decide, ⟨decimal_ne_nil _, decimal_noSpace _⟩, by decide, hne, hs⟩
  · exact ⟨by decide, by decide, by simp [hne], noSpace_append hs (by decide)⟩
  · exact ⟨by decide, by decide, hne, hs⟩

/-- For a `workvol` without whitespace, the argument of every worker command that names
a data file names the file `setup_worker` allocated, and the file or the working
directory is one whole word of each shell command line built from it. -/
theorem setupWorker_paths_are_words (workvol worker : List Char) (mbytes pid : Nat)
    {w w' : World} {cmd : WorkerCmd} (hvol : NoSpace workvol)
    (hwd : w.workdir = pathJoin workvol "blkcgroup_test_tmp".toList)
    (hs : setupWorker worker mbytes w = .ok cmd w') :
    cmd.fileOperand = cmd.fileName? ∧
      (∀ f ∈ cmd.fileName?, ∀ oldMbytes, pySplit (zeroFillCmd f oldMbytes mbytes) =
        ["/bin/dd".toList, "if=/dev/zero".toList, "of=".toList ++ f, "bs=1M".toList,
          "seek=".toList ++ decimal oldMbytes, "count=".toList ++ decimal (mbytes - oldMbytes)]) ∧
      pySplit (echoPidCmd pid (pathJoin w.workdir "pids_file".toList)) =
        ["echo".toList, decimal pid, ">>".toList, pathJoin w.workdir "pids_file".toList] ∧
      pySplit (rmContentsCmd w.workdir) = ["rm".toList, "-rf".toList, w.workdir ++ "/*".toList] ∧
      pySplit (rmCmd w.workdir) = ["rm".toList, "-rf".toList, w.workdir] := by
  have hws : NoSpace w.workdir := hwd ▸ noSpace_pathJoin hvol (by decide)
  have hne : w.workdir ≠ [] := hwd ▸ pathJoin_ne_nil _ (by simp)
  have hpids : NoSpace (pathJoin w.workdir "pids_file".toList) :=
    noSpace_pathJoin hws (by decide)
  refine ⟨setupWorker_fileOperand hws hs, fun f hf old => ?_,
    (shellCmd_words (pathJoin_ne_nil _ (by simp)) hpids pid 0 0).2.1,
    (shellCmd_words hne hws pid 0 0).2.2⟩
  obtain ⟨-, -, ⟨-, hf', -⟩ | ⟨-, hf', -⟩ | ⟨hf', -⟩⟩ := setupWorker_cases hs <;>
    rw [hf', Option.mem_def] at hf <;> cases hf
  · exact (shellCmd_words (dataFileName_ne_nil _ _ _)
      (noSpace_dataFileName _ _ hws (by decide)) 0 old mbytes).1
  · exact (shellCmd_words (dataFileName_ne_nil _ _ _)
      (noSpace_dataFileName _ _ hws (by decide)) 0 old mbytes).1

theorem setupWorker_paths_are_words_mnt_data :
    ∃ cmd w', setupWorker "rdseq".toList 1 ⟨pathJoin "/mnt/data".toList
        "blkcgroup_test_tmp".toList, "/s".toList, 0, 0, fun _ => none, fun _ => false, []⟩ =
        .ok cmd w' ∧
      cmd.fileName? = some "/mnt/data/blkcgroup_test_tmp/rddata0".toList ∧
      cmd.fileOperand = some "/mnt/data/blkcgroup_test_tmp/rddata0".toList := by
  obtain ⟨cmd, w', h, hn⟩ : ∃ cmd w', setupWorker "rdseq".toList 1 ⟨pathJoin "/mnt/data".toList
      "blkcgroup_test_tmp".toList, "/s".toList, 0, 0, fun _ => none, fun _ => false, []⟩ =
      .ok cmd w' ∧ cmd.fileName? = some "/mnt/data/blkcgroup_test_tmp/rddata0".toList :=
    ⟨_, _, rfl, by decide⟩
  exact ⟨cmd, w', h, hn,
    (setupWorker_paths_are_words "/mnt/data".toList _ 1 0 (by decide) rfl h).1.trans hn⟩

/-- With a space in `workvol`, `cmd.split()` cuts the data file of an `rdseq` worker in
two, and `dd` reads `/mnt/a`. -/
theorem setupWorker_space_in_workvol :
    ∃ cmd w', setupWorker "rdseq".toList 1 ⟨pathJoin "/mnt/a b".toList
        "blkcgroup_test_tmp".toList, "/s".toList, 0, 0, fun _ => none, fun _ => false, []⟩ =
        .ok cmd w' ∧
      cmd.fileName? = some "/mnt/a b/blkcgroup_test_tmp/rddata0".toList ∧
      cmd.fileOperand = some "/mnt/a".toList :=
  ⟨_, _, rfl, by decide, by decide⟩

end Commands

end BlkcgroupTest
