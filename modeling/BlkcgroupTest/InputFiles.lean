import BlkcgroupTest.Workers

/-!
# blkcgroup test: the input files of a session

`run_experiments` starts a session with an emptied working directory and no existing
input files; each experiment resets `input_file_count` and asks
`some_zeroed_input_file(prefix, mbytes)` for its data files.  A file already as large
as asked is reused; a smaller one is grown by a `dd` that writes only the missing MiB,
and `existing_input_files` remembers the new size.

What a session asks for is a list of requests `(path, mbytes)`.  The spec side says
what they should do to each path: `maxFor` is the largest size asked so far, and
`fills` the `dd` writes, one for each request larger than every earlier one for its
path, from that earlier largest size to its own.  A session of the code is a list of
`InputCall`s run from a state with no existing input files (`InputFilesMatch`).

Results:

* `fills_consecutive`: the writes of each path cover `[0, v₁), [v₁, v₂), ...` up to the
  largest size asked, each MiB once.
* `runInputCalls_files`: every session returns, `existing_input_files` holds the largest
  size asked for each path (none while none was positive), and the `dd` commands it
  logs are exactly `fills` of its requests, in order.
* `setupWorkerFiles_readsWithin`: after `setup_worker_files`, every `rdseq` and `rdrand`
  command reads within its input file: `dd` reads the worker's share, `rand_read` an eighth
  of it, from a file recorded with at least that share.
-/

namespace BlkcgroupTest

section Requests

/-- The largest size asked for `p` by the requests `reqs`, `0` when none was. -/
def maxFor (p : List Char) (reqs : List (List Char × Nat)) : Nat :=
  reqs.foldl (fun v r => if r.1 = p then max v r.2 else v) 0

/-- A `dd if=/dev/zero of=path bs=1M seek=start count=stop-start`. -/
structure ZeroFill where
  path : List Char
  start : Nat
  stop : Nat
deriving DecidableEq, Repr

/-- The command line of a write. -/
def ZeroFill.cmd (f : ZeroFill) : List Char :=
  zeroFillCmd f.path f.start f.stop

/-- The writes the requests `later` should make after the requests `earlier`: a request
larger than every earlier one for its path writes from the largest of those to its
size. -/
def fillsFrom (earlier : List (List Char × Nat)) : List (List Char × Nat) → List ZeroFill
  | [] => []
  | (p, m) :: later =>
      (if maxFor p earlier < m then [⟨p, maxFor p earlier, m⟩] else []) ++
        fillsFrom (earlier ++ [(p, m)]) later

/-- The writes a whole session's requests should make. -/
def fills (reqs : List (List Char × Nat)) : List ZeroFill :=
  fillsFrom [] reqs

/-- The MiB ranges written to `p`, in order. -/
def rangesFor (p : List Char) (fs : List ZeroFill) : List (Nat × Nat) :=
  (fs.filter fun f => f.path = p).map fun f => (f.start, f.stop)

/-- The MiB a list of ranges writes, in order. -/
def writtenMiB (ranges : List (Nat × Nat)) : List Nat :=
  ranges.flatMap fun r => List.range' r.1 (r.2 - r.1)

/-- The ranges are non-empty, the first starts at `a`, each starts where the one before
stopped, and the last stops at `e`. -/
def Consecutive : Nat → Nat → List (Nat × Nat) → Prop
  | a, e, [] => a = e
  | a, e, (x, y) :: rs => x = a ∧ x < y ∧ Consecutive y e rs

theorem maxFor_append_single (p q : List Char) (m : Nat) (reqs : List (List Char × Nat)) :
    maxFor p (reqs ++ [(q, m)]) = if q = p then max (maxFor p reqs) m else maxFor p reqs := by
  simp [maxFor, List.foldl_append]

theorem le_maxFor {p : List Char} {m : Nat} {reqs : List (List Char × Nat)}
    (h : (p, m) ∈ reqs) : m ≤ maxFor p reqs := by
  induction reqs using List.reverseRecOn with
  | nil => simp at h
  | append_singleton reqs r ih =>
      obtain ⟨q, k⟩ := r
      rw [maxFor_append_single]
      rcases List.mem_append.1 h with h | h
      · have := ih h
        split <;> omega
      · obtain ⟨rfl, rfl⟩ := Prod.mk.inj_iff.1 (List.mem_singleton.1 h)
        simp

theorem fillsFrom_append_single (earlier later : List (List Char × Nat)) (p : List Char)
    (m : Nat) :
    fillsFrom earlier (later ++ [(p, m)]) = fillsFrom earlier later ++
      if maxFor p (earlier ++ later) < m then [⟨p, maxFor p (earlier ++ later), m⟩] else [] := by
  induction later generalizing earlier with
  | nil => simp [fillsFrom]
  | cons r later ih =>
      obtain ⟨q, k⟩ := r
      simp [fillsFrom, ih, List.append_assoc]

/-- One more request writes at most one range, from the largest earlier size. -/
theorem fills_append_single (reqs : List (List Char × Nat)) (p : List Char) (m : Nat) :
    fills (reqs ++ [(p, m)]) =
      fills reqs ++ if maxFor p reqs < m then [⟨p, maxFor p reqs, m⟩] else [] := by
  simpa using fillsFrom_append_single [] reqs p m

theorem Consecutive.le {a e : Nat} {rs : List (Nat × Nat)} (h : Consecutive a e rs) : a ≤ e := by
  induction rs generalizing a with
  | nil => exact Nat.le_of_eq h
  | cons r rs ih =>
      obtain ⟨x, y⟩ := r
      obtain ⟨rfl, hxy, h⟩ := h
      exact (Nat.le_of_lt hxy).trans (ih h)

theorem Consecutive.snoc {a e m : Nat} {rs : List (Nat × Nat)} (h : Consecutive a e rs)
    (hm : e < m) : Consecutive a m (rs ++ [(e, m)]) := by
  induction rs generalizing a with
  | nil => exact ⟨h.symm, hm, rfl⟩
  | cons r rs ih =>
      obtain ⟨x, y⟩ := r
      exact ⟨h.1, h.2.1, ih h.2.2⟩

/-- Consecutive ranges write each MiB from their start to their stop once, in order. -/
theorem writtenMiB_of_consecutive {a e : Nat} {rs : List (Nat × Nat)} (h : Consecutive a e rs) :
    writtenMiB rs = List.range' a (e - a) := by
  induction rs generalizing a with
  | nil =>
      cases h
      simp [writtenMiB]
  | cons r rs ih =>
      obtain ⟨x, y⟩ := r
      obtain ⟨rfl, hxy, h⟩ := h
      have hye := h.le
      have : writtenMiB ((x, y) :: rs) = List.range' x (y - x) ++ writtenMiB rs := by
        simp [writtenMiB]
      obtain ⟨k, rfl⟩ := Nat.exists_eq_add_of_le hxy.le
      rw [this, ih h, Nat.add_sub_cancel_left, List.range'_append_1]
      congr 1
      omega

/-- The writes of each path are consecutive ranges from `0` to the largest size asked. -/
theorem fills_consecutive (p : List Char) (reqs : List (List Char × Nat)) :
    Consecutive 0 (maxFor p reqs) (rangesFor p (fills reqs)) := by
  induction reqs using List.reverseRecOn with
  | nil => rfl
  | append_singleton reqs r ih =>
      obtain ⟨q, m⟩ := r
      rw [fills_append_single, maxFor_append_single]
      by_cases hq : q = p
      · subst hq
        by_cases hm : maxFor q reqs < m
        · simpa [hm, rangesFor, max_eq_right hm.le] using ih.snoc hm
        · simpa [hm, rangesFor, max_eq_left (Nat.le_of_not_lt hm)] using ih
      · rw [if_neg hq]
        split <;> simpa [hq, rangesFor] using ih

/-- Each path is written from MiB `0` to the largest size asked for it, each MiB once. -/
theorem fills_writtenMiB (p : List Char) (reqs : List (List Char × Nat)) :
    writtenMiB (rangesFor p (fills reqs)) = List.range (maxFor p reqs) := by
  rw [writtenMiB_of_consecutive (fills_consecutive p reqs), List.range_eq_range', Nat.sub_zero]

example : fills [("a".toList, 100), ("a".toList, 300), ("b".toList, 50), ("a".toList, 200)] =
    [⟨"a".toList, 0, 100⟩, ⟨"a".toList, 100, 300⟩, ⟨"b".toList, 0, 50⟩] := by
  decide

end Requests

section Session

/-- What a session does to the input files: `run_single_experiment` resetting the file
counters, or one call `some_zeroed_input_file(prefix, mbytes)`. -/
inductive InputCall
  | resetCounters
  | zeroedInputFile (pfx : List Char) (mbytes : Nat)

/-- One step of a session; a call returns the path it gave and the size it was asked. -/
def InputCall.run : InputCall → EStateM PyError World (Option (List Char × Nat))
  | .resetCounters => do
      modify fun w => { w with inputFileCount := 0, outputFileCount := 0 }
      return none
  | .zeroedInputFile pfx mbytes => do
      let name ← someZeroedInputFile pfx mbytes
      return some (name, mbytes)

/-- `some_zeroed_input_file` names the next file and grows it when it is too small. -/
theorem someZeroedInputFile_eq (pfx : List Char) (m : Nat) (w : World) :
    someZeroedInputFile pfx m w =
      let name := dataFileName w.workdir pfx w.inputFileCount
      let old := (w.existingInputFiles name).getD 0
      .ok name (if old < m then
          { w with inputFileCount := w.inputFileCount + 1,
                   system := w.system ++ [zeroFillCmd name old m],
                   existingInputFiles := Function.update w.existingInputFiles name (some m) }
        else { w with inputFileCount := w.inputFileCount + 1 }) := by
  simp only [someZeroedInputFile, bind_apply, get_apply, set_apply, utilsSystem, modify_apply,
    pure_apply]
  split <;> rfl

/-- The bookkeeping of `w` is what the requests `reqs` of a session should leave, from
the log `log0` the session started with. -/
structure InputFilesMatch (log0 : List (List Char)) (reqs : List (List Char × Nat))
    (w : World) : Prop where
  existing : ∀ p, w.existingInputFiles p =
    if maxFor p reqs = 0 then none else some (maxFor p reqs)
  system : w.system = log0 ++ (fills reqs).map ZeroFill.cmd

theorem InputFilesMatch.getD_existing {log0 : List (List Char)} {reqs : List (List Char × Nat)}
    {w : World} (hI : InputFilesMatch log0 reqs w) (p : List Char) :
    (w.existingInputFiles p).getD 0 = maxFor p reqs := by
  rw [hI.existing]
  split <;> simp [*]

/-- Every step of a session returns and keeps the bookkeeping what its requests should
leave. -/
theorem InputFilesMatch.step {log0 : List (List Char)} {reqs : List (List Char × Nat)}
    {w : World} (hI : InputFilesMatch log0 reqs w) (c : InputCall) :
    ∃ r w', c.run w = .ok r w' ∧ InputFilesMatch log0 (reqs ++ r.toList) w' := by
  cases c with
  | resetCounters =>
      exact ⟨none, _, rfl, by simpa using hI.existing, by simpa using hI.system⟩
  | zeroedInputFile pfx m =>
      refine ⟨some (dataFileName w.workdir pfx w.inputFileCount, m), _,
        by simp only [InputCall.run, bind_apply, someZeroedInputFile_eq]; rfl, ?_⟩
      rw [hI.getD_existing]
      by_cases hm : maxFor (dataFileName w.workdir pfx w.inputFileCount) reqs < m
      · refine ⟨fun p => ?_, by simp [fills_append_single, hm, hI.system, ZeroFill.cmd]⟩
        by_cases hp : dataFileName w.workdir pfx w.inputFileCount = p
        · subst hp
          simp [maxFor_append_single, hm, max_eq_right hm.le, Nat.ne_of_gt (Nat.zero_lt_of_lt hm)]
        · simp [maxFor_append_single, hm, hp, Function.update_apply, Ne.symm hp, hI.existing p]
      · have hsame : ∀ p, maxFor p (reqs ++ [(dataFileName w.workdir pfx w.inputFileCount, m)]) =
            maxFor p reqs := fun p => by
          rw [maxFor_append_single]
          split_ifs with hp
          · exact max_eq_left (hp ▸ Nat.le_of_not_lt hm)
          · rfl
        exact ⟨fun p => by simp [hm, hsame, hI.existing p],
          by simp [fills_append_single, hm, hI.system]⟩

/-- A whole session returns and leaves the bookkeeping its requests should leave. -/
theorem InputFilesMatch.run {log0 : List (List Char)} {reqs : List (List Char × Nat)}
    {w : World} (hI : InputFilesMatch log0 reqs w) (calls : List InputCall) :
    ∃ rs w', calls.mapM InputCall.run w = .ok rs w' ∧
      InputFilesMatch log0 (reqs ++ rs.filterMap id) w' := by
  induction calls generalizing reqs w with
  | nil => exact ⟨[], w, rfl, by simpa using hI⟩
  | cons c calls ih =>
      obtain ⟨r, w1, h1, hI1⟩ := hI.step c
      obtain ⟨rs, w', h2, hI'⟩ := ih hI1
      refine ⟨r :: rs, w', by rw [List.mapM_cons, bind_apply_ok h1, bind_apply_ok h2]; rfl, ?_⟩
      cases r <;> simpa using hI'

/-- From a start with no existing input files, every session returns; for each path `p`,
`existing_input_files[p]` is the largest size asked for it (none while none was
positive), the `dd` commands logged are the writes `fills` of the requests, in order,
and those of `p` cover MiB `0` up to that largest size consecutively, each MiB once. -/
theorem runInputCalls_files (calls : List InputCall) (w0 : World)
    (h0 : ∀ p, w0.existingInputFiles p = none) :
    ∃ rs w', calls.mapM InputCall.run w0 = .ok rs w' ∧
      w'.system = w0.system ++ (fills (rs.filterMap id)).map ZeroFill.cmd ∧
      ∀ p, w'.existingInputFiles p =
          (if maxFor p (rs.filterMap id) = 0 then none else some (maxFor p (rs.filterMap id))) ∧
        Consecutive 0 (maxFor p (rs.filterMap id)) (rangesFor p (fills (rs.filterMap id))) ∧
        writtenMiB (rangesFor p (fills (rs.filterMap id))) =
          List.range (maxFor p (rs.filterMap id)) ∧
        ∀ m, (p, m) ∈ rs.filterMap id → m ≤ maxFor p (rs.filterMap id) := by
  have hI : InputFilesMatch w0.system [] w0 := ⟨fun p => by simp [h0, maxFor], by simp [fills, fillsFrom]⟩
  obtain ⟨rs, w', hrun, hI'⟩ := hI.run calls
  rw [List.nil_append] at hI'
  exact ⟨rs, w', hrun, hI'.system, fun p => ⟨hI'.existing p, fills_consecutive p _,
    fills_writtenMiB p _, fun _ hm => le_maxFor hm⟩⟩

theorem runInputCalls_files_regrow :
    ∃ rs w', [.zeroedInputFile "rddata".toList 100, .resetCounters,
        .zeroedInputFile "rddata".toList 300, .zeroedInputFile "rddata".toList 50].mapM
          InputCall.run ⟨"/w".toList, [], 0, 0, fun _ => none, fun _ => false, []⟩ =
        .ok rs w' ∧
      w'.system = [] ++ (fills (rs.filterMap id)).map ZeroFill.cmd ∧
      ∀ p, w'.existingInputFiles p =
          (if maxFor p (rs.filterMap id) = 0 then none else some (maxFor p (rs.filterMap id))) ∧
        Consecutive 0 (maxFor p (rs.filterMap id)) (rangesFor p (fills (rs.filterMap id))) ∧
        writtenMiB (rangesFor p (fills (rs.filterMap id))) =
          List.range (maxFor p (rs.filterMap id)) ∧
        ∀ m, (p, m) ∈ rs.filterMap id → m ≤ maxFor p (rs.filterMap id) :=
  runInputCalls_files _ ⟨"/w".toList, [], 0, 0, fun _ => none, fun _ => false, []⟩ fun _ => rfl

end Session

section Readers

/-- From `w` to `w'` no recorded input file size went down: `setup_worker` gives each
reader the next `rddata` file, grown to at least the worker's share, and no statement of
`setup_worker_files` makes a recorded size smaller. -/
def Grown (w w' : World) : Prop :=
  ∀ p, (w.existingInputFiles p).getD 0 ≤ (w'.existingInputFiles p).getD 0

instance : IsRefl World Grown :=
  ⟨fun _ _ => le_rfl⟩

instance : IsTrans World Grown :=
  ⟨fun _ _ _ h1 h2 p => (h1 p).trans (h2 p)⟩

/-- `some_zeroed_input_file` leaves the file it names with at least `mbytes` MiB, and no
file with less than before. -/
theorem someZeroedInputFile_grows (pfx : List Char) (m : Nat) (w : World) :
    ∃ w', someZeroedInputFile pfx m w = .ok (dataFileName w.workdir pfx w.inputFileCount) w' ∧
      Grown w w' ∧
      m ≤ (w'.existingInputFiles (dataFileName w.workdir pfx w.inputFileCount)).getD 0 := by
  rw [someZeroedInputFile_eq]
  refine ⟨_, rfl, ?_⟩
  split
  · rename_i hlt
    refine ⟨fun p => ?_, by simp⟩
    by_cases hp : p = dataFileName w.workdir pfx w.inputFileCount
    · subst hp
      simp only [Function.update_same, Option.getD_some]
      omega
    · simp [Function.update_noteq hp]
  · exact ⟨fun _ => le_rfl, Nat.le_of_not_lt ‹_›⟩

theorem setupWorker_grows (worker : List Char) (m : Nat) : Keeps Grown (setupWorker worker m) :=
  setupWorker_keeps (fun m => by
    constructor <;> intro s _ s' h <;> obtain ⟨w', h', hg, -⟩ := someZeroedInputFile_grows _ m s <;>
      rw [h'] at h <;> cases h
    exact hg) (fun _ _ => le_rfl) _ _

/-- What a reading command reads lies in its input file as `w` records it, for a worker's
share of `m` MiB: `rdseq`'s `dd` reads `count = m` MiB of a file of at least `m` MiB, and
`rand_read` reads `count` records of `2^log_iosize` bytes, an eighth of `m` MiB, from such a
file. -/
def ReadsWithin (w : World) (m : Nat) : WorkerCmd → Prop
  | .ddRead f count _ => count = m ∧ m ≤ (w.existingInputFiles f).getD 0
  | .randRead _ count _ logIosize f =>
      count * 2 ^ logIosize * 8 = m * 2 ^ 20 ∧ m ≤ (w.existingInputFiles f).getD 0
  | _ => True

theorem ReadsWithin.mono {w w' : World} {m : Nat} {cmd : WorkerCmd} (h : ReadsWithin w m cmd)
    (hg : Grown w w') : ReadsWithin w' m cmd := by
  cases cmd with
  | ddRead f count e => exact ⟨h.1, h.2.trans (hg f)⟩
  | randRead d count dl l f => exact ⟨h.1, h.2.trans (hg f)⟩
  | ddWrite => trivial
  | sleep => trivial

/-- A command of `setup_worker` for `m` MiB reads within its file. -/
theorem setupWorker_readsWithin {worker : List Char} {m : Nat} {w w' : World} {cmd : WorkerCmd}
    (h : setupWorker worker m w = .ok cmd w') : ReadsWithin w' m cmd := by
  obtain ⟨w1, h1, -, hm⟩ := someZeroedInputFile_grows "rddata".toList m w
  simp only [setupWorker] at h
  split at h
  · rw [bind_apply_ok h1] at h
    cases h
    exact ⟨rfl, hm⟩
  split at h
  · rw [bind_apply_ok h1] at h
    obtain ⟨d, w2, h2, h3⟩ := bind_eq_ok h
    obtain ⟨-, rfl⟩ := liftExcept_eq_ok h2
    simp only [bind_apply, get_apply, pure_apply, EStateM.Result.ok.injEq] at h3
    obtain ⟨rfl, rfl⟩ := h3
    refine ⟨?_, hm⟩
    simp only [Nat.shiftLeft_eq, Nat.shiftRight_eq_div_pow]
    norm_num
    omega
  split at h
  · rw [bind_apply_ok (someOutputFile_apply w)] at h
    cases h
    trivial
  split at h
  · cases h
    trivial
  · cases h

/-- After `setup_worker_files`, every reading command reads within its input file: `dd`
reads its worker's share `seq_read_mb // worker_repeat` MiB, `rand_read` an eighth of it,
from a file recorded with at least that share. -/
theorem setupWorkerFiles_readsWithin {seqReadMb : Nat} {tree : List Container} {w w' : World}
    {planned : List Planned} (h : setupWorkerFiles seqReadMb tree w = .ok planned w') :
    ∀ p ∈ planned, ∀ cmd ∈ p.workerCmds, ReadsWithin w' (seqReadMb / p.workerRepeat) cmd := by
  have hstep : ∀ (c : Container) (a : Nat), Keeps Grown (do
      let worker ← liftExcept c.workerKey
      setupWorker worker (seqReadMb / c.workerRepeat) : EStateM PyError World WorkerCmd) :=
    fun _ _ => (Keeps.liftExcept _).bind fun _ => setupWorker_grows _ _
  refine mapM_forall_of_keeps
    (Q := fun s p => ∀ cmd ∈ p.workerCmds, ReadsWithin s (seqReadMb / p.workerRepeat) cmd)
    (fun hP hg cmd hc => (hP cmd hc).mono hg)
    (fun c _ => (Keeps.mapM fun a _ => hstep c a).bind fun _ => Keeps.pure _) ?_ h
  intro c _ s p s' hc
  obtain ⟨cmds, s1, hrun, ⟨⟩⟩ := bind_eq_ok hc
  refine mapM_forall_of_keeps (Q := fun t cmd => ReadsWithin t _ cmd) (fun hr hg => hr.mono hg)
    (fun a _ => hstep c a) (fun a _ s b s' hb => ?_) hrun
  obtain ⟨_, _, hkey, hrun'⟩ := bind_eq_ok hb
  obtain ⟨-, rfl⟩ := liftExcept_eq_ok hkey
  exact setupWorker_readsWithin hrun'

theorem setupWorkerFiles_readsWithin_rdrand :
    ∃ planned w', setupWorkerFiles 12 [⟨500, some "rdseq".toList, 2⟩,
        ⟨500, some "rdrand.delay5".toList, 1⟩]
        ⟨"/w".toList, "/s".toList, 0, 0, fun _ => none, fun _ => false, []⟩ = .ok planned w' ∧
      ∀ p ∈ planned, ∀ cmd ∈ p.workerCmds, ReadsWithin w' (12 / p.workerRepeat) cmd :=
  ⟨_, _, rfl, @setupWorkerFiles_readsWithin 12 [⟨500, some "rdseq".toList, 2⟩,
    ⟨500, some "rdrand.delay5".toList, 1⟩]
    ⟨"/w".toList, "/s".toList, 0, 0, fun _ => none, fun _ => false, []⟩ _ _ rfl⟩

end Readers

end BlkcgroupTest
