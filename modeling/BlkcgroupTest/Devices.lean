import BlkcgroupTest.PyText
import Mathlib.Data.List.DropRight

/-!
# blkcgroup test: the disk that holds the working volume

`run_experiments` measures the disk that holds `workvol`.  `device_holding_file` makes the
path absolute (`os.path.abspath`), walks up with `os.path.dirname` until
`os.path.ismount` holds, and then reads `/proc/mounts` for a `/dev/` entry mounted there;
the disk is the partition's name with its trailing digits stripped.

The path functions are those of Python 2's `posixpath`; `str.rstrip(chars)` is
`List.rdropWhile`.  What the function reads of the machine is a `MountTable`.  The walk is
a `while` loop that `dirname` does not always shorten: `dirname` of a path made only of
slashes is the path itself, so on a machine where such a path were not a mount point the
loop would never end.  `mountWalk` returns `none` exactly then.

Results:

* `deviceHoldingFile_walk`: for a process whose working directory is absolute, on a
  machine where the root is a mount point, the walk ends, at the nearest ancestor of the
  absolute path that is a mount point.
* `mountsLookup_result`: the lookup in `/proc/mounts` returns the name of the first `/dev/`
  entry mounted at the mount point, without `/dev/` and without its trailing digits (so it
  never ends in a digit), or raises the `IndexError` of a blank or one-field `/dev/` line
  before it, or the `ValueError` naming the file.
* `actualDiskDevice_result`: `actual_disk_device`, which maps a logical device to a disk
  through `tunedisknames printmap`, returns the first field of the first line mapping the
  device, or raises the `IndexError` of a short line before it, or the `ValueError`
  naming the device.

A POSIX machine's root is always a mount point: `PosixMounts` is a mount table with an
absolute working directory in which it is, and on it the lookup always ends
(`PosixMounts.deviceHolding`).  `setupHarness` in `Session` reads the device this way.

`enable_blkio_and_cfq`, which checks the disk and switches its scheduler to `cfq`, is
modelled over what it reads of the machine (`Sysfs`).
-/

namespace BlkcgroupTest

section Paths

/-- `os.path.dirname(p)`: `p[:p.rfind('/') + 1]`, with trailing slashes stripped unless it
is made only of slashes. -/
def dirname (p : List Char) : List Char :=
  let head := p.rdropWhile (· != '/')
  if head ≠ [] ∧ ¬ head.all (· == '/') then head.rdropWhile (· == '/') else head

/-- One component of the loop of `os.path.normpath`: skip `''` and `'.'`, let `'..'` pop
the component before it when there is one to pop, keep every other component. -/
def normComp (initialSlashes : Nat) (newComps : List (List Char)) (comp : List Char) :
    List (List Char) :=
  if comp = [] ∨ comp = ['.'] then newComps
  else if comp ≠ ['.', '.'] ∨ (initialSlashes = 0 ∧ newComps = []) ∨
      newComps.getLast? = some ['.', '.'] then newComps ++ [comp]
  else newComps.dropLast

/-- `os.path.normpath(path)`: one or two leading slashes kept (three or more become one),
then the components that `normComp` keeps, joined by `/`. -/
def normpath (path : List Char) : List Char :=
  if path = [] then ['.']
  else
    let initialSlashes :=
      if "//".toList.isPrefixOf path ∧ ¬ "///".toList.isPrefixOf path then 2
      else if path.head? = some '/' then 1 else 0
    let comps := (path.splitOn '/').foldl (normComp initialSlashes) []
    let path := List.replicate initialSlashes '/' ++ List.intercalate ['/'] comps
    if path = [] then ['.'] else path

/-- `os.path.abspath(path)` in the working directory `cwd`. -/
def abspath (cwd path : List Char) : List Char :=
  normpath (if path.head? = some '/' then path else pathJoin cwd path)

/-- What `device_holding_file` reads of the machine: the working directory of the process,
which paths are mount points, and the lines of `/proc/mounts`. -/
structure MountTable where
  cwd : List Char
  ismount : List Char → Bool
  mounts : List (List Char)

/-- A non-empty prefix starts where the list does. -/
theorem head?_eq_of_isPrefix {l₁ l₂ : List Char} (h : l₁ <+: l₂) (hne : l₁ ≠ []) :
    l₁.head? = l₂.head? := by
  obtain ⟨t, rfl⟩ := h
  cases l₁ with
  | nil => exact absurd rfl hne
  | cons c l => rfl

/-- `dirname` keeps at most what precedes the last slash, that slash included. -/
theorem dirname_isPrefix_head (p : List Char) : dirname p <+: p.rdropWhile (· != '/') := by
  dsimp only [dirname]
  split
  · exact List.rdropWhile_prefix _ _
  · exact List.prefix_refl _

theorem dirname_isPrefix (p : List Char) : dirname p <+: p :=
  (dirname_isPrefix_head p).trans (List.rdropWhile_prefix _ _)

/-- `dirname` shortens every path that is not made only of slashes. -/
theorem dirname_lt {p : List Char} (hs : ¬ ∀ c ∈ p, c = '/') : (dirname p).length < p.length := by
  rcases List.eq_nil_or_concat p with rfl | ⟨l, x, rfl⟩
  · exact absurd (fun c hc => absurd hc (List.not_mem_nil c)) hs
  rw [List.concat_eq_append] at hs ⊢
  by_cases hx : x = '/'
  · subst hx
    have hd : dirname (l ++ ['/']) = (l ++ ['/']).rdropWhile (· == '/') := by
      have hkeep := List.rdropWhile_concat_neg (· != '/') l '/' (by simp)
      simp only [dirname, hkeep]
      rw [if_pos ⟨by simp, fun h => hs fun c hc => by simpa using List.all_eq_true.1 h c hc⟩]
    rw [hd, List.rdropWhile_concat_pos _ _ _ (by simp), List.length_append, List.length_singleton]
    exact Nat.lt_succ_of_le (List.rdropWhile_prefix _ l).length_le
  · have := (dirname_isPrefix_head (l ++ [x])).length_le
    rw [List.rdropWhile_concat_pos _ _ _ (by simpa using hx)] at this
    have := (List.rdropWhile_prefix (· != '/') l).length_le
    simp only [List.length_append, List.length_singleton]
    omega

/-- `dirname` of an absolute path is absolute. -/
theorem dirname_head {p : List Char} (hp : p.head? = some '/') :
    (dirname p).head? = some '/' := by
  have hslash : '/' ∈ p := List.mem_of_mem_head? hp
  have hne : p.rdropWhile (· != '/') ≠ [] := fun h => by
    simpa using List.rdropWhile_eq_nil_iff.1 h '/' hslash
  have hhead : (p.rdropWhile (· != '/')).head? = some '/' := by
    rw [head?_eq_of_isPrefix (List.rdropWhile_prefix _ _) hne, hp]
  dsimp only [dirname]
  split
  · rename_i hc
    have hne' : (p.rdropWhile (· != '/')).rdropWhile (· == '/') ≠ [] := fun h =>
      hc.2 (List.all_eq_true.2 (List.rdropWhile_eq_nil_iff.1 h))
    rw [head?_eq_of_isPrefix (List.rdropWhile_prefix _ _) hne', hhead]
  · exact hhead

/-- `dirname` shortens its argument or leaves it as it is. -/
theorem dirname_eq_of_not_lt {p : List Char} (h : ¬ (dirname p).length < p.length) :
    dirname p = p :=
  (dirname_isPrefix p).eq_of_length (Nat.le_antisymm (dirname_isPrefix p).length_le (by omega))

/-- `while not os.path.ismount(mountpoint): mountpoint = os.path.dirname(mountpoint)`: the
mount point the loop stops at, or `none` when it never stops (`dirname` then returns a path
that is not a mount point unchanged, `dirname_eq_of_not_lt`). -/
def mountWalk (ismount : List Char → Bool) (mountpoint : List Char) : Option (List Char) :=
  if ismount mountpoint then some mountpoint
  else if (dirname mountpoint).length < mountpoint.length then
    mountWalk ismount (dirname mountpoint)
  else none
termination_by mountpoint.length

theorem iterate_dirname_isPrefix (k : Nat) (p : List Char) : dirname^[k] p <+: p := by
  induction k generalizing p with
  | zero => exact List.prefix_refl p
  | succ k ih =>
      rw [Function.iterate_succ_apply]
      exact (ih (dirname p)).trans (dirname_isPrefix p)

theorem iterate_dirname_head (k : Nat) {p : List Char} (hp : p.head? = some '/') :
    (dirname^[k] p).head? = some '/' := by
  induction k generalizing p with
  | zero => exact hp
  | succ k ih =>
      rw [Function.iterate_succ_apply]
      exact ih (dirname_head hp)

end Paths

section Walk

variable {ismount : List Char → Bool}
  (hroot : ∀ p : List Char, p ≠ [] → (∀ c ∈ p, c = '/') → ismount p = true)

include hroot in
/-- From an absolute path, on a machine where every path made only of slashes (the root)
is a mount point, the walk ends at the first of the paths `dirname` leads to that is a
mount point. -/
theorem mountWalk_spec {p : List Char} (hp : p.head? = some '/') :
    ∃ k, mountWalk ismount p = some (dirname^[k] p) ∧ ismount (dirname^[k] p) = true ∧
      ∀ j < k, ismount (dirname^[j] p) = false := by
  induction p using mountWalk.induct ismount with
  | case1 p hm =>
      refine ⟨0, ?_, hm, fun j hj => absurd hj (Nat.not_lt_zero j)⟩
      rw [mountWalk, if_pos hm]
      rfl
  | case2 p hm hlt ih =>
      obtain ⟨k, hw, hk, hbefore⟩ := ih (dirname_head hp)
      refine ⟨k + 1, ?_, hk, fun j hj => ?_⟩
      · rw [mountWalk, if_neg hm, if_pos hlt, hw, Function.iterate_succ_apply]
      · cases j with
        | zero => simpa using hm
        | succ j => exact hbefore j (by omega)
  | case3 p hm hlt =>
      have hne : p ≠ [] := by
        rintro rfl
        cases hp
      exact absurd (dirname_lt fun hs => hm (hroot p hne hs)) hlt

end Walk

section Holding

/-- `normpath` keeps a path absolute. -/
theorem normpath_head {path : List Char} (hp : path.head? = some '/') :
    (normpath path).head? = some '/' := by
  obtain ⟨r, rfl⟩ := List.head?_eq_some_iff.1 hp
  simp only [normpath]
  split_ifs <;> simp_all

/-- In an absolute working directory, `abspath` gives an absolute path. -/
theorem abspath_head {cwd : List Char} (hcwd : cwd.head? = some '/') (path : List Char) :
    (abspath cwd path).head? = some '/' := by
  refine normpath_head ?_
  split
  · assumption
  · obtain ⟨r, rfl⟩ := List.head?_eq_some_iff.1 hcwd
    simp only [pathJoin]
    split_ifs <;> simp_all

/-- The loop of `device_holding_file` over the lines of `/proc/mounts`. -/
def mountsLookup (filename mountpoint : List Char) :
    List (List Char) → Except PyError (List Char)
  | [] => .error (.valueError ("Could not find device holding ".toList ++ filename))
  | line :: lines =>
      match pySplit line with
      | [] => .error .indexError
      | part0 :: parts =>
          if "/dev/".toList.isPrefixOf part0 then
            match parts with
            | [] => .error .indexError
            | part1 :: _ =>
                if part1 = mountpoint then .ok ((part0.drop 5).rdropWhile Char.isDigit)
                else mountsLookup filename mountpoint lines
          else mountsLookup filename mountpoint lines

/-- `device_holding_file(filename)`, `none` when its walk never ends. -/
def deviceHoldingFile (t : MountTable) (filename : List Char) :
    Option (Except PyError (List Char)) :=
  (mountWalk t.ismount (abspath t.cwd filename)).map fun mountpoint =>
    mountsLookup filename mountpoint t.mounts

/-- The walk of `device_holding_file` ends: for a process whose working directory is
absolute, on a machine where the root is a mount point, it stops at the nearest of the
paths `dirname` leads to from `abspath(filename)` that is a mount point, an absolute
prefix of that path, and looks that mount point up in `/proc/mounts`. -/
theorem deviceHoldingFile_walk (t : MountTable) (filename : List Char)
    (hcwd : t.cwd.head? = some '/')
    (hroot : ∀ p : List Char, p ≠ [] → (∀ c ∈ p, c = '/') → t.ismount p = true) :
    ∃ k, deviceHoldingFile t filename =
        some (mountsLookup filename (dirname^[k] (abspath t.cwd filename)) t.mounts) ∧
      t.ismount (dirname^[k] (abspath t.cwd filename)) = true ∧
      (∀ j < k, t.ismount (dirname^[j] (abspath t.cwd filename)) = false) ∧
      dirname^[k] (abspath t.cwd filename) <+: abspath t.cwd filename ∧
      (dirname^[k] (abspath t.cwd filename)).head? = some '/' := by
  obtain ⟨k, hw, hk, hbefore⟩ := mountWalk_spec hroot (abspath_head hcwd filename)
  exact ⟨k, by rw [deviceHoldingFile, hw]; rfl, hk, hbefore, iterate_dirname_isPrefix k _,
    iterate_dirname_head k (abspath_head hcwd filename)⟩

theorem deviceHoldingFile_walk_mnt :
    ∃ k, deviceHoldingFile ⟨"/root".toList, fun p => p.all (· == '/') || p == "/mnt".toList,
          ["/dev/sdb1 /mnt ext4 rw 0 0".toList]⟩ "../mnt/data".toList =
        some (mountsLookup "../mnt/data".toList (dirname^[k] (abspath "/root".toList
          "../mnt/data".toList)) ["/dev/sdb1 /mnt ext4 rw 0 0".toList]) ∧
      (fun p => p.all (· == '/') || p == "/mnt".toList)
          (dirname^[k] (abspath "/root".toList "../mnt/data".toList)) = true ∧
      (∀ j < k, (fun p => p.all (· == '/') || p == "/mnt".toList)
          (dirname^[j] (abspath "/root".toList "../mnt/data".toList)) = false) ∧
      dirname^[k] (abspath "/root".toList "../mnt/data".toList) <+:
          abspath "/root".toList "../mnt/data".toList ∧
      (dirname^[k] (abspath "/root".toList "../mnt/data".toList)).head? = some '/' :=
  deviceHoldingFile_walk ⟨"/root".toList, fun p => p.all (· == '/') || p == "/mnt".toList,
      ["/dev/sdb1 /mnt ext4 rw 0 0".toList]⟩ "../mnt/data".toList rfl
    fun p _ hs => by simpa using Or.inl hs

/-- What `device_holding_file` reads of a running POSIX system: the working directory of
the process, an absolute path; the mount points below the root; and the lines of
`/proc/mounts`.  `os.path.ismount` holds of the root, which is its own parent, whatever
else is mounted. -/
structure PosixMounts where
  cwd : List Char
  mountedBelowRoot : List Char → Bool
  mounts : List (List Char)
  cwd_absolute : cwd.head? = some '/'

/-- The mount table of a POSIX system: a path made only of slashes is the root, a mount
point. -/
def PosixMounts.toMountTable (t : PosixMounts) : MountTable :=
  ⟨t.cwd, fun p => (p != [] && p.all (· == '/')) || t.mountedBelowRoot p, t.mounts⟩

theorem PosixMounts.root_ismount (t : PosixMounts) (p : List Char) (hne : p ≠ [])
    (hs : ∀ c ∈ p, c = '/') : t.toMountTable.ismount p = true := by
  simp [PosixMounts.toMountTable, hne, List.all_eq_true.2 fun c hc => beq_iff_eq.2 (hs c hc)]

theorem deviceHoldingFile_isSome (t : PosixMounts) (filename : List Char) :
    (deviceHoldingFile t.toMountTable filename).isSome := by
  obtain ⟨k, hw, -⟩ := mountWalk_spec t.root_ismount (abspath_head t.cwd_absolute filename)
  rw [deviceHoldingFile, show t.toMountTable.cwd = t.cwd from rfl, hw]
  rfl

/-- `device_holding_file(filename)` on a POSIX system, where its walk always ends. -/
def PosixMounts.deviceHolding (t : PosixMounts) (filename : List Char) :
    Except PyError (List Char) :=
  (deviceHoldingFile t.toMountTable filename).get (deviceHoldingFile_isSome t filename)

/-- When the absolute path is a mount point, the walk stops there at once. -/
theorem PosixMounts.deviceHolding_of_ismount (t : PosixMounts) (filename : List Char)
    (h : t.toMountTable.ismount (abspath t.cwd filename) = true) :
    t.deviceHolding filename = mountsLookup filename (abspath t.cwd filename) t.mounts := by
  refine Option.get_of_mem _ ?_
  show deviceHoldingFile t.toMountTable filename = some _
  rw [deviceHoldingFile, show t.toMountTable.cwd = t.cwd from rfl, mountWalk, if_pos h]
  rfl

theorem PosixMounts.deviceHolding_eq (t : PosixMounts) (filename : List Char) :
    ∃ k, t.deviceHolding filename =
        mountsLookup filename (dirname^[k] (abspath t.cwd filename)) t.mounts ∧
      t.toMountTable.ismount (dirname^[k] (abspath t.cwd filename)) = true ∧
      ∀ j < k, t.toMountTable.ismount (dirname^[j] (abspath t.cwd filename)) = false := by
  obtain ⟨k, hw, hk, hbefore⟩ :=
    mountWalk_spec t.root_ismount (abspath_head t.cwd_absolute filename)
  refine ⟨k, Option.get_of_mem _ ?_, hk, hbefore⟩
  show deviceHoldingFile t.toMountTable filename = some _
  rw [deviceHoldingFile, show t.toMountTable.cwd = t.cwd from rfl, hw]
  rfl

end Holding

section Lookup

/-- A line of `/proc/mounts` the loop reads past for the mount point `m`: it has a first
field, and when that names a `/dev/` entry, a second field other than `m`. -/
def SkipsMount (m line : List Char) : Prop :=
  ∃ part0 parts, pySplit line = part0 :: parts ∧
    ("/dev/".toList.isPrefixOf part0 = true → ∃ part1 rest, parts = part1 :: rest ∧ part1 ≠ m)

/-- What the loop does with one line: read past it, or stop at it with the `IndexError` of
a line with no field or a lone `/dev/` field, or with the entry mounted at `m`. -/
theorem mountsLookup_cons (filename m line : List Char) (lines : List (List Char)) :
    (SkipsMount m line ∧ mountsLookup filename m (line :: lines) = mountsLookup filename m lines) ∨
      (¬ SkipsMount m line ∧ (mountsLookup filename m (line :: lines) = .error .indexError ∨
        ∃ part0 rest, pySplit line = part0 :: m :: rest ∧
          "/dev/".toList.isPrefixOf part0 = true ∧
          mountsLookup filename m (line :: lines) = .ok ((part0.drop 5).rdropWhile Char.isDigit))) := by
  simp only [mountsLookup]
  split
  · rename_i hs
    exact .inr ⟨fun ⟨_, _, h, _⟩ => by simp [hs] at h, .inl rfl⟩
  · rename_i part0 parts hs
    split
    · rename_i hdev
      split
      · refine .inr ⟨fun ⟨_, _, h, hd⟩ => ?_, .inl rfl⟩
        obtain ⟨rfl, rfl⟩ := List.cons.inj (hs.symm.trans h)
        obtain ⟨_, _, h', -⟩ := hd hdev
        cases h'
      · rename_i part1 rest
        by_cases hm : part1 = m
        · subst hm
          refine .inr ⟨fun ⟨_, _, h, hd⟩ => ?_, .inr ⟨part0, rest, hs, hdev, if_pos rfl⟩⟩
          obtain ⟨rfl, rfl⟩ := List.cons.inj (hs.symm.trans h)
          obtain ⟨_, _, h', hne⟩ := hd hdev
          exact hne (List.cons.inj h').1.symm
        · exact .inl ⟨⟨part0, _, hs, fun _ => ⟨part1, rest, rfl, hm⟩⟩, if_neg hm⟩
    · rename_i hdev
      exact .inl ⟨⟨part0, parts, hs, fun h => absurd h hdev⟩, rfl⟩

/-- A `/dev/` field is `/dev/`, the name the lookup returns, and the digits it strips. -/
theorem dev_field_eq {part0 : List Char} (h : "/dev/".toList.isPrefixOf part0 = true) :
    part0 = "/dev/".toList ++ (part0.drop 5).rdropWhile Char.isDigit ++
      (part0.drop 5).rtakeWhile Char.isDigit := by
  obtain ⟨t, rfl⟩ := List.isPrefixOf_iff_prefix.1 h
  rw [List.drop_left' (show "/dev/".toList.length = 5 from rfl), List.append_assoc]
  congr 1
  simp [List.rdropWhile, List.rtakeWhile, ← List.reverse_append]

/-- The lookup in `/proc/mounts`: it raises the `ValueError` naming the file exactly when
every line is read past; when it returns a name, that is the first `/dev/` entry mounted at
`m` with `/dev/` and its trailing digits taken off, so the name never ends in a digit; and
the only other exception is the `IndexError` of a line with no field or a lone `/dev/`
field. -/
theorem mountsLookup_result (filename m : List Char) (lines : List (List Char)) :
    (mountsLookup filename m lines =
        .error (.valueError ("Could not find device holding ".toList ++ filename)) ↔
      ∀ line ∈ lines, SkipsMount m line) ∧
    (∀ d, mountsLookup filename m lines = .ok d → ∃ pre line post part0 rest ds,
      lines = pre ++ line :: post ∧ (∀ l ∈ pre, SkipsMount m l) ∧
      pySplit line = part0 :: m :: rest ∧ part0 = "/dev/".toList ++ d ++ ds ∧
      (∀ c ∈ ds, c.isDigit = true) ∧ ∀ c ∈ d.getLast?, c.isDigit = false) ∧
    ∀ e, mountsLookup filename m lines = .error e →
      e = .indexError ∨ e = .valueError ("Could not find device holding ".toList ++ filename) := by
  induction lines with
  | nil =>
      refine ⟨by simp [mountsLookup], fun _ h => ?_, fun _ h => ?_⟩
      · simp [mountsLookup] at h
      · simp only [mountsLookup, Except.error.injEq] at h
        exact .inr h.symm
  | cons line lines ih =>
      obtain ⟨ihv, iho, ihe⟩ := ih
      have hfirst : ¬ SkipsMount m line → ¬ ∀ l ∈ line :: lines, SkipsMount m l :=
        fun hs h => hs (h line (List.mem_cons_self _ _))
      rcases mountsLookup_cons filename m line lines with
        ⟨hs, hl⟩ | ⟨hs, hl | ⟨part0, rest, hsp, hdev, hl⟩⟩
      · rw [hl, List.forall_mem_cons]
        refine ⟨⟨fun h => ⟨hs, ihv.1 h⟩, fun h => ihv.2 h.2⟩, fun d hd => ?_, ihe⟩
        obtain ⟨pre, l, post, p0, r, ds, rfl, hpre, h⟩ := iho d hd
        exact ⟨line :: pre, l, post, p0, r, ds, rfl, List.forall_mem_cons.2 ⟨hs, hpre⟩, h⟩
      · rw [hl]
        refine ⟨iff_of_false (by simp) (hfirst hs), fun _ h => ?_, fun _ h => ?_⟩
        · cases h
        · cases h
          exact .inl rfl
      · rw [hl]
        refine ⟨iff_of_false (by simp) (hfirst hs), fun d hd => ?_, fun _ h => nomatch h⟩
        cases hd
        refine ⟨[], line, lines, part0, rest, _, rfl, by simp, hsp, dev_field_eq hdev,
          fun c hc => List.mem_rtakeWhile_imp hc, fun c hc => ?_⟩
        have hne : (part0.drop 5).rdropWhile Char.isDigit ≠ [] := by
          rintro h
          simp [h] at hc
        rw [List.getLast?_eq_getLast _ hne, Option.mem_some_iff] at hc
        subst hc
        simpa using List.rdropWhile_last_not _ _ hne

/-- Trailing digits come off whole: an NVMe partition gives a name that is not a disk. -/
example : mountsLookup "/mnt".toList "/".toList ["/dev/nvme0n1p2 / ext4 rw 0 0".toList] =
    .ok "nvme0n1p".toList := by decide

end Lookup

section Scheduler

/-- What `enable_blkio_and_cfq` reads of the machine, and the lines it writes to it. -/
structure Sysfs where
  pathExists : List Char → Bool
  blkioMounted : Bool
  lines : List Char → List Char
  written : List (List Char × List Char)

/-- `enable_blkio_and_cfq(device)`. -/
def enableBlkioAndCfq (device : List Char) : EStateM PyError Sysfs Unit := do
  let s ← get
  let disk := pathJoin "/sys/block".toList device
  (if !s.pathExists disk then
      throw (.external ("Machine does not have disk device ".toList ++ device))
    else pure ())
  (if !s.blkioMounted then throw (.external "Kernel not compiled with blkio support".toList)
    else pure ())
  let file := pathJoin disk "queue/scheduler".toList
  if "[cfq]".toList <:+: s.lines file then pure ()
  else do
    modify fun s => { s with written := s.written ++ [(file, "cfq".toList)] }
    if !s.pathExists "/dev/cgroup/blkio.weight".toList then
      throw (.external "Kernel hasn't implemented blkio.weight".toList)
    else pure ()

theorem enableBlkioAndCfq_apply (device : List Char) (s : Sysfs) :
    enableBlkioAndCfq device s =
      if !s.pathExists (pathJoin "/sys/block".toList device) then
        .error (.external ("Machine does not have disk device ".toList ++ device)) s
      else if !s.blkioMounted then
        .error (.external "Kernel not compiled with blkio support".toList) s
      else if "[cfq]".toList <:+: s.lines (pathJoin (pathJoin "/sys/block".toList device)
          "queue/scheduler".toList) then .ok () s
      else if !s.pathExists "/dev/cgroup/blkio.weight".toList then
        .error (.external "Kernel hasn't implemented blkio.weight".toList)
          { s with written := s.written ++ [(pathJoin (pathJoin "/sys/block".toList device)
            "queue/scheduler".toList, "cfq".toList)] }
      else .ok () { s with written := s.written ++ [(pathJoin (pathJoin "/sys/block".toList device)
            "queue/scheduler".toList, "cfq".toList)] } := by
  simp only [enableBlkioAndCfq, bind_apply_ok (get_apply s)]
  split_ifs <;> rfl

end Scheduler

section DiskMap

/-- A line of `tunedisknames printmap` the loop of `actual_disk_device` reads past for
`ldevice`: it has two fields, the second not `ldevice`. -/
def SkipsMapping (ldevice line : List Char) : Prop :=
  ∃ part0 part1 rest, pySplit line = part0 :: part1 :: rest ∧ part1 ≠ ldevice

/-- The loop of `actual_disk_device` over the lines of `tunedisknames printmap`. -/
def diskMapLookup (ldevice : List Char) : List (List Char) → Except PyError (List Char)
  | [] => .error (.valueError ("Could not find mapping for ".toList ++ ldevice))
  | line :: lines =>
      match pySplit line with
      | part0 :: part1 :: _ =>
          if part1 = ldevice then .ok part0 else diskMapLookup ldevice lines
      | _ => .error .indexError

/-- `actual_disk_device(ldevice)`, with `os.path.exists(tuner)` and the lines of the output
of `tunedisknames printmap`. -/
def actualDiskDevice (tunerExists : Bool) (diskMap : List (List Char)) (ldevice : List Char) :
    Except PyError (List Char) :=
  if !tunerExists then .ok ldevice else diskMapLookup ldevice diskMap

/-- The lookup returns the first field of the first line whose second field is `ldevice`,
every line before it having two fields. -/
theorem diskMapLookup_ok {ldevice d : List Char} {lines : List (List Char)}
    (h : diskMapLookup ldevice lines = .ok d) :
    ∃ pre line post rest, lines = pre ++ line :: post ∧ (∀ l ∈ pre, SkipsMapping ldevice l) ∧
      pySplit line = d :: ldevice :: rest := by
  induction lines with
  | nil => cases h
  | cons line lines ih =>
      unfold diskMapLookup at h
      split at h
      next part0 part1 rest hs =>
        split at h
        next hm =>
          cases h
          exact ⟨[], line, lines, rest, rfl, by simp, hm ▸ hs⟩
        next hm =>
          obtain ⟨pre, l, post, r, rfl, hpre, hl⟩ := ih h
          exact ⟨line :: pre, l, post, r, rfl,
            List.forall_mem_cons.2 ⟨⟨part0, part1, rest, hs, hm⟩, hpre⟩, hl⟩
      next => cases h

/-- What the loop does with one line: read past it, or stop at it with the `IndexError` of
a line with fewer than two fields, or with the first field of a line mapping `ldevice`. -/
theorem diskMapLookup_cons (ldevice line : List Char) (lines : List (List Char)) :
    (SkipsMapping ldevice line ∧ diskMapLookup ldevice (line :: lines) =
        diskMapLookup ldevice lines) ∨
      (¬ SkipsMapping ldevice line ∧ (diskMapLookup ldevice (line :: lines) = .error .indexError ∨
        ∃ d rest, pySplit line = d :: ldevice :: rest ∧
          diskMapLookup ldevice (line :: lines) = .ok d)) := by
  simp only [diskMapLookup]
  split
  · rename_i part0 part1 rest hs
    by_cases hm : part1 = ldevice
    · subst hm
      refine .inr ⟨fun ⟨_, _, _, h, hne⟩ => ?_, .inr ⟨part0, rest, hs, if_pos rfl⟩⟩
      exact hne (List.cons.inj (List.cons.inj (hs.symm.trans h)).2).1.symm
    · exact .inl ⟨⟨part0, part1, rest, hs, hm⟩, if_neg hm⟩
  · rename_i hs
    exact .inr ⟨fun ⟨_, _, _, h, _⟩ => hs _ _ _ h, .inl rfl⟩

/-- `actual_disk_device`: without the tool it returns `ldevice`.  With it, it raises the
`ValueError` naming `ldevice` exactly when every line is read past; when it returns a name,
that is the first field of the first line whose second field is `ldevice`; and the only
other exception is the `IndexError` of a line with fewer than two fields before it. -/
theorem actualDiskDevice_result (diskMap : List (List Char)) (ldevice : List Char) :
    actualDiskDevice false diskMap ldevice = .ok ldevice ∧
    (actualDiskDevice true diskMap ldevice =
        .error (.valueError ("Could not find mapping for ".toList ++ ldevice)) ↔
      ∀ line ∈ diskMap, SkipsMapping ldevice line) ∧
    (∀ d, actualDiskDevice true diskMap ldevice = .ok d → ∃ pre line post rest,
      diskMap = pre ++ line :: post ∧ (∀ l ∈ pre, SkipsMapping ldevice l) ∧
      pySplit line = d :: ldevice :: rest) ∧
    ∀ e, actualDiskDevice true diskMap ldevice = .error e →
      e = .indexError ∨ e = .valueError ("Could not find mapping for ".toList ++ ldevice) := by
  simp only [actualDiskDevice, Bool.not_false, Bool.not_true, if_true, Bool.false_eq_true,
    if_false, true_and]
  refine ⟨?_, fun d hd => diskMapLookup_ok hd, ?_⟩
  · induction diskMap with
    | nil => simp [diskMapLookup]
    | cons line lines ih =>
        rcases diskMapLookup_cons ldevice line lines with ⟨hs, hl⟩ | ⟨hs, hl | ⟨_, _, -, hl⟩⟩ <;>
          rw [hl]
        · simpa [hs] using ih
        all_goals exact iff_of_false (by simp) fun h => hs (h line (List.mem_cons_self _ _))
  · induction diskMap with
    | nil =>
        rintro e ⟨⟩
        exact .inr rfl
    | cons line lines ih =>
        rcases diskMapLookup_cons ldevice line lines with ⟨-, hl⟩ | ⟨-, hl | ⟨_, _, -, hl⟩⟩ <;>
          rw [hl]
        · exact ih
        · rintro e ⟨⟩
          exact .inl rfl
        · exact fun _ h => nomatch h

end DiskMap

end BlkcgroupTest
