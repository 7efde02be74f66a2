import PmLogDaemon.Util.Printf
import PmLogDaemon.Config.Read

/-!
# The process lock: `LockProcess` and `UnlockProcess`

Model of `LockProcess` (`util.c:224-294`) and `UnlockProcess` (`util.c:303-310`) run by any
number of processes, interleaved, over the POSIX calls they make.

* `LockSys` is what the calls act on: `links` maps a path to the file it names, `content` a file
  to its bytes, `owner` a file to the process holding its `lockf` lock, and `pc` a process to its
  place in the two functions. `lockf(fd, F_TLOCK, 0)` right after `open` locks the whole file;
  the kernel grants it unless another process holds a lock on the file, and drops a process's
  locks on a file when it closes it, and all of them when it exits.
* `LockAct` is one call of one process: the `open` with `O_CREAT` (a new, empty file when the
  path names none), its failure, `lockf`, a `lockf` failure for another reason than the lock,
  `ftruncate` (which may fail), the `write` of the pid line (which may write fewer bytes), the
  `close` and the `unlink` of `UnlockProcess`, and exit. `lockStep` makes one; a call a process
  is not at leaves the state. The failures of `ftruncate` and `write` are only reported by
  `DbgPrint`: `LockProcess` returns true after them. `mkdir` changes no file of the model.
* Process `p` has pid `p`, and `pidLine p` is its `pidStr` (`mysprintfBuf_pid`).
* `lockPath component` is `lock->path`: `mysprintfBuf_lockPath` shows that `mysprintf` leaves
  it in the `PATH_MAX` bytes of the buffer; `mysprintfBuf_pid`, that it leaves `pidLine p` whole
  in the 16 bytes of `pidStr` (`util.c:272`), so the `strlen` after it counts the whole line.

`LockOk` is what every run keeps: the kernel's lock table is the set of processes between a
successful `lockf` and `close` (`LockInv`), the directory names each file by one path (`DirOk`),
and the pid files hold what `LockProcess` wrote (`PidOk`).

Results:
* `lockRun_lockInv`: in every run, two processes never hold the lock on one file.
* `lockRun_lockf_iff`: the `lockf` of a process succeeds exactly when no other process holds the
  lock on the file it opened.
* `lockRun_release_lockf`: once the holder exits, wherever it is in `LockProcess`, or closes the
  file, the next `lockf` on it succeeds: no lock outlives its holder.
* `lockRun_pidFile`: a process that returned from `LockProcess` after a successful `ftruncate`
  and a whole `write` finds its own pid line in the file for as long as it holds the lock.
* `lockRun_pidFile_firstLine`: after a whole `write` the first line of the file is the holder's
  pid even when `ftruncate` failed, since the line ends in `\n`; `lockRun_pidFile_stale_tail`:
  the rest of the file can then be the tail of an older pid.
* `lockRun_one_holder`: in a run where no process unlinks its pid file, at most one process
  holds the lock of a path; `lockRun_lockf_path_iff`: there `lockf` succeeds exactly when no other
  process holds the lock of the same path, so the lock is a mutex per path, and
  `lockRun_lockProcess`: a process whose path is free gets through `LockProcess` with its pid
  line in the file.
* `lockRun_unlink_race`: with the `unlink` of `UnlockProcess`, two processes can hold the lock of
  one path at once.
* `mysprintfBuf_lockPath_eq_iff`: the paths `mysprintf` leaves for two components are one path
  exactly when the components agree on their first `PATH_MAX - 10` characters, `.pid` included.
-/

namespace PmLogDaemon

/-! ## The lock path and the pid line -/

/-- `locksDirPath` of `LockProcess`. -/
def locksDirPath : List Char := "/tmp/run".toList

/-- `lock->path` after `mysprintf(lock->path, sizeof(lock->path), "%s/%s.pid", locksDirPath,
component)` (`util.c:241-242`). -/
def lockPath (component : List Char) : List Char :=
  (locksDirPath ++ '/' :: (component ++ ".pid".toList)).take (pathMax - 1)

theorem mysprintfBuf_lockPath (component : List Char) {dst : List Char}
    (hn : dst.length = pathMax) :
    ∃ buf, mysprintfBuf dst pathMax ['%', 's', '/', '%', 's', '.', 'p', 'i', 'd']
        [.str locksDirPath, .str component] = some buf ∧
      buf.length = pathMax ∧ Holds buf (lockPath component) :=
  mysprintfBuf_holds (by decide) hn rfl

theorem lockPath_eq_iff (a b : List Char) :
    lockPath a = lockPath b ↔
      (a ++ ".pid".toList).take (pathMax - 10) = (b ++ ".pid".toList).take (pathMax - 10) := by
  have h (c : List Char) : lockPath c = (locksDirPath ++ ['/']) ++
      (c ++ ".pid".toList).take (pathMax - 10) := by
    rw [lockPath, ← List.singleton_append, ← List.append_assoc, List.take_append_eq_append_take,
      List.take_of_length_le (by decide)]
    rfl
  rw [h, h, List.append_cancel_left_eq]

theorem nul_not_mem_lockPath {c : List Char} (hc : '\x00' ∉ c) : '\x00' ∉ lockPath c := fun h => by
  rcases List.mem_append.mp (List.mem_of_mem_take h) with h | h
  · exact absurd h (by decide)
  rcases List.mem_cons.mp h with h | h
  · exact absurd h (by decide)
  rcases List.mem_append.mp h with h | h
  · exact hc h
  · exact absurd h (by decide)

/-- **Two components, one lock path.** The paths that `mysprintf` leaves in `lock->path` for two
components, read up to their NUL as `open` reads them, are one path exactly when the components
agree on their first `PATH_MAX - 10` characters, `.pid` included: longer components that agree
that far share one pid file, and so one lock. -/
theorem mysprintfBuf_lockPath_eq_iff (a b : List Char) (ha : '\x00' ∉ a) (hb : '\x00' ∉ b)
    {dst dst' : List Char} (hd : dst.length = pathMax) (hd' : dst'.length = pathMax) :
    ∃ buf buf', mysprintfBuf dst pathMax ['%', 's', '/', '%', 's', '.', 'p', 'i', 'd']
        [.str locksDirPath, .str a] = some buf ∧
      mysprintfBuf dst' pathMax ['%', 's', '/', '%', 's', '.', 'p', 'i', 'd']
        [.str locksDirPath, .str b] = some buf' ∧
      (buf.takeWhile (· != '\x00') = buf'.takeWhile (· != '\x00') ↔
        (a ++ ".pid".toList).take (pathMax - 10) = (b ++ ".pid".toList).take (pathMax - 10)) := by
  obtain ⟨buf, hbuf, -, hh⟩ := mysprintfBuf_lockPath a hd
  obtain ⟨buf', hbuf', -, hh'⟩ := mysprintfBuf_lockPath b hd'
  refine ⟨buf, buf', hbuf, hbuf', ?_⟩
  rw [hh.takeWhile_ne_nul (nul_not_mem_lockPath ha),
    hh'.takeWhile_ne_nul (nul_not_mem_lockPath hb)]
  exact lockPath_eq_iff a b

/-- The daemon's component and a longer one, each in a buffer of `PATH_MAX` bytes. -/
theorem mysprintfBuf_lockPath_eq_iff_pmlogdaemon :
    '\x00' ∉ "pmlogdaemon".toList ∧ '\x00' ∉ "pmlogdaemon.1".toList ∧
    ∃ buf buf', mysprintfBuf (List.replicate pathMax 'z') pathMax
        ['%', 's', '/', '%', 's', '.', 'p', 'i', 'd'] [.str locksDirPath, .str "pmlogdaemon".toList] =
          some buf ∧
      mysprintfBuf (List.replicate pathMax 'z') pathMax ['%', 's', '/', '%', 's', '.', 'p', 'i', 'd']
        [.str locksDirPath, .str "pmlogdaemon.1".toList] = some buf' ∧
      (buf.takeWhile (· != '\x00') = buf'.takeWhile (· != '\x00') ↔
        ("pmlogdaemon".toList ++ ".pid".toList).take (pathMax - 10) =
          ("pmlogdaemon.1".toList ++ ".pid".toList).take (pathMax - 10)) :=
  ⟨by decide, by decide, mysprintfBuf_lockPath_eq_iff _ _ (by decide) (by decide)
    (List.length_replicate _ _) (List.length_replicate _ _)⟩

/-- `pidStr` after `mysprintf(pidStr, sizeof(pidStr), "%d\n", pid)` in process `p`. -/
def pidLine (p : Nat) : List Char := formatInt p ++ ['\n']

/-- `mysprintf` leaves the pid line of any pid of a 32-bit `int` whole in the 16 bytes of
`pidStr`, so the `strlen` after it counts the whole line. -/
theorem mysprintfBuf_pid (p : Nat) (hp : p < 2 ^ 31) {dst : List Char} (hn : dst.length = 16) :
    ∃ buf, mysprintfBuf dst 16 ['%', 'd', '\n'] [.int p] = some buf ∧
      Holds buf (pidLine p) ∧ strlenBuf buf = some (pidLine p).length := by
  have hout : formatOutput ['%', 'd', '\n'] [.int p] = some (pidLine p) := rfl
  have hlen := length_formatInt_le (n := p) (by omega) (by omega)
  obtain ⟨buf, hbuf, -, hholds⟩ := mysprintfBuf_holds (by decide) hn hout
  rw [List.take_of_length_le (by simp only [pidLine, List.length_append, List.length_singleton]; omega)]
    at hholds
  refine ⟨buf, hbuf, hholds, ?_⟩
  rw [hholds.eq_append, pidLine, strlenBuf_append _ _ ?_]
  simpa using nul_not_mem_formatInt p

/-- The bytes of a file after a `write` at offset 0 that wrote the first `n` bytes of `buf`. -/
def fileWrite (file buf : List Char) (n : Nat) : List Char :=
  buf.take n ++ file.drop (min n buf.length)

/-- A whole `write` leaves what it wrote first, and after it what the file held past that. -/
theorem fileWrite_of_le (file : List Char) {buf : List Char} {n : Nat} (h : buf.length ≤ n) :
    fileWrite file buf n = buf ++ file.drop buf.length := by
  rw [fileWrite, List.take_of_length_le h, Nat.min_eq_right h]

/-! ## The calls -/

/-- Where a process is in `LockProcess` and `UnlockProcess`. -/
inductive LockPc
  /-- Before the `open`. -/
  | idle
  /-- `fd` is open on file `ino`, before the `lockf`. -/
  | opened (ino : Nat)
  /-- The `lockf` on file `ino` succeeded, before the `ftruncate`. -/
  | locked (ino : Nat)
  /-- After the `ftruncate`; `ok` when it succeeded. -/
  | truncated (ino : Nat) (ok : Bool)
  /-- `LockProcess` returned true, holding the lock on file `ino`; `truncOk` when its
  `ftruncate` succeeded, `whole` when its `write` wrote the whole pid line. -/
  | holding (ino : Nat) (truncOk whole : Bool)
  /-- `LockProcess` returned false. -/
  | failed
  /-- `UnlockProcess` closed `lock->fd`, before the `unlink`. -/
  | closed
  /-- `UnlockProcess` returned. -/
  | unlocked
  /-- The process exited. -/
  | exited
  deriving DecidableEq, Repr

/-- The file `fd` is open on, from the `open` to the `close`. -/
def LockPc.file : LockPc → Option Nat
  | .opened ino | .locked ino | .truncated ino _ | .holding ino _ _ => some ino
  | _ => none

/-- The file whose lock a process holds, from its successful `lockf` to its `close`. -/
def LockPc.held : LockPc → Option Nat
  | .locked ino | .truncated ino _ | .holding ino _ _ => some ino
  | _ => none

theorem LockPc.file_of_held {x : LockPc} {i : Nat} (h : x.held = some i) : x.file = some i := by
  cases x <;> first | exact h | cases h

/-- A move that closes the file or keeps it open. -/
theorem LockPc.file_of_keeps {x y : LockPc} {i : Nat} (hx : x.file = none ∨ x.file = y.file)
    (hi : x.file = some i) : y.file = some i := by
  rcases hx with hx | hx <;> rw [hx] at hi
  · cases hi
  · exact hi

/-- The directory, the files, the kernel's lock table and the processes. -/
structure LockSys where
  /-- The file each path names. -/
  links : List Char → Option Nat
  /-- The file an `open` that creates one makes. -/
  nextIno : Nat
  /-- The bytes of each file. -/
  content : Nat → List Char
  /-- The process holding the `lockf` lock on each file. -/
  owner : Nat → Option Nat
  /-- Each process's place in the two functions. -/
  pc : Nat → LockPc

/-- The state before any process runs `LockProcess`: any directory and files, no lock held. -/
def LockSys.init (links : List Char → Option Nat) (nextIno : Nat) (content : Nat → List Char) :
    LockSys :=
  ⟨links, nextIno, content, fun _ => none, fun _ => .idle⟩

/-- One call of process `p`. -/
inductive LockAct
  /-- `open(lock->path, O_RDWR | O_CREAT, S_IRUSR | S_IWUSR)` succeeds. -/
  | openFile (p : Nat)
  /-- The `open` fails: `LockProcess` returns false. -/
  | openFail (p : Nat)
  /-- `lockf(fd, F_TLOCK, 0)`. -/
  | lockf (p : Nat)
  /-- The `lockf` fails for another reason than the lock: `LockProcess` returns false. -/
  | lockfFail (p : Nat)
  /-- `ftruncate(fd, 0)`, which succeeds when `ok`. -/
  | ftruncate (p : Nat) (ok : Bool)
  /-- `write(fd, pidStr, pidStrLen)`, which writes `n` bytes (none when it fails). -/
  | write (p : Nat) (n : Nat)
  /-- `close(lock->fd)` in `UnlockProcess`. -/
  | close (p : Nat)
  /-- `unlink(lock->path)` in `UnlockProcess`. -/
  | unlink (p : Nat)
  /-- The process exits. -/
  | exit (p : Nat)
  deriving DecidableEq, Repr

def LockAct.isUnlink : LockAct → Bool
  | .unlink _ => true
  | _ => false

/-- Process `p` moves to `x`. -/
def LockSys.setPc (s : LockSys) (p : Nat) (x : LockPc) : LockSys :=
  { s with pc := Function.update s.pc p x }

@[simp] theorem LockSys.setPc_links (s : LockSys) (p : Nat) (x : LockPc) :
    (s.setPc p x).links = s.links := rfl

@[simp] theorem LockSys.setPc_owner (s : LockSys) (p : Nat) (x : LockPc) :
    (s.setPc p x).owner = s.owner := rfl

@[simp] theorem LockSys.setPc_pc_self (s : LockSys) (p : Nat) (x : LockPc) :
    (s.setPc p x).pc p = x := Function.update_same _ _ _

@[simp] theorem LockSys.setPc_pc_ne (s : LockSys) {p q : Nat} (x : LockPc) (h : q ≠ p) :
    (s.setPc p x).pc q = s.pc q := Function.update_noteq h _ _

section Step

variable (path : Nat → List Char)

/-- One call, with `path p` the lock path of process `p`. -/
def lockStep (s : LockSys) : LockAct → LockSys
  | .openFile p =>
    if s.pc p = .idle then
      match s.links (path p) with
      | some ino => s.setPc p (.opened ino)
      | none => LockSys.setPc { s with links := Function.update s.links (path p) (some s.nextIno),
                                       nextIno := s.nextIno + 1,
                                       content := Function.update s.content s.nextIno [] }
                  p (.opened s.nextIno)
    else s
  | .openFail p => if s.pc p = .idle then s.setPc p .failed else s
  | .lockf p =>
    match s.pc p with
    | .opened ino =>
      if s.owner ino = none ∨ s.owner ino = some p then
        LockSys.setPc { s with owner := Function.update s.owner ino (some p) } p (.locked ino)
      else s.setPc p .failed
    | _ => s
  | .lockfFail p =>
    match s.pc p with
    | .opened _ => s.setPc p .failed
    | _ => s
  | .ftruncate p ok =>
    match s.pc p with
    | .locked ino =>
      LockSys.setPc
        { s with content := Function.update s.content ino (if ok then [] else s.content ino) }
        p (.truncated ino ok)
    | _ => s
  | .write p n =>
    match s.pc p with
    | .truncated ino ok =>
      LockSys.setPc
        { s with content := Function.update s.content ino (fileWrite (s.content ino) (pidLine p) n) }
        p (.holding ino ok (decide ((pidLine p).length ≤ n)))
    | _ => s
  | .close p =>
    match s.pc p with
    | .holding ino _ _ => LockSys.setPc { s with owner := Function.update s.owner ino none } p .closed
    | _ => s
  | .unlink p =>
    if s.pc p = .closed then
      LockSys.setPc { s with links := Function.update s.links (path p) none } p .unlocked
    else s
  | .exit p =>
    LockSys.setPc { s with owner := fun i => if s.owner i = some p then none else s.owner i }
      p .exited

/-- A run: the calls in order. -/
def lockRun (s : LockSys) (acts : List LockAct) : LockSys := acts.foldl (lockStep path) s

/-- Every state of a run has a property every step keeps. -/
theorem lockRun_induction (P : LockSys → Prop) (hstep : ∀ s a, P s → P (lockStep path s a)) :
    ∀ (acts : List LockAct) {s : LockSys}, P s → P (lockRun path s acts)
  | [], _, h => h
  | a :: acts, _, h => lockRun_induction P hstep acts (hstep _ a h)

theorem lockRun_append_single (s : LockSys) (acts : List LockAct) (a : LockAct) :
    lockRun path s (acts ++ [a]) = lockStep path (lockRun path s acts) a := by
  rw [lockRun, List.foldl_append, List.foldl_cons, List.foldl_nil]
  rfl

end Step

/-! ## The kernel's lock table -/

/-- The kernel's lock table is the set of processes between a successful `lockf` and `close`. -/
def LockInv (s : LockSys) : Prop := ∀ p i, s.owner i = some p ↔ (s.pc p).held = some i

theorem LockInv.holding_unique {s : LockSys} (h : LockInv s) {p q i : Nat}
    (hp : (s.pc p).held = some i) (hq : (s.pc q).held = some i) : p = q :=
  Option.some.inj (((h p i).mpr hp).symm.trans ((h q i).mpr hq))

/-- A file whose lock is free, or held by `p`, has no other holder. -/
theorem LockInv.not_held_of_free {s : LockSys} (h : LockInv s) {p q ino : Nat}
    (hfree : s.owner ino = none ∨ s.owner ino = some p) (hq : q ≠ p) :
    (s.pc q).held ≠ some ino := fun h' => by
  have ho := (h q ino).mpr h'
  rcases hfree with hf | hf <;> rw [hf] at ho
  · cases ho
  · exact hq (Option.some.inj ho).symm

/-- Bytes written to the file `p` holds change no file another process holds. -/
theorem LockInv.content_frame {s : LockSys} (h : LockInv s) {p ino : Nat}
    (hp : (s.pc p).held = some ino) (v : List Char) :
    ∀ q i, q ≠ p → (s.pc q).held = some i → Function.update s.content ino v i = s.content i :=
  fun _ _ hq hi => Function.update_noteq (fun he => hq (h.holding_unique (he ▸ hi) hp)) _ _

/-- A process moves to a place where it holds the same lock, and the table is left. -/
theorem LockInv.keep {s s' : LockSys} (h : LockInv s) {p : Nat} {x : LockPc}
    (ho : s'.owner = s.owner) (hpc : s'.pc = Function.update s.pc p x)
    (hx : x.held = (s.pc p).held) : LockInv s' := by
  intro q i
  rw [ho, hpc]
  by_cases hq : q = p
  · subst hq
    rw [Function.update_same, hx]
    exact h q i
  · rw [Function.update_noteq hq]
    exact h q i

/-- A successful `lockf`. -/
theorem LockInv.acquire {s : LockSys} (h : LockInv s) {p ino : Nat} (hp : s.pc p = .opened ino)
    (hfree : s.owner ino = none ∨ s.owner ino = some p) :
    LockInv (LockSys.setPc { s with owner := Function.update s.owner ino (some p) } p
      (.locked ino)) := by
  intro q i
  rw [LockSys.setPc_owner]
  show Function.update s.owner ino (some p) i = some q ↔ _
  by_cases hq : q = p
  · subst hq
    rw [LockSys.setPc_pc_self]
    by_cases hi : i = ino
    · subst hi
      rw [Function.update_same]
      exact iff_of_true rfl rfl
    · rw [Function.update_noteq hi, h q i, hp]
      exact iff_of_false nofun fun h' => hi (Option.some.inj h').symm
  · rw [LockSys.setPc_pc_ne _ _ hq]
    by_cases hi : i = ino
    · subst hi
      rw [Function.update_same]
      exact iff_of_false (fun h' => hq (Option.some.inj h').symm) (h.not_held_of_free hfree hq)
    · rw [Function.update_noteq hi]
      exact h q i

/-- `close` of the file a process holds the lock on. -/
theorem LockInv.release {s : LockSys} (h : LockInv s) {p ino : Nat}
    (hp : (s.pc p).held = some ino) :
    LockInv (LockSys.setPc { s with owner := Function.update s.owner ino none } p .closed) := by
  intro q i
  rw [LockSys.setPc_owner]
  show Function.update s.owner ino none i = some q ↔ _
  by_cases hq : q = p
  · subst hq
    rw [LockSys.setPc_pc_self]
    refine iff_of_false (fun h' => ?_) nofun
    by_cases hi : i = ino
    · subst hi
      rw [Function.update_same] at h'
      cases h'
    · rw [Function.update_noteq hi, h q i, hp] at h'
      exact hi (Option.some.inj h').symm
  · rw [LockSys.setPc_pc_ne _ _ hq]
    by_cases hi : i = ino
    · subst hi
      rw [Function.update_same]
      exact iff_of_false nofun fun h' => hq (h.holding_unique h' hp)
    · rw [Function.update_noteq hi]
      exact h q i

/-- An exit: the kernel drops every lock of the process. -/
theorem LockInv.exit {s : LockSys} (h : LockInv s) (p : Nat) :
    LockInv (LockSys.setPc { s with owner := fun i => if s.owner i = some p then none else s.owner i }
      p .exited) := by
  intro q i
  rw [LockSys.setPc_owner]
  show (if s.owner i = some p then none else s.owner i) = some q ↔ _
  by_cases hq : q = p
  · subst hq
    rw [LockSys.setPc_pc_self]
    refine iff_of_false (fun h' => ?_) nofun
    split at h'
    · cases h'
    · exact ‹¬_› h'
  · rw [LockSys.setPc_pc_ne _ _ hq, ← h q i]
    split
    · rename_i ho
      rw [ho]
      exact iff_of_false nofun fun h' => hq (Option.some.inj h').symm
    · exact Iff.rfl

/-! ## The directory -/

/-- The directory names each file by at most one path, and the files it names and those the
processes have open were all made before `nextIno`. -/
structure DirOk (s : LockSys) : Prop where
  links_lt : ∀ P i, s.links P = some i → i < s.nextIno
  links_inj : ∀ P P' i, s.links P = some i → s.links P' = some i → P = P'
  procs_lt : ∀ p i, (s.pc p).file = some i → i < s.nextIno

/-- A step that only removes names and moves one process to a file made before `nextIno`. -/
theorem DirOk.step {s s' : LockSys} (h : DirOk s) {p : Nat} {x : LockPc}
    (hl : ∀ P i, s'.links P = some i → s.links P = some i) (hn : s'.nextIno = s.nextIno)
    (hpc : s'.pc = Function.update s.pc p x) (hx : ∀ i, x.file = some i → i < s.nextIno) :
    DirOk s' := by
  refine ⟨fun P i hP => hn ▸ h.links_lt P i (hl P i hP),
    fun P P' i hP hP' => h.links_inj P P' i (hl P i hP) (hl P' i hP'), fun q i hq => hn ▸ ?_⟩
  rw [hpc] at hq
  by_cases hqp : q = p
  · subst hqp
    rw [Function.update_same] at hq
    exact hx i hq
  · rw [Function.update_noteq hqp] at hq
    exact h.procs_lt q i hq

theorem DirOk.keep {s s' : LockSys} (h : DirOk s) {p : Nat} {x : LockPc}
    (hl : s'.links = s.links) (hn : s'.nextIno = s.nextIno) (hpc : s'.pc = Function.update s.pc p x)
    (hx : x.file = none ∨ x.file = (s.pc p).file) : DirOk s' :=
  h.step (fun _ _ hP => hl ▸ hP) hn hpc fun i hi => h.procs_lt p i (LockPc.file_of_keeps hx hi)

/-- An `open` that creates the file `nextIno` at a path that names none. -/
theorem DirOk.create {s : LockSys} (h : DirOk s) {P : List Char} (hnone : s.links P = none)
    (p : Nat) (c : Nat → List Char) :
    DirOk (LockSys.setPc
      { s with links := Function.update s.links P (some s.nextIno), nextIno := s.nextIno + 1,
               content := c } p (.opened s.nextIno)) := by
  have hval : ∀ Q i, Function.update s.links P (some s.nextIno) Q = some i →
      (Q = P ↔ i = s.nextIno) ∧ (Q ≠ P → s.links Q = some i) := by
    intro Q i hi
    by_cases hQ : Q = P
    · subst hQ
      rw [Function.update_same] at hi
      cases hi
      exact ⟨iff_of_true rfl rfl, fun h => absurd rfl h⟩
    · rw [Function.update_noteq hQ] at hi
      exact ⟨iff_of_false hQ (Nat.ne_of_lt (h.links_lt Q i hi)), fun _ => hi⟩
  refine ⟨fun Q i hi => ?_, fun Q Q' i hQ hQ' => ?_, fun q i hq => ?_⟩
  · by_cases hQ : Q = P
    · exact ((hval Q i hi).1.mp hQ) ▸ Nat.lt_succ_self _
    · exact Nat.lt_succ_of_lt (h.links_lt Q i ((hval Q i hi).2 hQ))
  · by_cases hQP : Q = P
    · exact hQP.trans ((hval Q' i hQ').1.mpr ((hval Q i hQ).1.mp hQP)).symm
    · have hQ'P : Q' ≠ P := fun he => hQP ((hval Q i hQ).1.mpr ((hval Q' i hQ').1.mp he))
      exact h.links_inj Q Q' i ((hval Q i hQ).2 hQP) ((hval Q' i hQ').2 hQ'P)
  · by_cases hqp : q = p
    · subst hqp
      rw [LockSys.setPc_pc_self] at hq
      cases hq
      exact Nat.lt_succ_self _
    · rw [LockSys.setPc_pc_ne _ _ hqp] at hq
      exact Nat.lt_succ_of_lt (h.procs_lt q i hq)

/-- `unlink` only removes a name. -/
theorem update_none_eq_some {f : List Char → Option Nat} {P Q : List Char} {i : Nat}
    (h : Function.update f P none Q = some i) : f Q = some i := by
  by_cases hQ : Q = P
  · subst hQ
    rw [Function.update_same] at h
    cases h
  · rwa [Function.update_noteq hQ] at h

theorem dirOk_init {links : List Char → Option Nat} {n : Nat}
    (hlt : ∀ P i, links P = some i → i < n)
    (hinj : ∀ P P' i, links P = some i → links P' = some i → P = P') (content : Nat → List Char) :
    DirOk (LockSys.init links n content) :=
  ⟨hlt, hinj, fun _ _ => nofun⟩

/-! ## The pid file -/

/-- What the file of process `p` at `x` holds: nothing after a successful `ftruncate`; after a
whole `write`, the pid line first, and only the pid line when the `ftruncate` succeeded. -/
def PidFileOk (p : Nat) : LockPc → List Char → Prop
  | .truncated _ true, c => c = []
  | .holding _ ok true, c => pidLine p <+: c ∧ (ok = true → c = pidLine p)
  | _, _ => True

theorem pidFileOk_holding {p ino : Nat} {ok : Bool} {c : List Char} :
    PidFileOk p (.holding ino ok true) c ↔ pidLine p <+: c ∧ (ok = true → c = pidLine p) :=
  Iff.rfl

/-- Every file a process holds is as `PidFileOk` says. -/
def PidOk (s : LockSys) : Prop :=
  ∀ p i, (s.pc p).held = some i → PidFileOk p (s.pc p) (s.content i)

/-- A step that writes no file another process holds, and moves one process. -/
theorem PidOk.step {s s' : LockSys} (h : PidOk s) {p : Nat} {x : LockPc}
    (hpc : s'.pc = Function.update s.pc p x)
    (hc : ∀ q i, q ≠ p → (s.pc q).held = some i → s'.content i = s.content i)
    (hx : ∀ i, x.held = some i → PidFileOk p x (s'.content i)) : PidOk s' := by
  intro q i hq
  rw [hpc] at hq ⊢
  by_cases hqp : q = p
  · subst hqp
    rw [Function.update_same] at hq ⊢
    exact hx i hq
  · rw [Function.update_noteq hqp] at hq ⊢
    rw [hc q i hqp hq]
    exact h q i hq

/-! ## What every run keeps -/

/-- The invariant of the lock over runs. -/
structure LockOk (s : LockSys) : Prop where
  lockInv : LockInv s
  dirOk : DirOk s
  pidOk : PidOk s

theorem lockOk_init {links : List Char → Option Nat} {n : Nat}
    (hlt : ∀ P i, links P = some i → i < n)
    (hinj : ∀ P P' i, links P = some i → links P' = some i → P = P') (content : Nat → List Char) :
    LockOk (LockSys.init links n content) :=
  ⟨fun _ _ => iff_of_false nofun nofun, dirOk_init hlt hinj content, fun _ _ => nofun⟩

section Run

variable (path : Nat → List Char)

/-- The lock table needs nothing of the directory. -/
theorem lockStep_lockInv {s : LockSys} (h : LockInv s) : ∀ a, LockInv (lockStep path s a)
  | .openFile p => by
    rw [lockStep]
    split
    · rename_i hidle
      split <;> exact h.keep rfl rfl (congrArg LockPc.held hidle).symm
    · exact h
  | .lockf p => by
    rw [lockStep]
    split
    · rename_i ino hp
      split
      · exact h.acquire hp ‹_›
      · exact h.keep rfl rfl (congrArg LockPc.held hp).symm
    · exact h
  | .close p => by
    rw [lockStep]
    split
    · rename_i ino ok whole hp
      exact h.release (congrArg LockPc.held hp)
    · exact h
  | .openFail p | .lockfFail p | .ftruncate p _ | .write p _ | .unlink p => by
    rw [lockStep]
    split
    · rename_i hp
      exact h.keep rfl rfl (congrArg LockPc.held hp).symm
    · exact h
  | .exit p => h.exit p

theorem lockStep_dirOk_pidOk {s : LockSys} (h : LockOk s) :
    ∀ a, DirOk (lockStep path s a) ∧ PidOk (lockStep path s a)
  | .openFile p => by
    rw [lockStep]
    split
    · split
      · rename_i ino hino
        exact ⟨h.dirOk.step (fun _ _ => id) rfl rfl fun i hi =>
            h.dirOk.links_lt _ i (Option.some.inj hi ▸ hino),
          h.pidOk.step rfl (fun _ _ _ _ => rfl) nofun⟩
      · exact ⟨h.dirOk.create ‹_› p _,
          h.pidOk.step rfl (fun q i _ hi => Function.update_noteq
            (Nat.ne_of_lt (h.dirOk.procs_lt q i (LockPc.file_of_held hi))) _ _) nofun⟩
    · exact ⟨h.dirOk, h.pidOk⟩
  | .lockf p => by
    rw [lockStep]
    split
    · rename_i ino hp
      split
      · exact ⟨h.dirOk.keep rfl rfl rfl (.inr (congrArg LockPc.file hp).symm),
          h.pidOk.step rfl (fun _ _ _ _ => rfl) fun _ _ => trivial⟩
      · exact ⟨h.dirOk.keep rfl rfl rfl (.inl rfl),
          h.pidOk.step rfl (fun _ _ _ _ => rfl) nofun⟩
    · exact ⟨h.dirOk, h.pidOk⟩
  | .ftruncate p ok => by
    rw [lockStep]
    split
    · rename_i ino hp
      refine ⟨h.dirOk.keep rfl rfl rfl (.inr (congrArg LockPc.file hp).symm),
        h.pidOk.step rfl (h.lockInv.content_frame (congrArg LockPc.held hp) _) fun i hi => ?_⟩
      obtain rfl := Option.some.inj hi
      cases ok
      · trivial
      · exact Function.update_same _ _ _
    · exact ⟨h.dirOk, h.pidOk⟩
  | .write p n => by
    rw [lockStep]
    split
    · rename_i ino ok hp
      refine ⟨h.dirOk.keep rfl rfl rfl (.inr (congrArg LockPc.file hp).symm),
        h.pidOk.step rfl (h.lockInv.content_frame (congrArg LockPc.held hp) _) fun i hi => ?_⟩
      obtain rfl := Option.some.inj hi
      cases hw : decide ((pidLine p).length ≤ n)
      · trivial
      · have hold : ok = true → s.content ino = [] := fun hok => by
          have h0 := h.pidOk p ino (congrArg LockPc.held hp)
          rw [hp, hok] at h0
          exact h0
        show PidFileOk p (.holding ino ok true)
          (Function.update s.content ino (fileWrite (s.content ino) (pidLine p) n) ino)
        rw [Function.update_same, fileWrite_of_le _ (of_decide_eq_true hw)]
        exact pidFileOk_holding.mpr ⟨List.prefix_append _ _, fun hok => by
          rw [hold hok, List.drop_nil, List.append_nil]⟩
    · exact ⟨h.dirOk, h.pidOk⟩
  | .unlink p => by
    rw [lockStep]
    split
    · exact ⟨h.dirOk.step (fun _ _ => update_none_eq_some) rfl rfl nofun,
        h.pidOk.step rfl (fun _ _ _ _ => rfl) nofun⟩
    · exact ⟨h.dirOk, h.pidOk⟩
  | .openFail p | .lockfFail p | .close p => by
    rw [lockStep]
    split
    · exact ⟨h.dirOk.keep rfl rfl rfl (.inl rfl),
        h.pidOk.step rfl (fun _ _ _ _ => rfl) nofun⟩
    · exact ⟨h.dirOk, h.pidOk⟩
  | .exit p => ⟨h.dirOk.keep rfl rfl rfl (.inl rfl),
      h.pidOk.step rfl (fun _ _ _ _ => rfl) nofun⟩

theorem lockStep_lockOk {s : LockSys} (h : LockOk s) (a : LockAct) : LockOk (lockStep path s a) :=
  ⟨lockStep_lockInv path h.lockInv a, (lockStep_dirOk_pidOk path h a).1,
    (lockStep_dirOk_pidOk path h a).2⟩

theorem lockRun_lockInv_init (links : List Char → Option Nat) (n : Nat)
    (content : Nat → List Char) (acts : List LockAct) :
    LockInv (lockRun path (LockSys.init links n content) acts) :=
  lockRun_induction path LockInv (fun _ a h => lockStep_lockInv path h a) acts
    fun _ _ => iff_of_false nofun nofun

theorem lockRun_lockInv (links : List Char → Option Nat) (n : Nat) (content : Nat → List Char)
    (acts : List LockAct) :
    LockInv (lockRun path (LockSys.init links n content) acts) ∧
      ∀ p q i, ((lockRun path (LockSys.init links n content) acts).pc p).held = some i →
        ((lockRun path (LockSys.init links n content) acts).pc q).held = some i → p = q :=
  have h := lockRun_lockInv_init path links n content acts
  ⟨h, fun _ _ _ => h.holding_unique⟩

/-! ## `lockf` fails only for a live holder -/

theorem lockStep_lockf_iff {s : LockSys} (h : LockInv s) {p ino : Nat} (hp : s.pc p = .opened ino) :
    (lockStep path s (.lockf p)).pc p = .locked ino ↔ ∀ q, q ≠ p → (s.pc q).held ≠ some ino := by
  simp only [lockStep, hp]
  split
  · rename_i hfree
    exact iff_of_true (LockSys.setPc_pc_self _ _ _) fun q hq => h.not_held_of_free hfree hq
  · rename_i hfree
    refine iff_of_false (by simp) fun hall => hfree ?_
    cases ho : s.owner ino with
    | none => exact .inl rfl
    | some q =>
      by_cases hq : q = p
      · exact .inr (hq ▸ rfl)
      · exact absurd ((h q ino).mp ho) (hall q hq)

theorem lockRun_lockf_iff (links : List Char → Option Nat) (n : Nat) (content : Nat → List Char)
    (acts : List LockAct) {p ino : Nat}
    (hp : (lockRun path (LockSys.init links n content) acts).pc p = .opened ino) :
    (lockRun path (LockSys.init links n content) (acts ++ [.lockf p])).pc p = .locked ino ↔
      ∀ q, q ≠ p → ((lockRun path (LockSys.init links n content) acts).pc q).held ≠ some ino := by
  rw [lockRun_append_single]
  exact lockStep_lockf_iff path (lockRun_lockInv_init path links n content acts) hp

/-- Process 0 opens a new pid file, so its `lockf` succeeds: no other process holds a lock. -/
theorem lockRun_lockf_iff_first :
    (lockRun (fun _ => ['x']) (LockSys.init (fun _ => none) 0 (fun _ => []))
        ([.openFile 0] ++ [.lockf 0])).pc 0 = .locked 0 ↔
      ∀ q, q ≠ 0 → ((lockRun (fun _ => ['x']) (LockSys.init (fun _ => none) 0 (fun _ => []))
        [.openFile 0]).pc q).held ≠ some 0 :=
  lockRun_lockf_iff _ _ _ _ _ (by decide)

/-- **A lock is never left stale.** Once the holder of a file's lock exits, wherever it is in
`LockProcess`, or closes the file in `UnlockProcess`, the `lockf` of a process that has that file
open succeeds. -/
theorem lockRun_release_lockf (links : List Char → Option Nat) (n : Nat)
    (content : Nat → List Char) (acts : List LockAct) {p q ino : Nat} (a : LockAct)
    (ha : a = .exit p ∧ ((lockRun path (LockSys.init links n content) acts).pc p).held = some ino ∨
      a = .close p ∧ ∃ ok whole,
        (lockRun path (LockSys.init links n content) acts).pc p = .holding ino ok whole)
    (hq : (lockRun path (LockSys.init links n content) acts).pc q = .opened ino) :
    (lockRun path (LockSys.init links n content) (acts ++ [a, .lockf q])).pc q = .locked ino := by
  set s := lockRun path (LockSys.init links n content) acts
  have h := lockRun_lockInv_init path links n content acts
  -- `p` held the lock, holds nothing after `a`, and `a` moves no other process
  obtain ⟨hheld, hp', hframe⟩ : (s.pc p).held = some ino ∧ ((lockStep path s a).pc p).held = none ∧
      ∀ r, r ≠ p → (lockStep path s a).pc r = s.pc r := by
    rcases ha with ⟨rfl, hp⟩ | ⟨rfl, ok, whole, hp⟩
    · exact ⟨hp, by simp [lockStep, LockPc.held], fun r hr => LockSys.setPc_pc_ne _ _ hr⟩
    · refine ⟨by rw [hp]; rfl, by simp [lockStep, hp, LockPc.held], fun r hr => ?_⟩
      simp only [lockStep, hp]
      exact LockSys.setPc_pc_ne _ _ hr
  have hqp : q ≠ p := fun he => by subst he; rw [hq] at hheld; cases hheld
  rw [show acts ++ [a, .lockf q] = (acts ++ [a]) ++ [.lockf q] by simp, lockRun_append_single,
    lockRun_append_single]
  refine (lockStep_lockf_iff path (lockStep_lockInv path h a) (by rw [hframe q hqp, hq])).mpr
    fun r _ hr => ?_
  by_cases hrp : r = p
  · rw [hrp, hp'] at hr
    cases hr
  · rw [hframe r hrp] at hr
    exact hrp (h.holding_unique hr hheld)

/-- Process 0 takes the lock and exits before its `ftruncate`; process 1, which opened the file
meanwhile, takes it. -/
theorem lockRun_release_lockf_exit :
    ((lockRun (fun _ => ['x']) (LockSys.init (fun _ => none) 0 (fun _ => []))
      [.openFile 0, .lockf 0, .openFile 1]).pc 0).held = some 0 ∧
    (lockRun (fun _ => ['x']) (LockSys.init (fun _ => none) 0 (fun _ => []))
      ([.openFile 0, .lockf 0, .openFile 1] ++ [.exit 0, .lockf 1])).pc 1 = .locked 0 :=
  have hheld : ((lockRun (fun _ => ['x']) (LockSys.init (fun _ => none) 0 (fun _ => []))
      [.openFile 0, .lockf 0, .openFile 1]).pc 0).held = some 0 := by decide
  ⟨hheld, lockRun_release_lockf _ _ _ _ _ (p := 0) (.exit 0) (.inl ⟨rfl, hheld⟩) (by decide)⟩

/-! ## The pid file -/

theorem lockRun_lockOk {links : List Char → Option Nat} {n : Nat}
    (hlt : ∀ P i, links P = some i → i < n)
    (hinj : ∀ P P' i, links P = some i → links P' = some i → P = P')
    (content : Nat → List Char) (acts : List LockAct) :
    LockOk (lockRun path (LockSys.init links n content) acts) :=
  lockRun_induction path LockOk (fun _ a h => lockStep_lockOk path h a) acts (lockOk_init hlt hinj content)

/-- **The pid file names its holder.** From any directory that names each file by one path, all
made before `n`, and any stale contents: a process that returned from `LockProcess` after a
successful `ftruncate` and a whole `write` has its own pid line as the whole content of the file
it holds, for as long as it holds it. -/
theorem lockRun_pidFile {links : List Char → Option Nat} {n : Nat}
    (hlt : ∀ P i, links P = some i → i < n)
    (hinj : ∀ P P' i, links P = some i → links P' = some i → P = P')
    (content : Nat → List Char) (acts : List LockAct) {p i : Nat}
    (hp : (lockRun path (LockSys.init links n content) acts).pc p = .holding i true true) :
    (lockRun path (LockSys.init links n content) acts).content i = pidLine p := by
  have h := (lockRun_lockOk path hlt hinj content acts).pidOk p i (congrArg LockPc.held hp)
  rw [hp] at h
  exact (pidFileOk_holding.mp h).2 rfl

/-- Process 0 creates the pid file and writes its line `"0\n"` whole. -/
theorem lockRun_pidFile_zero :
    (lockRun (fun _ => ['x']) (LockSys.init (fun _ => none) 0 (fun _ => []))
        [.openFile 0, .lockf 0, .ftruncate 0 true, .write 0 2]).pc 0 = .holding 0 true true ∧
      (lockRun (fun _ => ['x']) (LockSys.init (fun _ => none) 0 (fun _ => []))
        [.openFile 0, .lockf 0, .ftruncate 0 true, .write 0 2]).content 0 = pidLine 0 :=
  ⟨by decide, lockRun_pidFile _ (by simp) (by simp) _ _ (by decide)⟩

/-- **The first line of the pid file names its holder.** From any directory that names each file
by one path, all made before `n`, and any stale contents: a process that returned from
`LockProcess` after a whole `write` finds its pid as the first line of the file it holds, for as
long as it holds it, whether its `ftruncate` succeeded or not. -/
theorem lockRun_pidFile_firstLine {links : List Char → Option Nat} {n : Nat}
    (hlt : ∀ P i, links P = some i → i < n)
    (hinj : ∀ P P' i, links P = some i → links P' = some i → P = P')
    (content : Nat → List Char) (acts : List LockAct) {p i : Nat} {ok : Bool}
    (hp : (lockRun path (LockSys.init links n content) acts).pc p = .holding i ok true) :
    ((lockRun path (LockSys.init links n content) acts).content i).takeWhile (· != '\n') =
      formatInt p := by
  have h := (lockRun_lockOk path hlt hinj content acts).pidOk p i (congrArg LockPc.held hp)
  rw [hp] at h
  obtain ⟨t, ht⟩ := (pidFileOk_holding.mp h).1
  have hdigits : ∀ c ∈ formatInt p, (c != '\n') = true := fun c hc =>
    bne_iff_ne.mpr fun he => newline_not_mem_formatInt p (he ▸ hc)
  rw [← ht, pidLine, List.append_assoc, List.takeWhile_append_of_pos hdigits, List.singleton_append,
    List.takeWhile_cons_of_neg (by decide), List.append_nil]

/-- The directory of the examples below: the path `x` names file 0. -/
def staleLinks (P : List Char) : Option Nat := if P = ['x'] then some 0 else none

/-- **A failed `ftruncate` leaves a stale tail.** A pid file left by an instance with pid
`123456`; process 7 opens it, locks it, fails to truncate it and writes `"7\n"` whole: the file
holds `"7\n3456\n"`, `LockProcess` returns true, and the first line is still `7`. -/
theorem lockRun_pidFile_stale_tail :
    (lockRun (fun _ => ['x']) (LockSys.init staleLinks 1 (fun _ => "123456\n".toList))
      [.openFile 7, .lockf 7, .ftruncate 7 false, .write 7 2]).pc 7 = .holding 0 false true ∧
    (lockRun (fun _ => ['x']) (LockSys.init staleLinks 1 (fun _ => "123456\n".toList))
      [.openFile 7, .lockf 7, .ftruncate 7 false, .write 7 2]).content 0 = "7\n3456\n".toList ∧
    ((lockRun (fun _ => ['x']) (LockSys.init staleLinks 1 (fun _ => "123456\n".toList))
      [.openFile 7, .lockf 7, .ftruncate 7 false, .write 7 2]).content 0).takeWhile (· != '\n') =
      formatInt 7 :=
  have hlt : ∀ P i, staleLinks P = some i → i < 1 := fun P i h => by
    unfold staleLinks at h
    split at h <;> cases h
    decide
  have hinj : ∀ P P' i, staleLinks P = some i → staleLinks P' = some i → P = P' :=
    fun P P' i h h' => by
      unfold staleLinks at h h'
      split at h <;> split at h' <;> simp_all
  have hp : (lockRun (fun _ => ['x']) (LockSys.init staleLinks 1 (fun _ => "123456\n".toList))
      [.openFile 7, .lockf 7, .ftruncate 7 false, .write 7 2]).pc 7 = .holding 0 false true := by
    decide
  ⟨hp, by decide, lockRun_pidFile_firstLine _ hlt hinj _ _ hp⟩

/-! ## One holder per path while no pid file is unlinked -/

/-- Every process between `open` and `close` has its file named by its lock path. -/
def Linked (s : LockSys) : Prop := ∀ p i, (s.pc p).file = some i → s.links (path p) = some i

theorem Linked.step {s s' : LockSys} (h : Linked path s) {p : Nat} {x : LockPc}
    (hl : s'.links = s.links) (hpc : s'.pc = Function.update s.pc p x)
    (hx : ∀ i, x.file = some i → s.links (path p) = some i) : Linked path s' := by
  intro q i hq
  rw [hpc] at hq
  rw [hl]
  by_cases hqp : q = p
  · subst hqp
    rw [Function.update_same] at hq
    exact hx i hq
  · rw [Function.update_noteq hqp] at hq
    exact h q i hq

theorem Linked.keep {s s' : LockSys} (h : Linked path s) {p : Nat} {x : LockPc}
    (hl : s'.links = s.links) (hpc : s'.pc = Function.update s.pc p x)
    (hx : x.file = none ∨ x.file = (s.pc p).file) : Linked path s' :=
  h.step path hl hpc fun i hi => h p i (LockPc.file_of_keeps hx hi)

/-- An `open` that creates the file: no process has a file of that path open. -/
theorem Linked.create {s : LockSys} (h : Linked path s) {p : Nat} (hnone : s.links (path p) = none)
    (c : Nat → List Char) :
    Linked path (LockSys.setPc
      { s with links := Function.update s.links (path p) (some s.nextIno), nextIno := s.nextIno + 1,
               content := c } p (.opened s.nextIno)) := by
  intro q i hq
  by_cases hqp : q = p
  · subst hqp
    rw [LockSys.setPc_pc_self] at hq
    cases hq
    exact Function.update_same _ _ _
  · rw [LockSys.setPc_pc_ne _ _ hqp] at hq
    have hpath : path q ≠ path p := fun he => by
      have hl := h q i hq
      rw [he, hnone] at hl
      cases hl
    exact (Function.update_noteq hpath _ _).trans (h q i hq)

theorem lockStep_linked {s : LockSys} (h : Linked path s) :
    ∀ a, a.isUnlink = false → Linked path (lockStep path s a)
  | .openFile p, _ => by
    rw [lockStep]
    split
    · split
      · rename_i ino hino
        exact h.step path rfl rfl fun i hi => Option.some.inj hi ▸ hino
      · exact h.create path ‹_› _
    · exact h
  | .lockf p, _ => by
    rw [lockStep]
    split
    · rename_i ino hp
      split
      · exact h.keep path rfl rfl (.inr (congrArg LockPc.file hp).symm)
      · exact h.keep path rfl rfl (.inl rfl)
    · exact h
  | .ftruncate p _, _ | .write p _, _ => by
    rw [lockStep]
    split
    · rename_i hp
      exact h.keep path rfl rfl (.inr (congrArg LockPc.file hp).symm)
    · exact h
  | .openFail p, _ | .lockfFail p, _ | .close p, _ => by
    rw [lockStep]
    split
    · exact h.keep path rfl rfl (.inl rfl)
    · exact h
  | .exit p, _ => h.keep path rfl rfl (.inl rfl)

theorem lockRun_linked {s : LockSys} (h : Linked path s) (acts : List LockAct)
    (hacts : ∀ a ∈ acts, a.isUnlink = false) : Linked path (lockRun path s acts) := by
  induction acts generalizing s with
  | nil => exact h
  | cons a acts ih =>
    exact ih (lockStep_linked path h a (hacts a (List.mem_cons_self a acts)))
      fun b hb => hacts b (List.mem_cons_of_mem a hb)

theorem lockRun_one_holder (links : List Char → Option Nat) (n : Nat) (content : Nat → List Char)
    (acts : List LockAct) (hacts : ∀ a ∈ acts, a.isUnlink = false) {p q i j : Nat}
    (hp : ((lockRun path (LockSys.init links n content) acts).pc p).held = some i)
    (hq : ((lockRun path (LockSys.init links n content) acts).pc q).held = some j)
    (hpath : path p = path q) : p = q := by
  have hl := lockRun_linked path (s := LockSys.init links n content) (fun _ _ => nofun) acts hacts
  have hij : i = j := Option.some.inj ((hl p i (LockPc.file_of_held hp)).symm.trans
    (hpath ▸ hl q j (LockPc.file_of_held hq)))
  exact (lockRun_lockInv_init path links n content acts).holding_unique hp (hij ▸ hq)

/-- One process takes the lock of an empty directory with no unlink. -/
theorem lockRun_one_holder_single :
    (∀ a ∈ [LockAct.openFile 0, .lockf 0], a.isUnlink = false) ∧
      ((lockRun (fun _ => ['x']) (LockSys.init (fun _ => none) 0 (fun _ => []))
        [.openFile 0, .lockf 0]).pc 0).held = some 0 ∧ (0 : Nat) = 0 :=
  ⟨by decide, by decide, @lockRun_one_holder (fun _ => ['x']) (fun _ => none) 0 (fun _ => [])
    [.openFile 0, .lockf 0] (by decide) 0 0 0 0 (by decide) (by decide) rfl⟩

/-- One `lockf` where the lock table, the directory and the links agree: it succeeds exactly when
no other process holds the lock of a path equal to the caller's. -/
theorem lockStep_lockf_path_iff {s : LockSys} (hl : LockInv s) (hL : Linked path s) (hd : DirOk s)
    {p ino : Nat} (hp : s.pc p = .opened ino) :
    (lockStep path s (.lockf p)).pc p = .locked ino ↔
      ∀ q, q ≠ p → ∀ j, (s.pc q).held = some j → path q ≠ path p := by
  have hlp := hL p ino (congrArg LockPc.file hp)
  rw [lockStep_lockf_iff path hl hp]
  constructor
  · intro hfree q hq j hj he
    have hlq := hL q j (LockPc.file_of_held hj)
    rw [he, hlp] at hlq
    cases hlq
    exact hfree q hq hj
  · intro hpath q hq hj
    exact hpath q hq ino hj (hd.links_inj _ _ ino (hL q ino (LockPc.file_of_held hj)) hlp)

/-- **A mutex per path.** From a directory that names each file by one path, all made before `n`,
in a run with no unlink, the `lockf` of a process succeeds exactly when no other process holds
the lock of its own path. -/
theorem lockRun_lockf_path_iff {links : List Char → Option Nat} {n : Nat}
    (hlt : ∀ P i, links P = some i → i < n)
    (hinj : ∀ P P' i, links P = some i → links P' = some i → P = P')
    (content : Nat → List Char) (acts : List LockAct) (hacts : ∀ a ∈ acts, a.isUnlink = false)
    {p ino : Nat} (hp : (lockRun path (LockSys.init links n content) acts).pc p = .opened ino) :
    (lockRun path (LockSys.init links n content) (acts ++ [.lockf p])).pc p = .locked ino ↔
      ∀ q, q ≠ p → ∀ j, ((lockRun path (LockSys.init links n content) acts).pc q).held = some j →
        path q ≠ path p := by
  rw [lockRun_append_single]
  exact lockStep_lockf_path_iff path (lockRun_lockInv_init path links n content acts)
    (lockRun_linked path (s := LockSys.init links n content) (fun _ _ => nofun) acts hacts)
    (lockRun_lockOk path hlt hinj content acts).dirOk hp

/-- Process 1 opens the pid file of another path while process 0 holds its own. -/
theorem lockRun_lockf_path_iff_two :
    (∀ a ∈ [LockAct.openFile 0, .lockf 0, .openFile 1], a.isUnlink = false) ∧
    (lockRun (fun p => if p = 0 then ['a'] else ['b']) (LockSys.init (fun _ => none) 0 (fun _ => []))
      [.openFile 0, .lockf 0, .openFile 1]).pc 1 = .opened 1 ∧
    ((lockRun (fun p => if p = 0 then ['a'] else ['b']) (LockSys.init (fun _ => none) 0 (fun _ => []))
        ([.openFile 0, .lockf 0, .openFile 1] ++ [.lockf 1])).pc 1 = .locked 1 ↔
      ∀ q, q ≠ 1 → ∀ j, ((lockRun (fun p => if p = 0 then ['a'] else ['b'])
        (LockSys.init (fun _ => none) 0 (fun _ => [])) [.openFile 0, .lockf 0, .openFile 1]).pc q).held =
          some j → (if q = 0 then ['a'] else ['b']) ≠ (if 1 = 0 then ['a'] else ['b'])) :=
  ⟨by decide, by decide, lockRun_lockf_path_iff _ (by simp) (by simp) _ _
    (by decide) (by decide)⟩

/-- **`LockProcess` gets through when its path is free.** From a directory that names each file by
one path, all made before `n`, in a run with no unlink: a process that has not started, and
whose lock path no other process holds, opens the file its path names (or makes it) and locks
it; after a successful `ftruncate` and a whole `write` it holds the lock with its pid line as
the file's content. -/
theorem lockRun_lockProcess {links : List Char → Option Nat} {n : Nat}
    (hlt : ∀ P i, links P = some i → i < n)
    (hinj : ∀ P P' i, links P = some i → links P' = some i → P = P')
    (content : Nat → List Char) (acts : List LockAct) (hacts : ∀ a ∈ acts, a.isUnlink = false)
    {p : Nat} (hidle : (lockRun path (LockSys.init links n content) acts).pc p = .idle)
    (hfree : ∀ q, q ≠ p → ∀ j,
      ((lockRun path (LockSys.init links n content) acts).pc q).held = some j → path q ≠ path p) :
    ∃ ino, (lockRun path (LockSys.init links n content)
        (acts ++ [.openFile p, .lockf p, .ftruncate p true, .write p (pidLine p).length])).pc p =
        .holding ino true true ∧
      (lockRun path (LockSys.init links n content)
        (acts ++ [.openFile p, .lockf p, .ftruncate p true, .write p (pidLine p).length])).content
          ino = pidLine p := by
  set s := lockRun path (LockSys.init links n content) acts
  have hok := lockStep_lockOk path (lockRun_lockOk path hlt hinj content acts) (.openFile p)
  have hL := lockStep_linked path (lockRun_linked path (s := LockSys.init links n content) (fun _ _ => nofun) acts hacts) (.openFile p) rfl
  obtain ⟨ino, hop, hframe⟩ : ∃ ino, (lockStep path s (.openFile p)).pc p = .opened ino ∧
      ∀ q, q ≠ p → (lockStep path s (.openFile p)).pc q = s.pc q := by
    rw [lockStep, if_pos hidle]
    split <;> exact ⟨_, LockSys.setPc_pc_self _ _ _, fun q hq => LockSys.setPc_pc_ne _ _ hq⟩
  have hlock := (lockStep_lockf_path_iff path hok.lockInv hL hok.dirOk hop).mpr
    fun q hq j hj => hfree q hq j (by rwa [hframe q hq] at hj)
  set t := lockStep path (lockStep path s (.openFile p)) (.lockf p)
  have htrunc : (lockStep path t (.ftruncate p true)).pc p = .truncated ino true := by
    simp [lockStep, hlock]
  have hrun : lockRun path (LockSys.init links n content)
      (acts ++ [.openFile p, .lockf p, .ftruncate p true, .write p (pidLine p).length]) =
      lockStep path (lockStep path t (.ftruncate p true)) (.write p (pidLine p).length) := by
    rw [lockRun, List.foldl_append]
    rfl
  have hhold : (lockRun path (LockSys.init links n content)
      (acts ++ [.openFile p, .lockf p, .ftruncate p true, .write p (pidLine p).length])).pc p =
      .holding ino true true := by
    rw [hrun]
    generalize lockStep path t (.ftruncate p true) = u at htrunc ⊢
    simp [lockStep, htrunc]
  refine ⟨ino, hhold, ?_⟩
  have h := (lockRun_lockOk path hlt hinj content _).pidOk p ino (congrArg LockPc.held hhold)
  rw [hhold] at h
  exact (pidFileOk_holding.mp h).2 rfl

/-- Process 0 holds the lock of path `a`; process 1, on path `b`, runs `LockProcess` through. -/
theorem lockRun_lockProcess_other_path :
    (lockRun (fun p => if p = 0 then ['a'] else ['b']) (LockSys.init (fun _ => none) 0 (fun _ => []))
      [.openFile 0, .lockf 0]).pc 1 = .idle ∧
    ∃ ino, (lockRun (fun p => if p = 0 then ['a'] else ['b'])
        (LockSys.init (fun _ => none) 0 (fun _ => []))
        ([.openFile 0, .lockf 0] ++ [.openFile 1, .lockf 1, .ftruncate 1 true,
          .write 1 (pidLine 1).length])).pc 1 = .holding ino true true ∧
      (lockRun (fun p => if p = 0 then ['a'] else ['b'])
        (LockSys.init (fun _ => none) 0 (fun _ => []))
        ([.openFile 0, .lockf 0] ++ [.openFile 1, .lockf 1, .ftruncate 1 true,
          .write 1 (pidLine 1).length])).content ino = pidLine 1 :=
  ⟨by decide, lockRun_lockProcess _ (by simp) (by simp) _ _ (by decide) (by decide) fun q hq j hj => by
    by_cases h0 : q = 0
    · subst h0
      decide
    · exfalso
      simp [lockRun, lockStep, LockSys.setPc, LockSys.init, Function.update_apply, h0, hq,
        LockPc.held] at hj⟩

/-- **The unlink race.** For any lock path: process 0 takes the lock and runs `UnlockProcess`;
between its `close` and its `unlink`, process 1 opens the old file and locks it; after the
`unlink`, process 2 makes a new file at the path and locks it. Both hold the lock of the path. -/
theorem lockRun_unlink_race (P : List Char) :
    ((lockRun (fun _ => P) (LockSys.init (fun _ => none) 0 (fun _ => []))
      [.openFile 0, .lockf 0, .ftruncate 0 true, .write 0 2, .close 0, .openFile 1, .lockf 1,
        .unlink 0, .openFile 2, .lockf 2]).pc 1).held = some 0 ∧
    ((lockRun (fun _ => P) (LockSys.init (fun _ => none) 0 (fun _ => []))
      [.openFile 0, .lockf 0, .ftruncate 0 true, .write 0 2, .close 0, .openFile 1, .lockf 1,
        .unlink 0, .openFile 2, .lockf 2]).pc 2).held = some 1 := by
  simp [lockRun, lockStep, LockSys.setPc, LockSys.init, Function.update_apply, LockPc.held]

end Run

end PmLogDaemon
