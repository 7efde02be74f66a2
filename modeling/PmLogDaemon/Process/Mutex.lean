import PmLogDaemon.Process.Lock

/-!
# The per-path mutex `LockProcess` implements

`LockProcess` is there so that at most one instance of a component runs at a time. The abstract
model says that and nothing of files:

* a mutex maps each lock path to the process holding it, if any;
* `mutexStep path m op` is one operation on it, with `path p` the lock path of process `p`:
  `tryLock p` takes `p`'s own path when no one holds it, `unlock p` gives it up when `p` holds
  it, and `skip` leaves the map.

`LockSys.holder` reads the mutex off the state of the calls (`Process/Lock.lean`): the holder of
a path is the process holding the `lockf` lock of the file the path names. `lockOp s a` is the
operation call `a` makes: the `lockf` after `open` tries the lock, the `close` of
`UnlockProcess` after a successful `LockProcess` and an exit give it up, and every other call
skips. The `unlink` of `UnlockProcess` makes none: it takes the name away from a file whose lock
another process may hold, and `lockRun_unlink_race` is a run where the path then gets a second
holder.

Results:
* `mutexStep_held`: in the mutex, a held path keeps its holder unless the holder unlocks it.
* `lockStep_holder`: from a state where the invariants of the calls hold, every call but
  `unlink` moves the holder map by exactly the operation it makes.
* `lockRun_holder`: in a run where no process unlinks its pid file, the holder map at the end is
  the mutex run from the empty map over the operations of the calls: the calls refine the mutex.
* `lockRun_holder_iff`: there the holder of a path is exactly the process that holds a lock and
  whose lock path it is.
* `lockRun_holder_keeps`: there a call never takes the lock of a path from its holder nor frees
  it, unless it is the holder's own `close` or exit; `mutexStep_held` carried to the calls.
-/

namespace PmLogDaemon

/-! ## The mutex -/

/-- One operation on the mutex. -/
inductive MutexOp
  /-- Process `p` takes its own path if no one holds it. -/
  | tryLock (p : Nat)
  /-- Process `p` gives up its own path if it holds it. -/
  | unlock (p : Nat)
  /-- Nothing changes hands. -/
  | skip
  deriving DecidableEq, Repr

section Mutex

variable (path : Nat → List Char)

/-- The mutex `m` after `op`, with `path p` the lock path of process `p`. -/
def mutexStep (m : List Char → Option Nat) : MutexOp → List Char → Option Nat
  | .tryLock p => if m (path p) = none then Function.update m (path p) (some p) else m
  | .unlock p => if m (path p) = some p then Function.update m (path p) none else m
  | .skip => m

/-- **No handover.** A held path keeps its holder, unless the holder unlocks it and frees it. -/
theorem mutexStep_held {m : List Char → Option Nat} {P : List Char} {q : Nat}
    (hq : m P = some q) :
    ∀ op, mutexStep path m op P = some q ∨ (op = .unlock q ∧ mutexStep path m op P = none)
  | .tryLock p => by
    rw [mutexStep]
    split_ifs with hp
    · have hP : P ≠ path p := fun he => by rw [he, hp] at hq; cases hq
      exact .inl ((Function.update_noteq hP _ _).trans hq)
    · exact .inl hq
  | .unlock p => by
    rw [mutexStep]
    split_ifs with hp
    · by_cases hP : P = path p
      · subst hP
        obtain rfl := Option.some.inj (hp.symm.trans hq)
        exact .inr ⟨rfl, Function.update_same _ _ _⟩
      · exact .inl ((Function.update_noteq hP _ _).trans hq)
    · exact .inl hq
  | .skip => .inl hq

end Mutex

/-! ## The holder map of the calls -/

/-- Who holds each lock path: the holder of the `lockf` lock of the file the path names. -/
def LockSys.holder (s : LockSys) (P : List Char) : Option Nat := (s.links P).bind s.owner

/-- The operation call `a` makes on the mutex from state `s`. -/
def lockOp (s : LockSys) : LockAct → MutexOp
  | .lockf p =>
    match s.pc p with
    | .opened _ => .tryLock p
    | _ => .skip
  | .close p =>
    match s.pc p with
    | .holding _ _ _ => .unlock p
    | _ => .skip
  | .exit p => .unlock p
  | _ => .skip

theorem LockSys.holder_eq_of {s s' : LockSys} (hl : s'.links = s.links) (ho : s'.owner = s.owner) :
    s'.holder = s.holder := by
  funext P
  rw [LockSys.holder, LockSys.holder, hl, ho]

/-- A change of the owner of one file changes the holder of the one path that names it. -/
theorem LockSys.holder_update {s s' : LockSys} (hd : DirOk s) {P : List Char} {ino : Nat}
    (hP : s.links P = some ino) (x : Option Nat) (hl : s'.links = s.links)
    (ho : s'.owner = Function.update s.owner ino x) :
    s'.holder = Function.update s.holder P x := by
  funext Q
  rw [LockSys.holder, hl, ho]
  by_cases hQ : Q = P
  · subst hQ
    rw [hP, Function.update_same, Option.some_bind, Function.update_same]
  · rw [Function.update_noteq hQ, LockSys.holder]
    cases hq : s.links Q with
    | none => rfl
    | some j =>
      exact Function.update_noteq
        (fun (he : j = ino) => hQ (hd.links_inj Q P ino (he ▸ hq) hP)) _ _

/-- No process holds the lock of a file not yet made. -/
theorem LockOk.owner_nextIno {s : LockSys} (h : LockOk s) : s.owner s.nextIno = none := by
  cases ho : s.owner s.nextIno with
  | none => rfl
  | some q =>
    exact absurd (h.dirOk.procs_lt q _ (LockPc.file_of_held ((h.lockInv q _).mp ho)))
      (Nat.lt_irrefl _)

/-- At exit the kernel drops the one lock the process holds. -/
theorem LockInv.exit_owner {s : LockSys} (h : LockInv s) {p ino : Nat}
    (hp : (s.pc p).held = some ino) :
    (fun i => if s.owner i = some p then none else s.owner i) =
      Function.update s.owner ino none := by
  funext i
  by_cases hi : i = ino
  · subst hi
    rw [if_pos ((h p i).mpr hp), Function.update_same]
  · rw [if_neg fun ho => hi (Option.some.inj (((h p i).mp ho).symm.trans hp)),
      Function.update_noteq hi]

/-- An exit of a process that holds no lock leaves the table. -/
theorem LockInv.exit_owner_none {s : LockSys} (h : LockInv s) {p : Nat}
    (hp : (s.pc p).held = none) :
    (fun i => if s.owner i = some p then none else s.owner i) = s.owner :=
  funext fun i => if_neg fun ho => by rw [(h p i).mp ho] at hp; cases hp

section Refinement

variable (path : Nat → List Char)

/-- The holder of a path is the process that holds a lock and whose lock path it is. -/
theorem LockOk.holder_eq_some_iff {s : LockSys} (h : LockOk s) (hL : Linked path s)
    {P : List Char} {q : Nat} :
    s.holder P = some q ↔ path q = P ∧ ∃ i, (s.pc q).held = some i := by
  constructor
  · intro hP
    obtain ⟨i, hi, hoi⟩ := Option.bind_eq_some.mp hP
    have hheld := (h.lockInv q i).mp hoi
    exact ⟨h.dirOk.links_inj _ _ i (hL q i (LockPc.file_of_held hheld)) hi, i, hheld⟩
  · rintro ⟨rfl, i, hi⟩
    rw [LockSys.holder, hL q i (LockPc.file_of_held hi)]
    exact (h.lockInv q i).mpr hi

/-- The operations the calls of a run make, each from the state it is made in. -/
def lockOps (s : LockSys) : List LockAct → List MutexOp
  | [] => []
  | a :: acts => lockOp s a :: lockOps (lockStep path s a) acts

/-- **The step of the refinement.** Every call but `unlink` moves the holder map by the
operation it makes. -/
theorem lockStep_holder {s : LockSys} (h : LockOk s) (hL : Linked path s) :
    ∀ a, a.isUnlink = false → (lockStep path s a).holder = mutexStep path s.holder (lockOp s a)
  | .openFile p, _ => by
    rw [lockStep]
    split
    · split
      · rfl
      · rename_i hnone
        funext Q
        by_cases hQ : Q = path p
        · subst hQ
          show (Function.update s.links (path p) (some s.nextIno) (path p)).bind s.owner =
            (s.links (path p)).bind s.owner
          rw [Function.update_same, hnone, Option.some_bind, h.owner_nextIno, Option.none_bind]
        · exact congrArg (Option.bind · s.owner) (Function.update_noteq hQ _ _)
    · rfl
  | .openFail p, _ | .lockfFail p, _ | .ftruncate p _, _ | .write p _, _ => by
    rw [lockStep]
    split <;> rfl
  | .lockf p, _ => by
    rw [lockStep, lockOp]
    cases hp : s.pc p
    case opened ino =>
      have hl := hL p ino (congrArg LockPc.file hp)
      have hnotp : s.owner ino ≠ some p := fun ho => by
        have hh := (h.lockInv p ino).mp ho
        rw [hp] at hh
        cases hh
      have hP : s.holder (path p) = s.owner ino := by rw [LockSys.holder, hl]; rfl
      dsimp only
      rw [mutexStep, hP]
      simp only [or_iff_left hnotp]
      split_ifs
      · exact LockSys.holder_update h.dirOk hl _ rfl rfl
      · rfl
    all_goals rfl
  | .close p, _ => by
    rw [lockStep, lockOp]
    cases hp : s.pc p
    case holding ino _ _ =>
      have hheld : (s.pc p).held = some ino := congrArg LockPc.held hp
      dsimp only
      rw [mutexStep, if_pos ((h.holder_eq_some_iff path hL).mpr ⟨rfl, ino, hheld⟩)]
      exact LockSys.holder_update h.dirOk (hL p ino (LockPc.file_of_held hheld)) _ rfl rfl
    all_goals rfl
  | .exit p, _ => by
    rw [lockStep, lockOp, mutexStep]
    cases hheld : (s.pc p).held with
    | none =>
      rw [if_neg fun hP => by
        obtain ⟨-, i, hi⟩ := (h.holder_eq_some_iff path hL).mp hP
        rw [hheld] at hi
        cases hi]
      exact LockSys.holder_eq_of rfl (h.lockInv.exit_owner_none hheld)
    | some ino =>
      rw [if_pos ((h.holder_eq_some_iff path hL).mpr ⟨rfl, ino, hheld⟩)]
      exact LockSys.holder_update h.dirOk (hL p ino (LockPc.file_of_held hheld)) _ rfl
        (h.lockInv.exit_owner hheld)
  | .unlink _, ha => nomatch ha

/-- The run of the refinement from any state where the invariants hold. -/
theorem lockRun_holder_of {s : LockSys} (h : LockOk s) (hL : Linked path s) (acts : List LockAct)
    (hacts : ∀ a ∈ acts, a.isUnlink = false) :
    (lockRun path s acts).holder = (lockOps path s acts).foldl (mutexStep path) s.holder := by
  induction acts generalizing s with
  | nil => rfl
  | cons a acts ih =>
    have ha := hacts a (List.mem_cons_self a acts)
    rw [lockOps, List.foldl_cons, ← lockStep_holder path h hL a ha]
    exact ih (lockStep_lockOk path h a) (lockStep_linked path hL a ha)
      fun b hb => hacts b (List.mem_cons_of_mem a hb)

theorem LockSys.holder_init (links : List Char → Option Nat) (n : Nat)
    (content : Nat → List Char) :
    (LockSys.init links n content).holder = fun _ => none := by
  funext P
  show (links P).bind (fun _ => none) = none
  cases links P <;> rfl

/-- **The calls refine the mutex.** From a directory that names each file by one path, all made
before `n`, in a run where no process unlinks its pid file, the holder map at the end is the
mutex run from the empty map over the operations the calls make. -/
theorem lockRun_holder {links : List Char → Option Nat} {n : Nat}
    (hlt : ∀ P i, links P = some i → i < n)
    (hinj : ∀ P P' i, links P = some i → links P' = some i → P = P')
    (content : Nat → List Char) (acts : List LockAct)
    (hacts : ∀ a ∈ acts, a.isUnlink = false) :
    (lockRun path (LockSys.init links n content) acts).holder =
      (lockOps path (LockSys.init links n content) acts).foldl (mutexStep path) fun _ => none := by
  rw [lockRun_holder_of path (lockOk_init hlt hinj content) (fun _ _ => nofun) acts hacts,
    LockSys.holder_init]

/-- Two processes of one path both try the lock: only the first gets it. -/
theorem lockRun_holder_two :
    (lockOps (fun _ => ['x']) (LockSys.init (fun _ => none) 0 (fun _ => []))
        [.openFile 0, .lockf 0, .openFile 1, .lockf 1] = [.skip, .tryLock 0, .skip, .tryLock 1]) ∧
      (lockRun (fun _ => ['x']) (LockSys.init (fun _ => none) 0 (fun _ => []))
        [.openFile 0, .lockf 0, .openFile 1, .lockf 1]).holder =
      (lockOps (fun _ => ['x']) (LockSys.init (fun _ => none) 0 (fun _ => []))
        [.openFile 0, .lockf 0, .openFile 1, .lockf 1]).foldl (mutexStep fun _ => ['x'])
          fun _ => none :=
  ⟨by decide, lockRun_holder _ (by simp) (by simp) _ _ (by decide)⟩

/-- **The holder of a path is its one locking process.** From a directory that names each file
by one path, all made before `n`, in a run where no process unlinks its pid file, a path is held
by `q` exactly when `q` holds a lock and the path is `q`'s lock path. -/
theorem lockRun_holder_iff {links : List Char → Option Nat} {n : Nat}
    (hlt : ∀ P i, links P = some i → i < n)
    (hinj : ∀ P P' i, links P = some i → links P' = some i → P = P')
    (content : Nat → List Char) (acts : List LockAct) (hacts : ∀ a ∈ acts, a.isUnlink = false)
    (P : List Char) (q : Nat) :
    (lockRun path (LockSys.init links n content) acts).holder P = some q ↔
      path q = P ∧
        ∃ i, ((lockRun path (LockSys.init links n content) acts).pc q).held = some i :=
  (lockRun_lockOk path hlt hinj content acts).holder_eq_some_iff path
    (lockRun_linked path (s := LockSys.init links n content) (fun _ _ => nofun) acts hacts)

/-- Process 0 holds the lock of its path. -/
theorem lockRun_holder_iff_first :
    (∀ a ∈ [LockAct.openFile 0, .lockf 0], a.isUnlink = false) ∧
      ((lockRun (fun _ => ['x']) (LockSys.init (fun _ => none) 0 (fun _ => []))
          [.openFile 0, .lockf 0]).holder ['x'] = some 0 ↔
        ['x'] = ['x'] ∧ ∃ i, ((lockRun (fun _ => ['x'])
          (LockSys.init (fun _ => none) 0 (fun _ => [])) [.openFile 0, .lockf 0]).pc 0).held =
            some i) :=
  ⟨by decide, lockRun_holder_iff _ (by simp) (by simp) _ _ (by decide) ['x'] 0⟩

/-- **No call takes or frees another's lock.** From a directory that names each file by one
path, all made before `n`, in a run where no process unlinks its pid file: the holder of a path
still holds it after the next call, unless that call is the holder's own `close` after
`LockProcess`, or its exit, and leaves the path free. -/
theorem lockRun_holder_keeps {links : List Char → Option Nat} {n : Nat}
    (hlt : ∀ P i, links P = some i → i < n)
    (hinj : ∀ P P' i, links P = some i → links P' = some i → P = P')
    (content : Nat → List Char) (acts : List LockAct) (hacts : ∀ a ∈ acts, a.isUnlink = false)
    (a : LockAct) (ha : a.isUnlink = false) {P : List Char} {q : Nat}
    (hq : (lockRun path (LockSys.init links n content) acts).holder P = some q) :
    (lockRun path (LockSys.init links n content) (acts ++ [a])).holder P = some q ∨
      (lockOp (lockRun path (LockSys.init links n content) acts) a = .unlock q ∧
        (lockRun path (LockSys.init links n content) (acts ++ [a])).holder P = none) := by
  rw [lockRun_append_single, lockStep_holder path (lockRun_lockOk path hlt hinj content acts)
    (lockRun_linked path (s := LockSys.init links n content) (fun _ _ => nofun) acts hacts) a ha]
  exact mutexStep_held path hq _

/-- Process 0 holds the lock; process 1's `lockf` leaves it with process 0. -/
theorem lockRun_holder_keeps_other :
    (∀ a ∈ [LockAct.openFile 0, .lockf 0, .openFile 1], a.isUnlink = false) ∧
      (LockAct.lockf 1).isUnlink = false ∧
      (lockRun (fun _ => ['x']) (LockSys.init (fun _ => none) 0 (fun _ => []))
        [.openFile 0, .lockf 0, .openFile 1]).holder ['x'] = some 0 ∧
      ((lockRun (fun _ => ['x']) (LockSys.init (fun _ => none) 0 (fun _ => []))
          ([.openFile 0, .lockf 0, .openFile 1] ++ [.lockf 1])).holder ['x'] = some 0 ∨
        (lockOp (lockRun (fun _ => ['x']) (LockSys.init (fun _ => none) 0 (fun _ => []))
            [.openFile 0, .lockf 0, .openFile 1]) (.lockf 1) = .unlock 0 ∧
          (lockRun (fun _ => ['x']) (LockSys.init (fun _ => none) 0 (fun _ => []))
            ([.openFile 0, .lockf 0, .openFile 1] ++ [.lockf 1])).holder ['x'] = none)) :=
  have hq : (lockRun (fun _ => ['x']) (LockSys.init (fun _ => none) 0 (fun _ => []))
      [.openFile 0, .lockf 0, .openFile 1]).holder ['x'] = some 0 := by decide
  ⟨by decide, rfl, hq,
    lockRun_holder_keeps _ (by simp) (by simp) _ _ (by decide) (.lockf 1) rfl hq⟩

end Refinement

end PmLogDaemon
