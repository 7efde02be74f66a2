import PmLogDaemon.Util.CString

/-!
# The configuration tables of `config.c`

Model of the global configuration of `config.c` (`src/unnamed/part_001`): `g_numOutputs` and
`g_outputConfs`, `g_numContexts` and the `GTree` `g_contextConfs`, and the operations on them
that do not parse: `FindOutputByName`, `CreateContext`, `ClearConf` and `SetDefaultConf`.

* `main.h` is not among the sources. Its size macros are the fields of `Platform`, so every
  result holds for every value of them; the names, path and limits the spec states (`stdlog`,
  `<global>`, `/var/log/messages`, 4 KiB to 64 MiB, 1 to 9 rotations) are definitions
  modelled from the spec.
* `g_outputConfs[0 .. g_numOutputs)` is a list and `g_numOutputs` its length: no function of
  `config.c` reads an entry past `g_numOutputs`. A `PmLogFile_t` keeps the four fields
  `config.c` writes; the file handle and running size belong to the output writer.
* `g_contextConfs` is `none` while the pointer is NULL. On a NULL tree GLib's `g_tree_lookup`,
  `g_tree_insert` and `g_tree_nnodes` fail their `g_return_if_fail` check and return NULL, do
  nothing and return 0. A tree is the list of its contexts, keyed by `contextName`, in the
  order they were inserted. The tree's own order comes from the comparator `g_tree_new` is given
  in `main.c`, not among the sources: the list stands for the set of nodes, and results about
  the tree are stated by membership or up to permutation, never by position.
* A write through `contextConfP` reaches the table when that context is in the tree
  (`storeContext`); a context `CreateContext` could not insert is lost with what is written
  to it.
* A context's ring buffer is recorded by the arguments of the `RBNew` call that built it.

Results:
* `setDefaultConf_eq`: from any state, `SetDefaultConf` leaves the one output `stdlog` with the
  default path, size and rotations, and a NULL context tree with `g_numContexts = 0`:
  `ClearConf` sets `g_contextConfs = NULL`, so `CreateContext(PMLOG_CONTEXT_GLOBAL)` inserts
  nothing.
-/

namespace PmLogDaemon

/-! ## Constants -/

/-- Modelled from the spec: `PMLOG_OUTPUT_STDLOG`, the name the first output must have. -/
def pmlogOutputStdlog : List Char := "stdlog".toList

/-- Modelled from the spec: `PMLOG_CONTEXT_GLOBAL`, the name the first context must have. -/
def pmlogContextGlobal : List Char := "<global>".toList

/-- Modelled from the spec: `DEFAULT_LOG_FILE_PATH`, the file of the default `stdlog`. -/
def defaultLogFilePath : List Char := "/var/log/messages".toList

/-- Modelled from the spec: `PMLOG_DEFAULT_LOG_SIZE`, 1 MiB. -/
def pmlogDefaultLogSize : Int := 1024 * 1024

/-- Modelled from the spec: `PMLOG_MIN_LOG_SIZE`, 4 KiB. -/
def pmlogMinLogSize : Int := 4 * 1024

/-- Modelled from the spec: `PMLOG_MAX_LOG_SIZE`, 64 MiB. -/
def pmlogMaxLogSize : Int := 64 * 1024 * 1024

/-- Modelled from the spec: `PMLOG_DEFAULT_LOG_ROTATIONS`. -/
def pmlogDefaultLogRotations : Int := 1

/-- Modelled from the spec: `PMLOG_MIN_NUM_ROTATIONS`. -/
def pmlogMinNumRotations : Int := 1

/-- Modelled from the spec: `PMLOG_MAX_NUM_ROTATIONS`. -/
def pmlogMaxNumRotations : Int := 9

/-- The values the sources take from outside `src/`: the size macros of `main.h`, and the width
of `long` on the target. `g_outputConfs` has room for `stdlog`, and the two names fit their
buffers. -/
structure Platform where
  /-- `PMLOG_MAX_NUM_OUTPUTS`, the length of `g_outputConfs`. -/
  pmlogMaxNumOutputs : Nat
  /-- `PMLOG_OUTPUT_MAX_NAME_LENGTH`. -/
  pmlogOutputMaxNameLength : Nat
  /-- `PMLOG_MAX_CONTEXT_NAME_LEN`. -/
  pmlogMaxContextNameLen : Nat
  /-- `PMLOG_CONTEXT_MAX_NUM_RULES`, the number of rule slots of a context. -/
  pmlogContextMaxNumRules : Nat
  /-- `PMLOG_PROGRAM_MAX_NAME_LENGTH`. -/
  pmlogProgramMaxNameLength : Nat
  /-- `CONF_INT_UNINIT_VALUE`, the mark of an output key not given. -/
  confIntUninitValue : Int
  /-- The width of `long` in bits. -/
  longWidth : Nat
  int_le_long : 32 ≤ longWidth
  maxNumOutputs_pos : 0 < pmlogMaxNumOutputs
  stdlog_fits : pmlogOutputStdlog.length ≤ pmlogOutputMaxNameLength
  global_fits : pmlogContextGlobal.length ≤ pmlogMaxContextNameLen

/-- A concrete platform for examples: the bounds the spec calls typical (32-character output
names, 31-character context names, 32 rules, 8 outputs), a 64-bit `long`, and for the two
constants the spec leaves open, 31 and `-1`. -/
def Platform.typical : Platform where
  pmlogMaxNumOutputs := 8
  pmlogOutputMaxNameLength := 32
  pmlogMaxContextNameLen := 31
  pmlogContextMaxNumRules := 32
  pmlogProgramMaxNameLength := 31
  confIntUninitValue := -1
  longWidth := 64
  int_le_long := by decide
  maxNumOutputs_pos := by decide
  stdlog_fits := by decide
  global_fits := by decide

/-! ## The tables -/

/-- `PmLogFile_t`, the fields `config.c` writes. -/
structure PmLogFile where
  outputName : List Char
  path : List Char
  maxSize : Int
  rotations : Int
  deriving DecidableEq, Repr

/-- `PmLogRule_t`: `program` is NULL (`none`) for any program. -/
structure PmLogRule where
  facility : Int
  level : Int
  levelInvert : Bool
  program : Option (List Char)
  outputIndex : Int
  omitOutput : Bool
  deriving DecidableEq, Repr

/-- A rule slot cleared by `g_new0`. -/
def PmLogRule.zero : PmLogRule := ⟨0, 0, false, none, 0, false⟩

/-- The arguments of `RBNew(bufferSize, flushLevel)`. -/
structure RBNewCall where
  bufferSize : Int
  flushLevel : Int
  deriving DecidableEq, Repr

/-- `PmLogContextConf_t`: `rules` holds every slot of the array, `rb` is `none` while NULL. -/
structure PmLogContextConf where
  contextName : List Char
  numRules : Nat
  rules : List PmLogRule
  rb : Option RBNewCall
  deriving DecidableEq, Repr

/-- The globals of `config.c`. -/
structure ConfState where
  /-- `g_outputConfs[0 .. g_numOutputs)`. -/
  outputConfs : List PmLogFile
  /-- `g_numContexts`. -/
  numContexts : Nat
  /-- `g_contextConfs`, `none` while NULL. -/
  contextConfs : Option (List PmLogContextConf)
  deriving DecidableEq, Repr

/-- `g_numOutputs`. -/
def ConfState.numOutputs (st : ConfState) : Nat := st.outputConfs.length

/-- Modelled from the spec: the state `ReadConfFile`'s caller prepares (`main.c` is not among
the sources): no outputs and an empty context tree. -/
def ConfState.init : ConfState := ⟨[], 0, some []⟩

/-- `FindOutputByName(outputName, &i)` (`config.c:91-121`): the index of the first output of
that name; `none` when the function returns NULL and sets `*indexP = -1`. -/
def findOutputByName (outputs : List PmLogFile) (outputName : List Char) : Option Nat :=
  outputs.findIdx? (·.outputName = outputName)

/-- `g_tree_lookup(g_contextConfs, name)`. -/
def ConfState.lookupContext (st : ConfState) (name : List Char) : Option PmLogContextConf :=
  st.contextConfs.bind (·.find? (·.contextName = name))

/-- A write through `contextConfP` to `c`: it replaces the tree's context of that name. -/
def ConfState.storeContext (st : ConfState) (c : PmLogContextConf) : ConfState :=
  { st with
    contextConfs := st.contextConfs.map (·.map fun d => if d.contextName = c.contextName then c else d) }

/-- `g_tree_insert(tree, key, value)`: the value of a present key is replaced, a new key added
(at the end of the list, which keeps no order of the tree's). -/
def gTreeInsert (t : List PmLogContextConf) (c : PmLogContextConf) : List PmLogContextConf :=
  if t.any (·.contextName = c.contextName) then
    t.map fun d => if d.contextName = c.contextName then c else d
  else t ++ [c]

/-- The contexts of `g_contextConfs`; none while it is NULL. -/
def ConfState.contexts (st : ConfState) : List PmLogContextConf := st.contextConfs.getD []

/-- `g_tree_insert` leaves the value it inserts in the tree. -/
theorem mem_gTreeInsert_self (t : List PmLogContextConf) (c : PmLogContextConf) :
    c ∈ gTreeInsert t c := by
  unfold gTreeInsert
  split
  · rename_i hany
    obtain ⟨d, hd, hdc⟩ := List.any_eq_true.mp hany
    exact List.mem_map.mpr ⟨d, hd, if_pos (of_decide_eq_true hdc)⟩
  · exact List.mem_append_right _ (List.mem_singleton_self c)

theorem findOutputByName_eq_none_iff {outputs : List PmLogFile} {name : List Char} :
    findOutputByName outputs name = none ↔ ∀ o ∈ outputs, o.outputName ≠ name := by
  simp [findOutputByName]

theorem findOutputByName_lt {outputs : List PmLogFile} {name : List Char} {i : Nat}
    (h : findOutputByName outputs name = some i) : i < outputs.length :=
  (List.findIdx?_eq_some_iff_findIdx_eq.mp h).1

@[simp] theorem storeContext_outputConfs (st : ConfState) (c : PmLogContextConf) :
    (st.storeContext c).outputConfs = st.outputConfs := rfl

@[simp] theorem storeContext_numContexts (st : ConfState) (c : PmLogContextConf) :
    (st.storeContext c).numContexts = st.numContexts := rfl

theorem storeContext_contexts (st : ConfState) (c : PmLogContextConf) :
    (st.storeContext c).contexts =
      st.contexts.map fun d => if d.contextName = c.contextName then c else d := by
  rcases st with ⟨_, _, _ | t⟩ <;> rfl

theorem mem_storeContext {st : ConfState} {c d : PmLogContextConf}
    (h : d ∈ (st.storeContext c).contexts) : d ∈ st.contexts ∨ d = c := by
  rw [storeContext_contexts] at h
  obtain ⟨e, he, rfl⟩ := List.mem_map.mp h
  split
  · exact .inr rfl
  · exact .inl he

theorem mem_gTreeInsert {t : List PmLogContextConf} {c d : PmLogContextConf}
    (h : d ∈ gTreeInsert t c) : d ∈ t ∨ d = c := by
  unfold gTreeInsert at h
  split at h
  · obtain ⟨e, he, rfl⟩ := List.mem_map.mp h
    split
    · exact .inr rfl
    · exact .inl he
  · simpa using h

section Ops

variable (H : Platform)

/-- The context `CreateContext` allocates: cleared by `g_new0`, then named. -/
def PmLogContextConf.new (name : List Char) : PmLogContextConf :=
  ⟨name, 0, List.replicate H.pmlogContextMaxNumRules PmLogRule.zero, none⟩

/-- `CreateContext(name)` (`config.c:474-486`): `g_tree_insert` of a new context, then
`g_numContexts = g_tree_nnodes(g_contextConfs)`; the new context and the state. -/
def createContext (name : List Char) (st : ConfState) : PmLogContextConf × ConfState :=
  let c := PmLogContextConf.new H name
  match st.contextConfs with
  | none => (c, { st with numContexts := 0 })
  | some t => (c, { st with contextConfs := some (gTreeInsert t c),
                            numContexts := (gTreeInsert t c).length })

/-- `contextConfP = g_tree_lookup(g_contextConfs, name)`, and `CreateContext(name)` when that is
NULL: the context `contextConfP` points to, and the state. -/
def lookupOrCreateContext (name : List Char) (st : ConfState) : PmLogContextConf × ConfState :=
  match st.lookupContext name with
  | some c => (c, st)
  | none => createContext H name st

theorem lookupContext_mem {st : ConfState} {name : List Char} {c : PmLogContextConf}
    (h : st.lookupContext name = some c) : c ∈ st.contexts := by
  rcases st with ⟨_, _, _ | t⟩
  · cases h
  · exact List.mem_of_find?_eq_some h

@[simp] theorem createContext_fst (name : List Char) (st : ConfState) :
    (createContext H name st).1 = PmLogContextConf.new H name := by
  unfold createContext
  split <;> rfl

@[simp] theorem createContext_outputConfs (name : List Char) (st : ConfState) :
    (createContext H name st).2.outputConfs = st.outputConfs := by
  unfold createContext
  split <;> rfl

theorem mem_createContext {name : List Char} {st : ConfState} {d : PmLogContextConf}
    (h : d ∈ (createContext H name st).2.contexts) :
    d ∈ st.contexts ∨ d = PmLogContextConf.new H name := by
  rcases st with ⟨_, _, _ | t⟩
  · cases h
  · exact mem_gTreeInsert h

@[simp] theorem lookupOrCreateContext_outputConfs (name : List Char) (st : ConfState) :
    (lookupOrCreateContext H name st).2.outputConfs = st.outputConfs := by
  unfold lookupOrCreateContext
  split <;> simp

/-- `contextConfP` points to a context of the tree or to the one `CreateContext` made. -/
theorem lookupOrCreateContext_fst_mem (name : List Char) (st : ConfState) :
    (lookupOrCreateContext H name st).1 ∈ st.contexts ∨
      (lookupOrCreateContext H name st).1 = PmLogContextConf.new H name := by
  unfold lookupOrCreateContext
  split
  · exact .inl (lookupContext_mem ‹_›)
  · exact .inr (createContext_fst H name st)

/-- `contextConfP` after the lookup points to a context of the name looked up. -/
theorem lookupOrCreateContext_fst_contextName (name : List Char) (st : ConfState) :
    (lookupOrCreateContext H name st).1.contextName = name := by
  unfold lookupOrCreateContext
  split
  · rename_i c hc
    rcases st with ⟨_, _, _ | t⟩
    · cases hc
    · simpa using List.find?_some hc
  · rw [createContext_fst]
    rfl

/-- On a tree that is not NULL, the lookup leaves a tree with a context of the name. -/
theorem lookupOrCreateContext_tree {name : List Char} {st : ConfState}
    (h : st.contextConfs ≠ none) :
    (lookupOrCreateContext H name st).2.contextConfs =
        some (lookupOrCreateContext H name st).2.contexts ∧
      ∃ d ∈ (lookupOrCreateContext H name st).2.contexts, d.contextName = name := by
  rcases st with ⟨o, n, _ | t⟩
  · exact absurd rfl h
  · refine ⟨?_, (lookupOrCreateContext H name ⟨o, n, some t⟩).1, ?_,
      lookupOrCreateContext_fst_contextName H name _⟩
    · unfold lookupOrCreateContext
      split <;> rfl
    · unfold lookupOrCreateContext
      split
      · exact lookupContext_mem ‹_›
      · exact mem_gTreeInsert_self t _

/-- The tree after the lookup holds what it held, and at most the context `CreateContext` made. -/
theorem mem_lookupOrCreateContext {name : List Char} {st : ConfState} {d : PmLogContextConf}
    (h : d ∈ (lookupOrCreateContext H name st).2.contexts) :
    d ∈ st.contexts ∨ d = PmLogContextConf.new H name := by
  unfold lookupOrCreateContext at h
  split at h
  · exact .inl h
  · exact mem_createContext H h

/-- `ClearConf()` (`config.c:547-565`): every output freed and cleared, the tree destroyed,
`g_numOutputs = g_numContexts = 0` and `g_contextConfs = NULL`. -/
def clearConf (_ : ConfState) : ConfState := ⟨[], 0, none⟩

/-- The output `SetDefaultConf` writes at index 0. -/
def defaultOutputConf : PmLogFile :=
  ⟨pmlogOutputStdlog, defaultLogFilePath, pmlogDefaultLogSize, pmlogDefaultLogRotations⟩

/-- The rule `SetDefaultConf` writes in slot 0: any facility and level, to output 0. -/
def defaultRule : PmLogRule := ⟨-1, -1, false, none, 0, false⟩

/-- `SetDefaultConf()` (`config.c:747-782`). -/
def setDefaultConf (st : ConfState) : ConfState :=
  let st := { clearConf st with outputConfs := [defaultOutputConf] }
  let (c, st) := lookupOrCreateContext H pmlogContextGlobal st
  st.storeContext { c with rules := c.rules.set 0 defaultRule, numRules := 1 }

/-- **`SetDefaultConf` from any state.** The output table is the default `stdlog`; the context
tree is NULL and `g_numContexts = 0`, so no `<global>` context is installed. -/
theorem setDefaultConf_eq (st : ConfState) :
    setDefaultConf H st = ⟨[defaultOutputConf], 0, none⟩ := rfl

end Ops

end PmLogDaemon
