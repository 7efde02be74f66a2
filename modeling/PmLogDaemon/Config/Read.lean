import PmLogDaemon.Config.Rule
import PmLogDaemon.Util.Printf

/-!
# `ReadConfFile`: loading the configuration from a key file

Model of `ReadConfFile` (`config.c:578-741`) and the constructors it calls: `ParseOutputInit`,
`MakeOutputConf`, `ParseContextInit`, `MakeContextConf`.

* The key file is what `g_key_file_load_from_file` loaded (`none` when it failed): its groups in
  order, with distinct names since GLib merges the groups of one name. A group's keys are looked
  up with `g_key_file_get_string` (`Group.getString`) and `g_key_file_get_integer`
  (`Group.getInteger`, GLib's base-10 `strtol` over the whole value, within `int`). Values are
  taken after GLib's escape processing.
* The loop carries `retVal`, the state, and whether the outer `gerror` is non-NULL. In the
  OUTPUT branch an error of a failed lookup is freed but `gerror` is not reset; `gerror` is reset
  before each lookup there, except that the one left by a failed `Rotations` lookup survives the
  group, pointing to freed memory. The CONTEXT branch reads `BufferSize` into that same
  `gerror`: when it is still set, `g_key_file_get_string` cannot report into it
  (`g_propagate_error` keeps the old error), the test `!gerror` fails and the value is dropped,
  and `g_error_free` frees the stale error a second time (`config.c:703-705`). `end:` frees it a
  second time too when the loop ends, or breaks, with it set (`config.c:736-737`). The rule loop
  uses its own `gerror`.
* A double free leaves what follows undefined. The load stops there: its outcome is
  `doubleFree`, with the tables as they are at that point (`LoadResult`). Only a load that
  returns says what `ReadConfFile` returns.
* `ParseOutputInit`'s and `ParseContextInit`'s results are ignored, as in the code: after a
  failed check the parse object stays cleared by `memset`, with an empty name.
* `MakeOutputConf` clamps `MaxSize` and `Rotations` in the parse object and returns it; the
  output keeps `maxSize = 0` from its `memset`, and `rotations` is written only when the key is
  missing.
-/

namespace PmLogDaemon

/-! ## The key file -/

/-- `PATH_MAX` of `<limits.h>` on Linux. -/
def pathMax : Nat := 4096

/-- `g_ascii_isspace`: space, tab, newline, form feed and carriage return. -/
def gAsciiIsspace (c : Char) : Bool :=
  c = ' ' || c = '\t' || c = '\n' || c = '\x0c' || c = '\r'

/-- GLib's `g_key_file_parse_value_as_integer`: `strtol` in base 10 that reads up to the end
of the value or a blank, with a result within `int`. -/
def parseValueAsInteger (w : Nat) (value : List Char) : Option Int :=
  let (n, endp, erange) := strtol w 10 value
  let e := deref (value.drop endp)
  if value = [] ∨ (e ≠ '\x00' ∧ gAsciiIsspace e = false) then none
  else if n.bmod (2 ^ 32) ≠ n ∨ erange then none
  else some n

/-- A group of the key file: its name and its keys with their values. -/
structure Group where
  name : List Char
  entries : List (List Char × List Char)
  deriving DecidableEq, Repr

/-- `g_key_file_get_string(config_file, group, key, &gerror)`: `none` when it sets an error. -/
def Group.getString (g : Group) (key : List Char) : Option (List Char) :=
  g.entries.lookup key

/-- `g_key_file_get_integer(config_file, group, key, &gerror)`: `none` when it sets an error. -/
def Group.getInteger (g : Group) (w : Nat) (key : List Char) : Option Int :=
  (g.getString key).bind (parseValueAsInteger w)

/-- A loaded key file: `g_key_file_get_groups` lists its groups in order, with distinct names. -/
structure KeyFile where
  groups : List Group
  names_nodup : (groups.map Group.name).Nodup

/-- `"OUTPUT="`, the prefix of an output group. -/
def outputPrefix : List Char := "OUTPUT=".toList

/-- `"CONTEXT="`, the prefix of a context group. -/
def contextPrefix : List Char := "CONTEXT=".toList

/-- `"Rule%d"` for `j + 1`, as `mysprintf` writes it into `ruleName[10]`. -/
def ruleName (j : Nat) : List Char :=
  ("Rule".toList ++ (Nat.repr (j + 1)).toList).take 9

/-- `mysprintf(ruleName, sizeof(ruleName), "Rule%d", j+1)` (`config.c:678`) stores only inside
the 10 bytes of the key buffer and leaves there the key `ruleName j`. -/
theorem mysprintfBuf_ruleName (j : Nat) {dst : List Char} (hn : dst.length = 10) :
    ∃ buf, mysprintfBuf dst 10 ['R', 'u', 'l', 'e', '%', 'd'] [.int (j + 1)] = some buf ∧
      buf.length = 10 ∧ Holds buf (ruleName j) := by
  have hout : formatOutput ['R', 'u', 'l', 'e', '%', 'd'] [.int (j + 1)] =
      some ('R' :: 'u' :: 'l' :: 'e' :: (formatInt (j + 1) ++ [])) := rfl
  rw [List.append_nil, ← Nat.cast_succ, formatInt_natCast] at hout
  exact mysprintfBuf_holds (by decide) hn hout

section Read

variable (H : Platform)

/-! ## Outputs -/

/-- `PmLogParseOutput_t` (`config.c:72-79`). -/
structure PmLogParseOutput where
  name : List Char
  file : List Char
  maxSize : Int
  rotations : Int
  deriving DecidableEq, Repr

/-- A parse object cleared by `memset`. -/
def PmLogParseOutput.zero : PmLogParseOutput := ⟨[], [], 0, 0⟩

/-- `ParseOutputInit(name, parseOutputP)` (`config.c:187-209`): the first output must be
`stdlog`; otherwise the object stays cleared and the call returns false. -/
def parseOutputInit (st : ConfState) (name : List Char) : Bool × PmLogParseOutput :=
  if st.numOutputs = 0 ∧ name ≠ pmlogOutputStdlog then (false, PmLogParseOutput.zero)
  else (true, ⟨mystrcpy [] (H.pmlogOutputMaxNameLength + 1) name, [],
    H.confIntUninitValue, H.confIntUninitValue⟩)

/-- The `MaxSize` checks of `MakeOutputConf` (`config.c:265-276`). -/
def checkMaxSize (n : Int) : Int :=
  if n = H.confIntUninitValue then pmlogDefaultLogSize
  else if n < pmlogMinLogSize then pmlogMinLogSize
  else if n > pmlogMaxLogSize then pmlogMaxLogSize
  else n

/-- The `Rotations` checks of `MakeOutputConf` for a given value (`config.c:282-288`). -/
def checkRotations (n : Int) : Int :=
  if n < pmlogMinNumRotations then pmlogMinNumRotations
  else if n > pmlogMaxNumRotations then pmlogMaxNumRotations
  else n

/-- `MakeOutputConf(parseOutputP)` (`config.c:225-291`): whether it returns true, the parse
object it leaves, and the state. The output of that name is found, or made at the end of the
table with `maxSize = rotations = 0`; only a missing `Rotations` writes to it. -/
def makeOutputConf (po : PmLogParseOutput) (st : ConfState) :
    Bool × PmLogParseOutput × ConfState :=
  if deref po.file ≠ '/' then (false, po, st)
  else
    let found := findOutputByName st.outputConfs po.name
    if found = none ∧ st.numOutputs ≥ H.pmlogMaxNumOutputs then (false, po, st)
    else
      let i := found.getD st.numOutputs
      let st := if found = none then
        { st with outputConfs := st.outputConfs ++ [⟨po.name, po.file, 0, 0⟩] } else st
      let po := { po with maxSize := checkMaxSize H po.maxSize }
      if po.rotations = H.confIntUninitValue then
        let outs := st.outputConfs.modify (fun o => { o with rotations := pmlogDefaultLogRotations }) i
        (true, po, { st with outputConfs := outs })
      else (true, { po with rotations := checkRotations po.rotations }, st)

theorem map_modify_of_comp {α β : Type} {f : α → α} {g : α → β} (h : ∀ a, g (f a) = g a) :
    ∀ (l : List α) (i : Nat), (l.modify f i).map g = l.map g
  | [], _ => by simp
  | a :: l, 0 => by simp [h]
  | a :: l, i + 1 => by simp [map_modify_of_comp h l i]

theorem mem_modify {α : Type} {f : α → α} {l : List α} {i : Nat} {x : α}
    (h : x ∈ l.modify f i) : x ∈ l ∨ ∃ y ∈ l, x = f y := by
  rw [List.modify_eq_take_drop] at h
  rcases List.mem_append.mp h with h | h
  · exact .inl (List.mem_of_mem_take h)
  · cases hd : l.drop i with
    | nil => simp [hd] at h
    | cons y t =>
      have hy : y ∈ l := List.mem_of_mem_drop (hd ▸ List.mem_cons_self y t)
      rw [hd, List.modifyHead_cons, List.mem_cons] at h
      rcases h with rfl | h
      · exact .inr ⟨y, hy, rfl⟩
      · exact .inl (List.mem_of_mem_drop (hd ▸ List.mem_cons_of_mem y h))

theorem modify_append_length {α : Type} (f : α → α) (l : List α) (a : α) :
    (l ++ [a]).modify f l.length = l ++ [f a] := by
  simp [List.modify_eq_take_drop]

/-- **What `MakeOutputConf` can do.** It returns false and leaves the tables; or, on a full
path, it keeps the output of that name, writing its rotations when `Rotations` was missing; or,
with room left, it appends a new output of that name and path with `maxSize = 0`. -/
theorem makeOutputConf_cases (po : PmLogParseOutput) (st : ConfState) :
    ((makeOutputConf H po st).1 = false ∧ (makeOutputConf H po st).2.2 = st) ∨
    ((makeOutputConf H po st).1 = true ∧ deref po.file = '/' ∧
      ∃ outs, (makeOutputConf H po st).2.2 = { st with outputConfs := outs } ∧
        ((∃ i, findOutputByName st.outputConfs po.name = some i ∧
            outs = if po.rotations = H.confIntUninitValue then
              st.outputConfs.modify (fun o => { o with rotations := pmlogDefaultLogRotations }) i
            else st.outputConfs) ∨
         (findOutputByName st.outputConfs po.name = none ∧
            st.numOutputs < H.pmlogMaxNumOutputs ∧
            outs = st.outputConfs ++ [⟨po.name, po.file, 0,
              if po.rotations = H.confIntUninitValue then pmlogDefaultLogRotations else 0⟩]))) := by
  unfold makeOutputConf
  by_cases hf : deref po.file = '/'
  · rw [if_neg (not_not.mpr hf)]
    cases hfind : findOutputByName st.outputConfs po.name with
    | some i =>
      refine .inr ?_
      simp only [reduceCtorEq, false_and, if_false, Option.getD_some]
      split <;> exact ⟨rfl, hf, _, rfl, .inl ⟨i, rfl, by simp [*]⟩⟩
    | none =>
      by_cases hmax : st.numOutputs ≥ H.pmlogMaxNumOutputs
      · exact .inl (by simp [hmax])
      · refine .inr ?_
        simp only [true_and, if_neg hmax, if_true, Option.getD_none]
        split
        · refine ⟨rfl, hf, _, rfl, .inr ⟨by omega, ?_⟩⟩
          simp only [ConfState.numOutputs, modify_append_length, if_pos ‹_›]
        · exact ⟨rfl, hf, _, rfl, .inr ⟨by omega, by simp [*]⟩⟩
  · exact .inl (by simp [hf])

@[simp] theorem makeOutputConf_contextConfs (po : PmLogParseOutput) (st : ConfState) :
    (makeOutputConf H po st).2.2.contextConfs = st.contextConfs := by
  rcases makeOutputConf_cases H po st with ⟨-, hst⟩ | ⟨-, -, outs, hst, -⟩ <;> rw [hst]

@[simp] theorem makeOutputConf_numContexts (po : PmLogParseOutput) (st : ConfState) :
    (makeOutputConf H po st).2.2.numContexts = st.numContexts := by
  rcases makeOutputConf_cases H po st with ⟨-, hst⟩ | ⟨-, -, outs, hst, -⟩ <;> rw [hst]

/-- The key lookups of the OUTPUT branch (`config.c:626-662`) on a group named `OUTPUT=<name>`:
whether `gerror` is left non-NULL, and the parse object handed to `MakeOutputConf`. -/
def readOutputKeys (g : Group) (name : List Char) (st : ConfState) : Bool × PmLogParseOutput :=
  let po := (parseOutputInit H st name).2
  let po := match g.getString "File".toList with
    | some str => { po with file := str.take (pathMax - 1) }
    | none => po
  let po := match g.getString "MaxSize".toList with
    | some str =>
      match parseSize H.longWidth str with
      | some n => { po with maxSize := n }
      | none => po
    | none => po
  match g.getInteger H.longWidth "Rotations".toList with
  | some rots => (false, { po with rotations := rots })
  | none => (true, po)

/-- The OUTPUT branch's lookups: `gerror` is left set exactly when `Rotations` gave no integer;
`File`, `MaxSize` and `Rotations` overwrite the fields of what `ParseOutputInit` left. -/
theorem readOutputKeys_eq (g : Group) (name : List Char) (st : ConfState) :
    readOutputKeys H g name st =
      ((g.getInteger H.longWidth "Rotations".toList).isNone,
        { (parseOutputInit H st name).2 with
          file := ((g.getString "File".toList).map (·.take (pathMax - 1))).getD
            (parseOutputInit H st name).2.file
          maxSize := ((g.getString "MaxSize".toList).bind (parseSize H.longWidth)).getD
            (parseOutputInit H st name).2.maxSize
          rotations := (g.getInteger H.longWidth "Rotations".toList).getD
            (parseOutputInit H st name).2.rotations }) := by
  unfold readOutputKeys
  generalize (parseOutputInit H st name).2 = po
  generalize g.getString "File".toList = f
  generalize g.getInteger H.longWidth "Rotations".toList = r
  generalize g.getString "MaxSize".toList = m
  rcases f with _ | f <;> rcases r with _ | r <;> rcases m with _ | m <;> dsimp only
  all_goals first | (rw [Option.some_bind]; cases parseSize H.longWidth m <;> rfl) | rfl

/-! ## Contexts -/

/-- `ParseContextInit(name, parseContextP)` (`config.c:347-368`): the first context must be
`<global>`; otherwise the object stays cleared and the call returns false. -/
def parseContextInit (st : ConfState) (name : List Char) : Bool × PmLogParseContext :=
  let pc : PmLogParseContext :=
    ⟨[], 0, 0, 0, List.replicate H.pmlogContextMaxNumRules PmLogParseRule.zero⟩
  if st.numContexts = 0 ∧ name ≠ pmlogContextGlobal then (false, pc)
  else (true, { pc with name := mystrcpy [] (H.pmlogMaxContextNameLen + 1) name })

@[simp] theorem parseContextInit_numRules (st : ConfState) (name : List Char) :
    (parseContextInit H st name).2.numRules = 0 := by
  unfold parseContextInit; split <;> rfl

@[simp] theorem parseContextInit_rules (st : ConfState) (name : List Char) :
    (parseContextInit H st name).2.rules =
      List.replicate H.pmlogContextMaxNumRules PmLogParseRule.zero := by
  unfold parseContextInit; split <;> rfl

@[simp] theorem parseContextInit_bufferSize (st : ConfState) (name : List Char) :
    (parseContextInit H st name).2.bufferSize = 0 := by
  unfold parseContextInit; split <;> rfl

@[simp] theorem parseContextInit_flushLevel (st : ConfState) (name : List Char) :
    (parseContextInit H st name).2.flushLevel = 0 := by
  unfold parseContextInit; split <;> rfl

/-- A parse rule as `MakeContextConf` copies it: an empty program becomes NULL. -/
def PmLogParseRule.toRule (r : PmLogParseRule) : PmLogRule :=
  ⟨r.facility, r.level, r.levelInvert, if r.program = [] then none else some r.program,
    r.outputIndex, r.omitOutput⟩

/-- The copy loop of `MakeContextConf` (`config.c:515-533`): rule `i` for `i < numRules`. -/
def copyRules (pc : PmLogParseContext) (rules : List PmLogRule) : List PmLogRule :=
  (List.range pc.numRules).foldl
    (fun rules i => rules.set i (pc.rules.getD i PmLogParseRule.zero).toRule) rules

@[simp] theorem PmLogParseRule.toRule_outputIndex (r : PmLogParseRule) :
    r.toRule.outputIndex = r.outputIndex := rfl

/-- Slot `i` after the copy: rule `i` of the parse object for `i < numRules` (when the slot
exists), the old slot otherwise. -/
theorem getElem?_copyRules (pc : PmLogParseContext) (rules : List PmLogRule) (i : Nat) :
    (copyRules pc rules)[i]? =
      if i < pc.numRules then rules[i]?.map fun _ => (pc.rules.getD i PmLogParseRule.zero).toRule
      else rules[i]? := by
  unfold copyRules
  induction pc.numRules with
  | zero => simp
  | succ k ih =>
    rw [List.range_succ, List.foldl_append, List.foldl_cons, List.foldl_nil, List.getElem?_set', ih]
    by_cases hk : k = i
    · subst hk
      rw [if_pos rfl, if_neg (Nat.lt_irrefl k), if_pos (Nat.lt_succ_self k)]
      rfl
    · rw [if_neg hk]
      split_ifs <;> first | rfl | omega

/-- What `MakeContextConf` writes through `contextConfP`: `numRules`, the rules, and the ring
buffer `RBNew(bufferSize, flushLevel)`. -/
def makeContextConfWrite (pc : PmLogParseContext) (c : PmLogContextConf) : PmLogContextConf :=
  { c with numRules := pc.numRules, rules := copyRules pc c.rules,
           rb := some ⟨pc.bufferSize, pc.flushLevel⟩ }

/-- The work of `MakeContextConf(parseContextP)` (`config.c:500-539`): `contextConfP` is the
tree's context of that name, or the one `CreateContext` makes; the context written through it,
and the tables. -/
def makeContextConfWith (pc : PmLogParseContext) (st : ConfState) :
    PmLogContextConf × ConfState :=
  let (c, st) := lookupOrCreateContext H pc.name st
  (makeContextConfWrite pc c, st.storeContext (makeContextConfWrite pc c))

/-- `MakeContextConf(parseContextP)`; it always returns true. -/
def makeContextConf (pc : PmLogParseContext) (st : ConfState) : Bool × ConfState :=
  (true, (makeContextConfWith H pc st).2)

theorem makeContextConfWith_fst (pc : PmLogParseContext) (st : ConfState) :
    (makeContextConfWith H pc st).1 =
      makeContextConfWrite pc (lookupOrCreateContext H pc.name st).1 := rfl

theorem makeContextConf_snd (pc : PmLogParseContext) (st : ConfState) :
    (makeContextConf H pc st).2 = (lookupOrCreateContext H pc.name st).2.storeContext
      (makeContextConfWrite pc (lookupOrCreateContext H pc.name st).1) := rfl

@[simp] theorem makeContextConf_outputConfs (pc : PmLogParseContext) (st : ConfState) :
    (makeContextConf H pc st).2.outputConfs = st.outputConfs := by
  simp [makeContextConf_snd]

/-- The rule loop of `ReadConfFile` (`config.c:677-694`) from `Rule<j+1>`, with `fuel`
iterations left: a missing key ends it; a value `ParseContextData` rejects ends it with
`retVal = false`. Whether every value read parsed, and the parse object. -/
def readRules (outputs : List PmLogFile) (g : Group) :
    Nat → Nat → PmLogParseContext → Bool × PmLogParseContext
  | 0, _, pc => (true, pc)
  | fuel + 1, j, pc =>
    match g.getString (ruleName j) with
    | none => (true, pc)
    | some str =>
      match parseContextData H outputs pc str with
      | (false, pc) => (false, pc)
      | (true, pc) => readRules outputs g fuel (j + 1) pc

/-- The rule loop writes only the rules and their count. -/
theorem readRules_keeps (outputs : List PmLogFile) (g : Group) :
    ∀ fuel j pc, (readRules H outputs g fuel j pc).2.name = pc.name ∧
      (readRules H outputs g fuel j pc).2.bufferSize = pc.bufferSize ∧
      (readRules H outputs g fuel j pc).2.flushLevel = pc.flushLevel ∧
      (readRules H outputs g fuel j pc).2.rules.length = pc.rules.length
  | 0, _, _ => ⟨rfl, rfl, rfl, rfl⟩
  | fuel + 1, j, pc => by
    unfold readRules
    split
    · exact ⟨rfl, rfl, rfl, rfl⟩
    · split <;> rename_i pc' heq <;> have hpc := congrArg Prod.snd heq <;> dsimp only at hpc
      · rw [← hpc]; simp
      · obtain ⟨h1, h2, h3, h4⟩ := readRules_keeps outputs g fuel (j + 1) pc'
        rw [h1, h2, h3, h4, ← hpc]; simp

/-- The `BufferSize` lookup of the CONTEXT branch (`config.c:696-706`). With `gerror` still set
by an earlier group the lookup cannot report and the value is dropped; the `else if (gerror)`
branch then frees the stale error a second time, the double free at which `readGroups` stops.
Whether the value parsed, and the parse object. -/
def readBufferSize (g : Group) (gerror : Bool) (pc : PmLogParseContext) :
    Bool × PmLogParseContext :=
  if gerror then (true, pc)
  else match g.getString "BufferSize".toList with
    | some str =>
      match parseSize H.longWidth str with
      | some n => (true, { pc with bufferSize := n })
      | none => (false, pc)
    | none => (true, pc)

/-- The `FlushLevel` lookup of the CONTEXT branch (`config.c:708-718`): `ParseLevel` stores -1
when it fails. Whether the value parsed, and the parse object. -/
def readFlushLevel (g : Group) (pc : PmLogParseContext) : Bool × PmLogParseContext :=
  match g.getString "FlushLevel".toList with
  | some str => ((parseLevel str).1, { pc with flushLevel := (parseLevel str).2 })
  | none => (true, pc)

theorem readBufferSize_snd (g : Group) (gerror : Bool) (pc : PmLogParseContext) :
    (readBufferSize H g gerror pc).2 = { pc with bufferSize :=
      if gerror then pc.bufferSize
      else ((g.getString "BufferSize".toList).bind (parseSize H.longWidth)).getD pc.bufferSize } := by
  unfold readBufferSize
  cases gerror
  · simp only [Bool.false_eq_true, if_false]
    split <;> rename_i h
    · rw [h, Option.some_bind]
      split <;> rename_i h' <;> rw [h'] <;> rfl
    · rw [h]; rfl
  · rfl

theorem readFlushLevel_snd (g : Group) (pc : PmLogParseContext) :
    (readFlushLevel g pc).2 = { pc with flushLevel :=
      ((g.getString "FlushLevel".toList).map fun str => (parseLevel str).2).getD pc.flushLevel } := by
  unfold readFlushLevel
  split <;> rename_i h <;> rw [h] <;> rfl

/-- The key lookups of the CONTEXT branch (`config.c:672-720`) on a group named
`CONTEXT=<name>`, with `gerror` as the earlier groups left it: whether every key parsed, and the
parse object handed to `MakeContextConf`. -/
def readContextKeys (g : Group) (name : List Char) (gerror : Bool) (st : ConfState) :
    Bool × PmLogParseContext :=
  let pc := (parseContextInit H st name).2
  let (rulesOk, pc) := readRules H st.outputConfs g H.pmlogContextMaxNumRules 0 pc
  let (sizeOk, pc) := readBufferSize H g gerror pc
  let (levelOk, pc) := readFlushLevel g pc
  (rulesOk && sizeOk && levelOk, pc)

theorem readContextKeys_snd (g : Group) (name : List Char) (gerror : Bool) (st : ConfState) :
    (readContextKeys H g name gerror st).2 =
      (readFlushLevel g (readBufferSize H g gerror
        (readRules H st.outputConfs g H.pmlogContextMaxNumRules 0
          (parseContextInit H st name).2).2).2).2 := rfl

/-! ## The loop over the groups -/

/-- How a load of `ReadConfFile` ends. -/
inductive LoadOutcome
  /-- `ReadConfFile` returns `retVal`. -/
  | returns (retVal : Bool)
  /-- `g_error_free` frees the `GError` the OUTPUT branch already freed: a double free, after
  which C defines nothing. -/
  | doubleFree
  deriving DecidableEq, Repr

/-- How a load ends, and the tables when it returns or reaches the double free. -/
structure LoadResult where
  outcome : LoadOutcome
  st : ConfState
  deriving DecidableEq, Repr

/-- `end:` of `ReadConfFile` (`config.c:733-740`) with `retVal` and whether `gerror` is set: in
the loop only the OUTPUT branch leaves it set, after freeing it, so `g_error_free(gerror)` there
frees it a second time. -/
def endLoad (retVal gerror : Bool) : LoadOutcome :=
  if gerror then .doubleFree else .returns retVal

/-- The load returns only past an `end:` with `gerror` NULL, and returns `retVal` there. -/
@[simp] theorem endLoad_eq_returns {retVal gerror b : Bool} :
    endLoad retVal gerror = .returns b ↔ gerror = false ∧ retVal = b := by
  cases gerror <;> simp [endLoad]

/-- The loop of `ReadConfFile` over the groups (`config.c:622-731`) and its `end:`, with
`retVal` and whether the outer `gerror` is non-NULL. A failed `MakeOutputConf` breaks out of the
loop; a CONTEXT group reached with `gerror` set frees it a second time. -/
def readGroups : List Group → Bool → Bool → ConfState → LoadResult
  | [], retVal, gerror, st => ⟨endLoad retVal gerror, st⟩
  | g :: gs, retVal, gerror, st =>
    if outputPrefix.isPrefixOf g.name then
      let (gerror, po) := readOutputKeys H g (g.name.drop outputPrefix.length) st
      match makeOutputConf H po st with
      | (true, _, st) => readGroups gs retVal gerror st
      | (false, _, st) => ⟨endLoad false gerror, st⟩
    else if contextPrefix.isPrefixOf g.name then
      if gerror then ⟨.doubleFree, st⟩
      else
        let (ok, pc) := readContextKeys H g (g.name.drop contextPrefix.length) false st
        readGroups gs (retVal && ok) false (makeContextConf H pc st).2
    else readGroups gs retVal gerror st

/-- `ReadConfFile(config_path)` (`config.c:578-741`) on what `g_key_file_load_from_file`
loaded: how it ends, and the tables. A failed load frees its own error once and returns false. -/
def readConfFile (kf : Option KeyFile) (st : ConfState) : LoadResult :=
  match kf with
  | none => ⟨.returns false, st⟩
  | some kf => readGroups H kf.groups true false st

/-- **The run lemma of `ReadConfFile`.** A property of the tables that `MakeOutputConf` keeps,
and `MakeContextConf` keeps on the parse object of any CONTEXT group, holds when the load
returns, whether true or false, and when it reaches the double free. -/
theorem readGroups_induction (P : ConfState → Prop)
    (hout : ∀ po st b po' st', P st → makeOutputConf H po st = (b, po', st') → P st')
    (hctx : ∀ g name gerror st, P st →
      P (makeContextConf H (readContextKeys H g name gerror st).2 st).2) :
    ∀ gs retVal gerror st, P st → P (readGroups H gs retVal gerror st).st
  | [], _, _, _, h => h
  | g :: gs, retVal, gerror, st, h => by
    unfold readGroups
    split
    · split
      split <;> rename_i heq
      · exact readGroups_induction P hout hctx gs _ _ _ (hout _ _ _ _ _ h heq)
      · exact hout _ _ _ _ _ h heq
    · split
      · split
        · exact h
        · split
          rename_i heq
          have h' := hctx g (g.name.drop contextPrefix.length) false st h
          rw [heq] at h'
          exact readGroups_induction P hout hctx gs _ _ _ h'
      · exact readGroups_induction P hout hctx gs _ _ _ h

theorem readConfFile_induction (P : ConfState → Prop)
    (hout : ∀ po st b po' st', P st → makeOutputConf H po st = (b, po', st') → P st')
    (hctx : ∀ g name gerror st, P st →
      P (makeContextConf H (readContextKeys H g name gerror st).2 st).2)
    (kf : Option KeyFile) {st : ConfState} (h : P st) : P (readConfFile H kf st).st := by
  cases kf with
  | none => exact h
  | some kf => exact readGroups_induction H P hout hctx _ _ _ _ h

end Read

end PmLogDaemon
