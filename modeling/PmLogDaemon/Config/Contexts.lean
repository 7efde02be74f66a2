import PmLogDaemon.Config.Read

/-!
# The context table after a load

Model of what the CONTEXT branch of `ReadConfFile` (`config.c:670-727`) hands to
`MakeContextConf`, and what `MakeContextConf` (`config.c:500-539`) writes.

* The parse object starts cleared by `ParseContextInit`; the rule loop fills its slots from
  `Rule1` on; `BufferSize` and `FlushLevel` fill the ring buffer's arguments, 0 when absent.
* `BufferSize` is read into the outer `gerror`, which the OUTPUT branch leaves set when a group
  has no `Rotations` (`readOutputKeys_eq`). With it set the lookup cannot report, the test
  `!gerror` fails and the value is dropped; the code then frees the stale error a second time,
  where the load stops (`Config/Read.lean`).
* `MakeContextConf` writes through `contextConfP`, which points to the tree's context of that name
  or to the one `CreateContext` made (`writtenContext`, read off `makeContextConfWith`):
  `numRules`, the first `numRules` rules converted by `PmLogParseRule.toRule`, and the `RBNew`
  call. On a tree that is not NULL that context is the tree's entry of its name afterwards
  (`makeContextConf_lookupContext`).

Results:
* `readContextKeys_drops_bufferSize`: after an OUTPUT group without `Rotations`, a CONTEXT
  group's `BufferSize` is dropped before the double free: the parse object holds 0, where it
  holds the parsed size otherwise. On `[OUTPUT=stdlog]` without `Rotations` and
  `[CONTEXT=<global>]` with `BufferSize=16K` the load stops at the double free; with
  `Rotations=1` it makes `<global>` with a 16 KiB buffer.
* `readContextKeys_ringBuffer_bounds`: every `RBNew` call of a load has a flush level in -1..7
  and a size within `int`; `ringBuffer_accepts_negative`: the size can be negative, and the level
  -1, in a file the load accepts.
* `writtenContext_rules`: on a run of `RuleN` keys that all parse, the context written has
  `numRules` the length of the run (cut at `PMLOG_CONTEXT_MAX_NUM_RULES`) and those rules, in
  order, whether it is new or was in the tree.
-/

namespace PmLogDaemon

section Contexts

variable (H : Platform)

/-! ## The parse object handed to `MakeContextConf` -/

theorem readContextKeys_numRules (g : Group) (name : List Char) (gerror : Bool) (st : ConfState) :
    (readContextKeys H g name gerror st).2.numRules =
      (readRules H st.outputConfs g H.pmlogContextMaxNumRules 0 (parseContextInit H st name).2).2.numRules := by
  rw [readContextKeys_snd, readFlushLevel_snd, readBufferSize_snd]

theorem readContextKeys_rules (g : Group) (name : List Char) (gerror : Bool) (st : ConfState) :
    (readContextKeys H g name gerror st).2.rules =
      (readRules H st.outputConfs g H.pmlogContextMaxNumRules 0 (parseContextInit H st name).2).2.rules := by
  rw [readContextKeys_snd, readFlushLevel_snd, readBufferSize_snd]

theorem readContextKeys_bufferSize (g : Group) (name : List Char) (gerror : Bool) (st : ConfState) :
    (readContextKeys H g name gerror st).2.bufferSize =
      if gerror then 0
      else ((g.getString "BufferSize".toList).bind (parseSize H.longWidth)).getD 0 := by
  rw [readContextKeys_snd, readFlushLevel_snd, readBufferSize_snd,
    (readRules_keeps H _ g _ 0 _).2.1, parseContextInit_bufferSize]

theorem readContextKeys_flushLevel (g : Group) (name : List Char) (gerror : Bool) (st : ConfState) :
    (readContextKeys H g name gerror st).2.flushLevel =
      ((g.getString "FlushLevel".toList).map fun str => (parseLevel str).2).getD 0 := by
  rw [readContextKeys_snd, readFlushLevel_snd, readBufferSize_snd]
  simp only [(readRules_keeps H _ g _ 0 _).2.2.1, parseContextInit_flushLevel]

/-! ## The stale error of the OUTPUT branch -/

/-- **A missing `Rotations` drops the next context's `BufferSize`.** After an OUTPUT group whose
`Rotations` gives no integer, the parse object of the CONTEXT group that follows holds the size
0 whatever its `BufferSize` says, when the code reaches the second free of the stale error;
without the stale error it holds the value `ParseSize` gives. -/
theorem readContextKeys_drops_bufferSize (g g' : Group) (name name' : List Char)
    (st st' : ConfState) (hrot : g.getInteger H.longWidth "Rotations".toList = none) :
    (readContextKeys H g' name' (readOutputKeys H g name st).1 st').2.bufferSize = 0 ∧
    (readContextKeys H g' name' false st').2.bufferSize =
      ((g'.getString "BufferSize".toList).bind (parseSize H.longWidth)).getD 0 := by
  rw [readContextKeys_bufferSize, readContextKeys_bufferSize, readOutputKeys_eq, hrot]
  exact ⟨rfl, rfl⟩

/-- `[OUTPUT=stdlog]` with `File=/var/log/messages` and no `Rotations`. -/
def stdlogGroup : Group := ⟨outputPrefix ++ pmlogOutputStdlog, [("File".toList, defaultLogFilePath)]⟩

/-- `[CONTEXT=<global>]` with `BufferSize=16K`. -/
def globalBufferGroup : Group :=
  ⟨contextPrefix ++ pmlogContextGlobal, [("BufferSize".toList, "16K".toList)]⟩

/-- `[OUTPUT=stdlog]` with `File=/var/log/messages` and `Rotations=1`. -/
def rotatedStdlogGroup : Group :=
  ⟨outputPrefix ++ pmlogOutputStdlog,
    [("File".toList, defaultLogFilePath), ("Rotations".toList, "1".toList)]⟩

/-- `stdlogGroup`, then `globalBufferGroup`. -/
def staleBufferFile : KeyFile := ⟨[stdlogGroup, globalBufferGroup], by decide⟩

/-- `rotatedStdlogGroup`, then `globalBufferGroup`. -/
def rotatedBufferFile : KeyFile := ⟨[rotatedStdlogGroup, globalBufferGroup], by decide⟩

theorem readContextKeys_drops_bufferSize_16K :
    stdlogGroup.getInteger Platform.typical.longWidth "Rotations".toList = none ∧
    ((readContextKeys Platform.typical globalBufferGroup pmlogContextGlobal
      (readOutputKeys Platform.typical stdlogGroup pmlogOutputStdlog ConfState.init).1
      ConfState.init).2.bufferSize = 0 ∧
    (readContextKeys Platform.typical globalBufferGroup pmlogContextGlobal false
      ConfState.init).2.bufferSize =
      ((globalBufferGroup.getString "BufferSize".toList).bind
        (parseSize Platform.typical.longWidth)).getD 0) ∧
    (readConfFile Platform.typical (some staleBufferFile) ConfState.init).outcome = .doubleFree ∧
    (readConfFile Platform.typical (some rotatedBufferFile) ConfState.init).outcome =
      .returns true ∧
    (readConfFile Platform.typical (some rotatedBufferFile) ConfState.init).st.contexts.map
      (·.rb) = [some ⟨16384, 0⟩] :=
  ⟨rfl, readContextKeys_drops_bufferSize _ _ _ _ _ _ _ rfl, by decide, by decide, by decide⟩

example : parseSize 64 "16K".toList = some 16384 := by decide

/-! ## The ring buffer -/

/-- **The arguments of every `RBNew` call of a load.** For every CONTEXT group, whatever came
before it, `MakeContextConf` calls `RBNew(bufferSize, flushLevel)` with a flush level in -1..7
(-1 for `none`, or when `ParseLevel` fails) and a size within `int`, of either sign. -/
theorem readContextKeys_ringBuffer_bounds (g : Group) (name : List Char) (gerror : Bool)
    (st : ConfState) :
    -1 ≤ (readContextKeys H g name gerror st).2.flushLevel ∧
    (readContextKeys H g name gerror st).2.flushLevel ≤ 7 ∧
    -2 ^ 31 ≤ (readContextKeys H g name gerror st).2.bufferSize ∧
    (readContextKeys H g name gerror st).2.bufferSize < 2 ^ 31 := by
  rw [readContextKeys_flushLevel, readContextKeys_bufferSize]
  have hlevel : -1 ≤ ((g.getString "FlushLevel".toList).map fun str => (parseLevel str).2).getD 0 ∧
      ((g.getString "FlushLevel".toList).map fun str => (parseLevel str).2).getD 0 ≤ 7 := by
    cases g.getString "FlushLevel".toList with
    | none => decide
    | some str => exact parseLevel_snd_bounds str
  have hsize : -2 ^ 31 ≤ ((g.getString "BufferSize".toList).bind (parseSize H.longWidth)).getD 0 ∧
      ((g.getString "BufferSize".toList).bind (parseSize H.longWidth)).getD 0 < 2 ^ 31 := by
    cases h : (g.getString "BufferSize".toList).bind (parseSize H.longWidth) with
    | none => decide
    | some n =>
      obtain ⟨str, -, hs⟩ := Option.bind_eq_some.mp h
      exact parseSize_bounds hs
  refine ⟨hlevel.1, hlevel.2, ?_⟩
  split
  · decide
  · exact hsize

/-- Every ring buffer of the tree has a size `≥ 0` and a flush level in 0..7. -/
def RingBuffersValid (st : ConfState) : Prop :=
  ∀ c ∈ st.contexts, ∀ rb, c.rb = some rb → 0 ≤ rb.bufferSize ∧ 0 ≤ rb.flushLevel ∧ rb.flushLevel ≤ 7

/-- Every file the load accepts from the empty tables leaves valid ring buffers. -/
def AcceptedRingBuffersValid (H : Platform) : Prop :=
  ∀ kf st, readConfFile H (some kf) ConfState.init = ⟨.returns true, st⟩ → RingBuffersValid st

/-- `[CONTEXT=<global>]` with `BufferSize=-1` and `FlushLevel=none`. -/
def negativeRingFile : KeyFile :=
  ⟨[⟨contextPrefix ++ pmlogContextGlobal,
      [("BufferSize".toList, "-1".toList), ("FlushLevel".toList, "none".toList)]⟩],
    List.nodup_cons.mpr ⟨List.not_mem_nil _, List.nodup_nil⟩⟩

theorem readConfFile_negativeRingFile :
    readConfFile Platform.typical (some negativeRingFile) ConfState.init =
      ⟨.returns true, ⟨[], 1, some [⟨pmlogContextGlobal, 0, List.replicate 32 PmLogRule.zero,
        some ⟨-1, -1⟩⟩]⟩⟩ := by
  decide

theorem ringBuffer_accepts_negative : ¬ AcceptedRingBuffersValid Platform.typical := fun h => by
  have := h _ _ readConfFile_negativeRingFile _ (List.mem_singleton_self _) _ rfl
  exact absurd this.1 (by decide)

/-! ## The rules -/

/-- The iterations of the rule loop from `Rule<j+1>`, `n` of them left, that find their key:
the run of consecutive `RuleN` keys present, cut at `n`. -/
def ruleRun (g : Group) : Nat → Nat → Nat
  | 0, _ => 0
  | n + 1, j => if (g.getString (ruleName j)).isSome then ruleRun g n (j + 1) + 1 else 0

/-- `ruleRun g n j` is `min(n, k)` for the first missing key `Rule<j+k+1>`. -/
theorem ruleRun_spec (g : Group) : ∀ n j, ruleRun g n j ≤ n ∧
    (∀ i < ruleRun g n j, (g.getString (ruleName (j + i))).isSome) ∧
    (ruleRun g n j < n → g.getString (ruleName (j + ruleRun g n j)) = none)
  | 0, _ => ⟨le_rfl, fun _ h => absurd h (Nat.not_lt_zero _), fun h => absurd h (Nat.lt_irrefl _)⟩
  | n + 1, j => by
    rw [ruleRun]
    split <;> rename_i hj
    · obtain ⟨h1, h2, h3⟩ := ruleRun_spec g n (j + 1)
      refine ⟨by omega, fun i hi => ?_, fun h => by rw [← h3 (by omega)]; congr 2; omega⟩
      cases i with
      | zero => exact hj
      | succ i => rw [show j + (i + 1) = j + 1 + i by omega]; exact h2 i (by omega)
    · exact ⟨Nat.zero_le _, fun _ h => absurd h (Nat.not_lt_zero _),
        fun _ => by simpa using hj⟩

/-- The rule `ParseContextData` makes of the value `v` in a cleared slot. -/
def producedRule (outputs : List PmLogFile) (v : List Char) : PmLogParseRule :=
  (parseRule H outputs PmLogParseRule.zero v).2

theorem getD_of_drop_eq_replicate {l : List PmLogParseRule} {j : Nat} (hj : j < l.length)
    (h : l.drop j = List.replicate (l.length - j) PmLogParseRule.zero) :
    l.getD j PmLogParseRule.zero = PmLogParseRule.zero := by
  have : (l.drop j)[0]? = some PmLogParseRule.zero := by
    rw [h, List.getElem?_replicate_of_lt (by omega)]
  rw [List.getElem?_drop, Nat.add_zero] at this
  simp [this]

/-- **The rule loop on a run of keys that all parse.** From slot `j`, with the slots from `j` on
cleared, the loop succeeds, counts the run, and fills its slots in order. -/
theorem readRules_run (outputs : List PmLogFile) (g : Group) :
    ∀ fuel j pc, pc.numRules = j → j + fuel ≤ pc.rules.length →
      pc.rules.drop j = List.replicate (pc.rules.length - j) PmLogParseRule.zero →
      (∀ i, j ≤ i → i < j + ruleRun g fuel j → ∀ v, g.getString (ruleName i) = some v →
        (parseRule H outputs PmLogParseRule.zero v).1 = true) →
      (readRules H outputs g fuel j pc).1 = true ∧
      (readRules H outputs g fuel j pc).2.numRules = j + ruleRun g fuel j ∧
      (readRules H outputs g fuel j pc).2.rules.take (j + ruleRun g fuel j) =
        pc.rules.take j ++ (List.range' j (ruleRun g fuel j)).map fun i =>
          producedRule H outputs ((g.getString (ruleName i)).getD [])
  | 0, j, pc, hn, _, _, _ => by simp [readRules, ruleRun, hn]
  | fuel + 1, j, pc, hn, hlen, hdrop, hparse => by
    cases hv : g.getString (ruleName j) with
    | none => simp [readRules, ruleRun, hv, hn]
    | some v =>
      have hrun : ruleRun g (fuel + 1) j = ruleRun g fuel (j + 1) + 1 := by simp [ruleRun, hv]
      have hok : (parseRule H outputs PmLogParseRule.zero v).1 = true :=
        hparse j le_rfl (by omega) v hv
      have hslot := getD_of_drop_eq_replicate (by omega) hdrop
      have hpcd : parseContextData H outputs pc v = (true, { pc with
          rules := pc.rules.set j (producedRule H outputs v), numRules := j + 1 }) := by
        rw [parseContextData, hn, hslot, producedRule]
        generalize parseRule H outputs PmLogParseRule.zero v = p at hok ⊢
        obtain ⟨ok, r⟩ := p
        cases hok
        rfl
      obtain ⟨h1, h2, h3⟩ := readRules_run outputs g fuel (j + 1)
        { pc with rules := pc.rules.set j (producedRule H outputs v), numRules := j + 1 } rfl
        (by simp; omega)
        (by
          simp only [List.length_set]
          have hd : pc.rules.drop (j + 1) = (pc.rules.drop j).drop 1 := by
            rw [List.drop_drop, Nat.add_comm]
          rw [List.drop_set_of_lt _ _ (Nat.lt_succ_self j), hd, hdrop, List.drop_replicate,
            Nat.sub_sub])
        (fun i hi1 hi2 => hparse i (by omega) (by omega))
      simp only [readRules, hv, hpcd, hrun]
      refine ⟨h1, by omega, ?_⟩
      rw [show j + (ruleRun g fuel (j + 1) + 1) = j + 1 + ruleRun g fuel (j + 1) by omega, h3,
        take_succ_set_self (by omega), List.range'_succ]
      simp [producedRule, hv]

theorem readContextKeys_rules_run (g : Group) (name : List Char) (gerror : Bool) (st : ConfState)
    (hparse : ∀ i < ruleRun g H.pmlogContextMaxNumRules 0, ∀ v, g.getString (ruleName i) = some v →
      (parseRule H st.outputConfs PmLogParseRule.zero v).1 = true) :
    (readContextKeys H g name gerror st).2.numRules = ruleRun g H.pmlogContextMaxNumRules 0 ∧
    (readContextKeys H g name gerror st).2.rules.take (ruleRun g H.pmlogContextMaxNumRules 0) =
      (List.range (ruleRun g H.pmlogContextMaxNumRules 0)).map fun i =>
        producedRule H st.outputConfs ((g.getString (ruleName i)).getD []) := by
  obtain ⟨-, h2, h3⟩ := readRules_run H st.outputConfs g H.pmlogContextMaxNumRules 0
    (parseContextInit H st name).2 (by simp) (by simp) (by simp)
    (fun i _ hi => hparse i (by omega))
  rw [readContextKeys_numRules, readContextKeys_rules]
  simp only [Nat.zero_add] at h2 h3
  rw [h2, h3, List.range_eq_range']
  simp

theorem length_copyRules (pc : PmLogParseContext) (rules : List PmLogRule) :
    (copyRules pc rules).length = rules.length := by
  unfold copyRules
  induction pc.numRules with
  | zero => rfl
  | succ k ih =>
    simp only [List.range_succ, List.foldl_append, List.foldl_cons, List.foldl_nil, List.length_set, ih]

/-- The copy loop within the bounds of both arrays. -/
theorem copyRules_eq {pc : PmLogParseContext} {rules : List PmLogRule}
    (h1 : pc.numRules ≤ pc.rules.length) (h2 : pc.numRules ≤ rules.length) :
    copyRules pc rules = (pc.rules.take pc.numRules).map PmLogParseRule.toRule ++
      rules.drop pc.numRules := by
  apply List.ext_getElem?
  intro i
  rw [getElem?_copyRules]
  split <;> rename_i hi
  · rw [List.getElem?_append_left (by simp; omega), List.getElem?_map,
      List.getElem?_take_of_lt hi, List.getElem?_eq_getElem (by omega),
      List.getElem?_eq_getElem (by omega)]
    simp [List.getElem?_eq_getElem (show i < pc.rules.length by omega)]
  · rw [List.getElem?_append_right (by simp; omega), List.getElem?_drop]
    simp only [List.length_map, List.length_take, Nat.min_eq_left h1]
    congr 1; omega

/-- A write through `contextConfP` is what a lookup of its name finds, when the tree holds that
name. -/
theorem find?_replace {l : List PmLogContextConf} {w : PmLogContextConf} {n : List Char}
    (hw : w.contextName = n) (h : ∃ d ∈ l, d.contextName = n) :
    (l.map fun d => if d.contextName = w.contextName then w else d).find?
      (·.contextName = n) = some w := by
  subst hw
  induction l with
  | nil => obtain ⟨d, hd, -⟩ := h; cases hd
  | cons d l ih =>
    by_cases hd : d.contextName = w.contextName
    · simp [hd]
    · rw [List.map_cons, if_neg hd, List.find?_cons_of_neg _ (by simpa using hd)]
      obtain ⟨e, he, hn⟩ := h
      rcases List.mem_cons.mp he with rfl | he
      · exact absurd hn hd
      · exact ih ⟨e, he, hn⟩

/-- **The context written is the one stored.** On a tree that is not NULL, the tree after
`MakeContextConf` holds the context written through `contextConfP` under the parse object's
name. -/
theorem makeContextConf_lookupContext (pc : PmLogParseContext) {st : ConfState}
    (h : st.contextConfs ≠ none) :
    (makeContextConf H pc st).2.lookupContext pc.name = some (makeContextConfWith H pc st).1 := by
  obtain ⟨ht, d, hd, hdn⟩ := @lookupOrCreateContext_tree H pc.name st h
  have hw : (makeContextConfWith H pc st).1.contextName = pc.name := by
    rw [makeContextConfWith_fst]
    exact lookupOrCreateContext_fst_contextName H pc.name st
  rw [makeContextConf_snd, ConfState.lookupContext, ConfState.storeContext, ht, Option.map_some',
    Option.some_bind, ← makeContextConfWith_fst]
  exact find?_replace hw ⟨d, hd, hdn⟩

/-- The context `MakeContextConf` writes through `contextConfP` for a CONTEXT group. -/
def writtenContext (g : Group) (name : List Char) (gerror : Bool) (st : ConfState) :
    PmLogContextConf :=
  (makeContextConfWith H (readContextKeys H g name gerror st).2 st).1

/-- **The rules of a context.** When every key `Rule1 .. RuleK` of the run parses, the context
`MakeContextConf` writes has `numRules = K` and its first `K` rules are, in order, those
`ParseContextData` made of `Rule1 .. RuleK`, with an empty program stored as NULL; this holds for
a new context and for one already in the tree, none of whose old rules survive among them. -/
theorem writtenContext_rules (g : Group) (name : List Char) (gerror : Bool) (st : ConfState)
    (hslots : ∀ c ∈ st.contexts, c.rules.length = H.pmlogContextMaxNumRules)
    (hparse : ∀ i < ruleRun g H.pmlogContextMaxNumRules 0, ∀ v, g.getString (ruleName i) = some v →
      (parseRule H st.outputConfs PmLogParseRule.zero v).1 = true) :
    (writtenContext H g name gerror st).numRules = ruleRun g H.pmlogContextMaxNumRules 0 ∧
    (writtenContext H g name gerror st).rules.take (ruleRun g H.pmlogContextMaxNumRules 0) =
      (List.range (ruleRun g H.pmlogContextMaxNumRules 0)).map fun i =>
        (producedRule H st.outputConfs ((g.getString (ruleName i)).getD [])).toRule := by
  obtain ⟨hnum, hrules⟩ := readContextKeys_rules_run H g name gerror st hparse
  have hK := (ruleRun_spec g H.pmlogContextMaxNumRules 0).1
  have hpcl : (readContextKeys H g name gerror st).2.rules.length = H.pmlogContextMaxNumRules := by
    rw [readContextKeys_rules, (readRules_keeps H _ g _ 0 _).2.2.2]; simp
  have hcl : (lookupOrCreateContext H (readContextKeys H g name gerror st).2.name st).1.rules.length =
      H.pmlogContextMaxNumRules := by
    rcases lookupOrCreateContext_fst_mem H (readContextKeys H g name gerror st).2.name st with hc | hc
    · exact hslots _ hc
    · rw [hc]; simp [PmLogContextConf.new]
  refine ⟨hnum, ?_⟩
  simp only [writtenContext, makeContextConfWith_fst, makeContextConfWrite]
  rw [copyRules_eq (by omega) (by omega), hnum,
    List.take_append_of_le_length (by simp only [List.length_map, List.length_take]; omega),
    List.take_of_length_le (by simp only [List.length_map, List.length_take]; omega), hrules]
  exact List.map_map _ _ _

/-- `[CONTEXT=<global>]` with `Rule1=*.*,stdlog`. -/
def globalRuleGroup : Group :=
  ⟨contextPrefix ++ pmlogContextGlobal, [("Rule1".toList, "*.*,stdlog".toList)]⟩

/-- The tables after `[OUTPUT=stdlog]`: the one output, and an empty tree. -/
def stdlogState : ConfState := ⟨[⟨pmlogOutputStdlog, defaultLogFilePath, 0, 1⟩], 0, some []⟩

theorem writtenContext_rules_stdlog :
    (∀ c ∈ stdlogState.contexts, c.rules.length = Platform.typical.pmlogContextMaxNumRules) ∧
    (∀ i < ruleRun globalRuleGroup Platform.typical.pmlogContextMaxNumRules 0, ∀ v,
      globalRuleGroup.getString (ruleName i) = some v →
      (parseRule Platform.typical stdlogState.outputConfs PmLogParseRule.zero v).1 = true) ∧
    ((writtenContext Platform.typical globalRuleGroup pmlogContextGlobal false stdlogState).numRules =
      ruleRun globalRuleGroup Platform.typical.pmlogContextMaxNumRules 0 ∧
    (writtenContext Platform.typical globalRuleGroup pmlogContextGlobal false stdlogState).rules.take
      (ruleRun globalRuleGroup Platform.typical.pmlogContextMaxNumRules 0) =
      (List.range (ruleRun globalRuleGroup Platform.typical.pmlogContextMaxNumRules 0)).map fun i =>
        (producedRule Platform.typical stdlogState.outputConfs
          ((globalRuleGroup.getString (ruleName i)).getD [])).toRule) := by
  have hslots : ∀ c ∈ stdlogState.contexts, c.rules.length = Platform.typical.pmlogContextMaxNumRules :=
    fun _ hc => absurd hc (List.not_mem_nil _)
  have hparse : ∀ i < ruleRun globalRuleGroup Platform.typical.pmlogContextMaxNumRules 0, ∀ v,
      globalRuleGroup.getString (ruleName i) = some v →
      (parseRule Platform.typical stdlogState.outputConfs PmLogParseRule.zero v).1 = true := by
    intro i hi v hv
    have hrun : ruleRun globalRuleGroup Platform.typical.pmlogContextMaxNumRules 0 = 1 := by decide
    obtain rfl : i = 0 := by omega
    obtain rfl : v = "*.*,stdlog".toList :=
      (Option.some.inj ((show globalRuleGroup.getString (ruleName 0) = some "*.*,stdlog".toList
        by decide).symm.trans hv)).symm
    decide
  exact ⟨hslots, hparse, writtenContext_rules Platform.typical _ _ _ _ hslots hparse⟩

/-! ## The slots of the tree -/

/-- Every context of the tree has its `PMLOG_CONTEXT_MAX_NUM_RULES` rule slots. -/
def ContextSlots (st : ConfState) : Prop :=
  ∀ c ∈ st.contexts, c.rules.length = H.pmlogContextMaxNumRules

theorem makeContextConf_contextSlots (pc : PmLogParseContext) {st : ConfState}
    (h : ContextSlots H st) : ContextSlots H (makeContextConf H pc st).2 := by
  have hnew : ∀ name, (PmLogContextConf.new H name).rules.length = H.pmlogContextMaxNumRules := by
    simp [PmLogContextConf.new]
  intro d hd
  rw [makeContextConf_snd] at hd
  rcases mem_storeContext hd with hd | rfl
  · rcases mem_lookupOrCreateContext H hd with hd | rfl
    · exact h d hd
    · exact hnew _
  · simp only [makeContextConfWrite, length_copyRules]
    rcases lookupOrCreateContext_fst_mem H pc.name st with hc | hc
    · exact h _ hc
    · rw [hc]; exact hnew _

/-- The tree keeps its slots through a load, so `writtenContext_rules` applies to every group. -/
theorem readConfFile_contextSlots (kf : Option KeyFile) {st : ConfState} (h : ContextSlots H st) :
    ContextSlots H (readConfFile H kf st).st :=
  readConfFile_induction H (ContextSlots H)
    (fun po st _ _ st' h heq => by
      have hc : st'.contextConfs = st.contextConfs := by
        have := makeOutputConf_contextConfs H po st
        rwa [heq] at this
      intro c hcm
      exact h c (by rw [ConfState.contexts, ← hc]; exact hcm))
    (fun _ _ _ _ h => makeContextConf_contextSlots H _ h) kf h

end Contexts

end PmLogDaemon
