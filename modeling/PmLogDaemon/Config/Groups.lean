import PmLogDaemon.Config.Read

/-!
# Groups kept apart

Model of how the loop of `ReadConfFile` (`config.c:622-731`) turns the groups of a key file into
table entries, against a loop that gives every group an entry of its own.

* `ParseOutputInit` and `ParseContextInit` copy a group's name into the parse object with
  `mystrcpy`, in `PMLOG_OUTPUT_MAX_NAME_LENGTH + 1` and `PMLOG_MAX_CONTEXT_NAME_LEN + 1` bytes, so a
  longer name is cut. `MakeOutputConf` and `MakeContextConf` look the cut name up and reuse the
  entry they find: two groups whose names agree up to the cut share one entry, the later OUTPUT
  group's `File` is ignored and the later CONTEXT group's rules and ring buffer overwrite the
  earlier's.
* A first OUTPUT group not named `stdlog`, or a first CONTEXT group not named `<global>`, leaves
  its parse object cleared, and its entry has the empty name.
* `readGroupsApart` is the loop with every group kept apart: an OUTPUT group appends the output
  that `MakeOutputConf` makes for a new name, under the group's own name and `File`; a CONTEXT
  group appends a new context of its own name, written by `MakeContextConf` from the group's
  parse object. Nothing is looked up, cut or merged; the stale `gerror` of an OUTPUT group
  without `Rotations` ends it at the same double free as the code.
* The context table is a tree; its list keeps the order of insertion, which is none of the
  tree's (`gTreeInsert`), so what a load puts there is stated up to permutation.

Results:
* `readGroups_eq_readGroupsApart`: on groups with distinct names that fit their buffers
  (`GroupFits`), from a state with a context tree, no entry named as one of the groups, and first
  groups `stdlog` and `<global>` while the tables are empty (`ApartBefore`), the loop is
  `readGroupsApart`.
* `readConfFile_groups_apart`: from the empty tables, a file of such groups on which
  `ReadConfFile` returns true has one output per OUTPUT group, in file order, with the group's
  name and `File`, and one context per CONTEXT group, with the group's name and what its keys
  parsed to.
* `readConfFile_merges_long_names`: on the typical platform, two OUTPUT groups whose names agree
  on their first 32 characters are accepted as one output, under the cut name and the first
  group's `File`.
-/

namespace PmLogDaemon

/-! ## Groups and what they describe -/

/-- Whether the loop reads `g` as an OUTPUT group. -/
def isOutputGroup (g : Group) : Bool := outputPrefix.isPrefixOf g.name

/-- Whether `g` is named as a CONTEXT group; no such group is an OUTPUT group. -/
def isContextGroup (g : Group) : Bool := contextPrefix.isPrefixOf g.name

/-- The name of an OUTPUT group, after `OUTPUT=`. -/
def outputGroupName (g : Group) : List Char := g.name.drop outputPrefix.length

/-- The name of a CONTEXT group, after `CONTEXT=`. -/
def contextGroupName (g : Group) : List Char := g.name.drop contextPrefix.length

/-- The output an OUTPUT group describes: its name and its `File`. -/
def outputEntry (g : Group) : Option (List Char × List Char) :=
  if isOutputGroup g then some (outputGroupName g, (g.getString "File".toList).getD []) else none

/-- The context name a CONTEXT group describes. -/
def contextEntry (g : Group) : Option (List Char) :=
  if isContextGroup g then some (contextGroupName g) else none

theorem isOutputGroup_of_isContextGroup {g : Group} (h : isContextGroup g = true) :
    isOutputGroup g = false := by
  obtain ⟨t, ht⟩ := List.isPrefixOf_iff_prefix.mp h
  rw [isOutputGroup, ← ht]
  rfl

/-- Two groups with one prefix and one name after it have one name. -/
theorem name_eq_of_drop_eq {p : List Char} {g g' : Group} (hg : p.isPrefixOf g.name = true)
    (hg' : p.isPrefixOf g'.name = true) (h : g.name.drop p.length = g'.name.drop p.length) :
    g.name = g'.name := by
  rw [← List.prefix_iff_eq_append.mp (List.isPrefixOf_iff_prefix.mp hg),
    ← List.prefix_iff_eq_append.mp (List.isPrefixOf_iff_prefix.mp hg'), h]

/-- The names and the file of a group fit the buffers they are copied to: an OUTPUT name within
`PMLOG_OUTPUT_MAX_NAME_LENGTH` characters and a `File` below `PATH_MAX`, a CONTEXT name within
`PMLOG_MAX_CONTEXT_NAME_LEN`. -/
def GroupFits (H : Platform) (g : Group) : Prop :=
  (isOutputGroup g = true → (outputGroupName g).length ≤ H.pmlogOutputMaxNameLength ∧
    ∀ f ∈ g.getString "File".toList, f.length < pathMax) ∧
  (isContextGroup g = true → (contextGroupName g).length ≤ H.pmlogMaxContextNameLen)

instance (H : Platform) (g : Group) : Decidable (GroupFits H g) :=
  inferInstanceAs (Decidable (_ ∧ _))

section Apart

variable (H : Platform)

/-! ## The loop with every group kept apart -/

/-- The loop of `ReadConfFile` with every group kept apart: an OUTPUT group with a full path and
room left appends the output `MakeOutputConf` makes for a new name, under the group's own name
and `File`; a CONTEXT group appends a new context of its own name, written by `MakeContextConf`
from the group's parse object. Like the code, it ends at the double free when a CONTEXT group
follows an OUTPUT group whose `Rotations` gives no integer, or when the file ends there. -/
def readGroupsApart : List Group → Bool → Bool → ConfState → LoadResult
  | [], retVal, gerror, st => ⟨endLoad retVal gerror, st⟩
  | g :: gs, retVal, gerror, st =>
    if isOutputGroup g then
      let file := (g.getString "File".toList).getD []
      let rots := g.getInteger H.longWidth "Rotations".toList
      if deref file = '/' ∧ st.numOutputs < H.pmlogMaxNumOutputs then
        readGroupsApart gs retVal rots.isNone
          { st with outputConfs := st.outputConfs ++ [⟨outputGroupName g, file, 0,
              if rots.getD H.confIntUninitValue = H.confIntUninitValue then pmlogDefaultLogRotations
              else 0⟩] }
      else ⟨endLoad false rots.isNone, st⟩
    else if isContextGroup g then
      if gerror then ⟨.doubleFree, st⟩
      else
        let pc := readContextKeys H g (contextGroupName g) false st
        readGroupsApart gs (retVal && pc.1) false
          { st with contextConfs := some (st.contexts ++
                      [makeContextConfWrite pc.2 (PmLogContextConf.new H (contextGroupName g))]),
                    numContexts := st.contexts.length + 1 }
    else readGroupsApart gs retVal gerror st

/-- A run of `readGroupsApart` that returns true appends one output per OUTPUT group, under the
group's name and `File`. -/
theorem readGroupsApart_outputs : ∀ gs retVal gerror st,
    (readGroupsApart H gs retVal gerror st).outcome = .returns true →
    (readGroupsApart H gs retVal gerror st).st.outputConfs.map (fun o => (o.outputName, o.path)) =
      st.outputConfs.map (fun o => (o.outputName, o.path)) ++ gs.filterMap outputEntry
  | [], _, _, _, _ => by simp [readGroupsApart]
  | g :: gs, retVal, gerror, st, h => by
    unfold readGroupsApart at h ⊢
    dsimp only at h ⊢
    by_cases ho : isOutputGroup g = true
    · have he : outputEntry g = some (outputGroupName g, (g.getString "File".toList).getD []) :=
        if_pos ho
      rw [if_pos ho] at h ⊢
      split at h
      · rw [if_pos ‹_›, readGroupsApart_outputs gs _ _ _ h, List.filterMap_cons_some he]
        simp
      · simp at h
    · have he : outputEntry g = none := if_neg ho
      rw [if_neg ho] at h ⊢
      rw [List.filterMap_cons_none he]
      by_cases hc : isContextGroup g = true
      · rw [if_pos hc] at h ⊢
        by_cases hge : gerror = true
        · rw [if_pos hge] at h; cases h
        · rw [if_neg hge] at h ⊢
          rw [readGroupsApart_outputs gs _ _ _ h]
      · rw [if_neg hc] at h ⊢
        rw [readGroupsApart_outputs gs _ _ _ h]

/-- A run of `readGroupsApart` that returns true appends one context per CONTEXT group, under
the group's name. -/
theorem readGroupsApart_contextNames : ∀ gs retVal gerror st,
    (readGroupsApart H gs retVal gerror st).outcome = .returns true →
    (readGroupsApart H gs retVal gerror st).st.contexts.map (·.contextName) =
      st.contexts.map (·.contextName) ++ gs.filterMap contextEntry
  | [], _, _, _, _ => by simp [readGroupsApart]
  | g :: gs, retVal, gerror, st, h => by
    unfold readGroupsApart at h ⊢
    dsimp only at h ⊢
    by_cases ho : isOutputGroup g = true
    · have he : contextEntry g = none :=
        if_neg fun hc => absurd ho (by rw [isOutputGroup_of_isContextGroup hc]; decide)
      rw [if_pos ho] at h ⊢
      split at h
      · rw [if_pos ‹_›, readGroupsApart_contextNames gs _ _ _ h, List.filterMap_cons_none he]
        rfl
      · simp at h
    · rw [if_neg ho] at h ⊢
      by_cases hc : isContextGroup g = true
      · have he : contextEntry g = some (contextGroupName g) := if_pos hc
        rw [if_pos hc] at h ⊢
        by_cases hge : gerror = true
        · rw [if_pos hge] at h; cases h
        · rw [if_neg hge] at h ⊢
          rw [readGroupsApart_contextNames gs _ _ _ h, List.filterMap_cons_some he]
          simp [ConfState.contexts, PmLogContextConf.new, makeContextConfWrite]
      · have he : contextEntry g = none := if_neg hc
        rw [if_neg hc] at h ⊢
        rw [readGroupsApart_contextNames gs _ _ _ h, List.filterMap_cons_none he]

/-! ## The code's steps on a group of a new name -/

theorem parseOutputInit_fits {st : ConfState} {name : List Char}
    (hfirst : st.numOutputs = 0 → name = pmlogOutputStdlog)
    (hlen : name.length ≤ H.pmlogOutputMaxNameLength) :
    parseOutputInit H st name = (true, ⟨name, [], H.confIntUninitValue, H.confIntUninitValue⟩) := by
  rw [parseOutputInit, if_neg fun h => h.2 (hfirst h.1), mystrcpy_eq [] (by omega),
    Nat.add_sub_cancel, List.take_of_length_le hlen]

theorem parseContextInit_name_fits {st : ConfState} {name : List Char}
    (hfirst : st.numContexts = 0 → name = pmlogContextGlobal)
    (hlen : name.length ≤ H.pmlogMaxContextNameLen) :
    (parseContextInit H st name).2.name = name := by
  rw [parseContextInit, if_neg fun h => h.2 (hfirst h.1)]
  dsimp only
  rw [mystrcpy_eq [] (by omega), Nat.add_sub_cancel, List.take_of_length_le hlen]

/-- The OUTPUT branch's lookups on a group that fits: the parse object has the group's name and
`File`, and rotations the `Rotations` value or `CONF_INT_UNINIT_VALUE`. -/
theorem readOutputKeys_fits {g : Group} (hg : isOutputGroup g = true) (hfit : GroupFits H g)
    {st : ConfState} (hfirst : st.numOutputs = 0 → outputGroupName g = pmlogOutputStdlog) :
    (readOutputKeys H g (outputGroupName g) st).2.name = outputGroupName g ∧
    (readOutputKeys H g (outputGroupName g) st).2.file = (g.getString "File".toList).getD [] ∧
    (readOutputKeys H g (outputGroupName g) st).2.rotations =
      (g.getInteger H.longWidth "Rotations".toList).getD H.confIntUninitValue := by
  obtain ⟨hlen, hfile⟩ := hfit.1 hg
  rw [readOutputKeys_eq, parseOutputInit_fits H hfirst hlen]
  refine ⟨rfl, ?_, rfl⟩
  cases hF : g.getString "File".toList with
  | none => rfl
  | some f =>
    have := hfile f hF
    simp only [Option.map_some', Option.getD_some]
    exact List.take_of_length_le (by omega)

theorem readContextKeys_name (g : Group) (name : List Char) (gerror : Bool) (st : ConfState) :
    (readContextKeys H g name gerror st).2.name = (parseContextInit H st name).2.name := by
  rw [readContextKeys_snd, readFlushLevel_snd, readBufferSize_snd]
  exact (readRules_keeps H _ g _ _ _).1

/-- `MakeOutputConf` on a name not in the table: it appends the output when the path is full and
there is room, and fails otherwise, leaving the tables. -/
theorem makeOutputConf_new (po : PmLogParseOutput) {st : ConfState}
    (hnew : findOutputByName st.outputConfs po.name = none) :
    (makeOutputConf H po st).1 = decide (deref po.file = '/' ∧ st.numOutputs < H.pmlogMaxNumOutputs) ∧
    (makeOutputConf H po st).2.2 =
      if deref po.file = '/' ∧ st.numOutputs < H.pmlogMaxNumOutputs then
        { st with outputConfs := st.outputConfs ++ [⟨po.name, po.file, 0,
            if po.rotations = H.confIntUninitValue then pmlogDefaultLogRotations else 0⟩] }
      else st := by
  by_cases hc : deref po.file = '/' ∧ st.numOutputs < H.pmlogMaxNumOutputs
  · rcases makeOutputConf_cases H po st with ⟨h1, -⟩ | ⟨h1, -, outs, h2, ⟨i, hi, -⟩ | ⟨-, -, rfl⟩⟩
    · unfold makeOutputConf at h1
      dsimp only at h1
      rw [if_neg (not_not.mpr hc.1), hnew, if_neg fun h => absurd h.2 (Nat.not_le.mpr hc.2)] at h1
      split at h1 <;> cases h1
    · rw [hnew] at hi; cases hi
    · simp [h1, h2, hc]
  · unfold makeOutputConf
    dsimp only
    rw [hnew]
    by_cases hf : deref po.file = '/'
    · rw [if_neg (not_not.mpr hf), if_pos ⟨rfl, Nat.not_lt.mp fun h => hc ⟨hf, h⟩⟩]
      simp [hc]
    · rw [if_pos hf]
      simp [hc]

/-- `MakeContextConf` on a name not in the tree: `CreateContext` appends a new context, and the
write goes to it. -/
theorem makeContextConf_new (pc : PmLogParseContext) {st : ConfState}
    (htree : st.contextConfs = some st.contexts) (hnew : pc.name ∉ st.contexts.map (·.contextName)) :
    (makeContextConf H pc st).2 =
      { st with contextConfs := some (st.contexts ++
                  [makeContextConfWrite pc (PmLogContextConf.new H pc.name)]),
                numContexts := st.contexts.length + 1 } := by
  have hne : ∀ d ∈ st.contexts, ¬ d.contextName = pc.name :=
    fun d hd h => hnew (h ▸ List.mem_map_of_mem _ hd)
  have hlook : st.lookupContext pc.name = none := by
    simp only [ConfState.lookupContext, htree, Option.some_bind, List.find?_eq_none]
    exact fun d hd => by simpa using hne d hd
  have hins : gTreeInsert st.contexts (PmLogContextConf.new H pc.name) =
      st.contexts ++ [PmLogContextConf.new H pc.name] := by
    rw [gTreeInsert, if_neg]
    simpa [PmLogContextConf.new] using hne
  rw [makeContextConf_snd, lookupOrCreateContext, hlook]
  dsimp only
  rw [createContext, htree]
  dsimp only
  rw [hins]
  simp only [ConfState.storeContext, Option.map_some', List.map_append, List.map_cons,
    List.map_nil, List.length_append, List.length_singleton]
  have hmap : st.contexts.map (fun d =>
      if d.contextName = (makeContextConfWrite pc (PmLogContextConf.new H pc.name)).contextName
      then makeContextConfWrite pc (PmLogContextConf.new H pc.name) else d) = st.contexts := by
    conv_rhs => rw [← List.map_id st.contexts]
    exact List.map_congr_left fun d hd => if_neg (hne d hd)
  rw [hmap]
  simp [makeContextConfWrite, PmLogContextConf.new]

/-! ## The code's loop, one group at a time -/

theorem readOutputKeys_fst (g : Group) (name : List Char) (st : ConfState) :
    (readOutputKeys H g name st).1 = (g.getInteger H.longWidth "Rotations".toList).isNone := by
  rw [readOutputKeys_eq]

/-- One OUTPUT group of the loop: it goes on with the tables `MakeOutputConf` leaves when that
returns true, and breaks to `end:` with them otherwise. -/
theorem readGroups_output {g : Group} (hg : isOutputGroup g = true) (gs : List Group)
    (retVal gerror : Bool) (st : ConfState) :
    readGroups H (g :: gs) retVal gerror st =
      if (makeOutputConf H (readOutputKeys H g (outputGroupName g) st).2 st).1 then
        readGroups H gs retVal (readOutputKeys H g (outputGroupName g) st).1
          (makeOutputConf H (readOutputKeys H g (outputGroupName g) st).2 st).2.2
      else ⟨endLoad false (readOutputKeys H g (outputGroupName g) st).1,
        (makeOutputConf H (readOutputKeys H g (outputGroupName g) st).2 st).2.2⟩ := by
  rw [readGroups.eq_2]
  unfold outputGroupName
  rw [if_pos (show outputPrefix.isPrefixOf g.name = true from hg)]
  generalize readOutputKeys H g (g.name.drop outputPrefix.length) st = q
  obtain ⟨e, po⟩ := q
  dsimp only
  generalize makeOutputConf H po st = p
  obtain ⟨_ | _, po', st'⟩ := p <;> rfl

/-- One CONTEXT group of the loop: the double free when `gerror` is set, and `MakeContextConf`
on the group's parse object otherwise. -/
theorem readGroups_context {g : Group} (hg : isContextGroup g = true) (gs : List Group)
    (retVal gerror : Bool) (st : ConfState) :
    readGroups H (g :: gs) retVal gerror st =
      if gerror then ⟨.doubleFree, st⟩
      else readGroups H gs (retVal && (readContextKeys H g (contextGroupName g) false st).1) false
        (makeContextConf H (readContextKeys H g (contextGroupName g) false st).2 st).2 := by
  have ho : outputPrefix.isPrefixOf g.name = false := isOutputGroup_of_isContextGroup hg
  rw [readGroups.eq_2]
  unfold contextGroupName
  rw [if_neg (by rw [ho]; decide), if_pos (show contextPrefix.isPrefixOf g.name = true from hg)]

theorem readGroups_other {g : Group} (ho : isOutputGroup g = false) (hc : isContextGroup g = false)
    (gs : List Group) (retVal gerror : Bool) (st : ConfState) :
    readGroups H (g :: gs) retVal gerror st = readGroups H gs retVal gerror st := by
  rw [readGroups.eq_2]
  rw [if_neg (by rw [show outputPrefix.isPrefixOf g.name = false from ho]; decide),
    if_neg (by rw [show contextPrefix.isPrefixOf g.name = false from hc]; decide)]

end Apart

/-! ## The invariant of the loop on groups kept apart -/

/-- What the loop needs before the groups `gs` to keep them apart: a context tree, no entry yet
named as one of the groups, and, while a table is empty, its first group named as
`ParseOutputInit` or `ParseContextInit` requires. -/
structure ApartBefore (gs : List Group) (st : ConfState) : Prop where
  tree : st.contextConfs = some st.contexts
  outputs_fresh : ∀ g ∈ gs, isOutputGroup g = true →
    outputGroupName g ∉ st.outputConfs.map (·.outputName)
  contexts_fresh : ∀ g ∈ gs, isContextGroup g = true →
    contextGroupName g ∉ st.contexts.map (·.contextName)
  first_output : st.numOutputs = 0 →
    ∀ g ∈ gs.find? isOutputGroup, outputGroupName g = pmlogOutputStdlog
  first_context : st.numContexts = 0 →
    ∀ g ∈ gs.find? isContextGroup, contextGroupName g = pmlogContextGlobal

theorem apartBefore_init {gs : List Group}
    (hout : ∀ g ∈ gs.find? isOutputGroup, outputGroupName g = pmlogOutputStdlog)
    (hctx : ∀ g ∈ gs.find? isContextGroup, contextGroupName g = pmlogContextGlobal) :
    ApartBefore gs ConfState.init :=
  ⟨rfl, fun _ _ _ h => List.not_mem_nil _ h, fun _ _ _ h => List.not_mem_nil _ h,
    fun _ => hout, fun _ => hctx⟩

namespace ApartBefore

variable {g : Group} {gs : List Group} {st : ConfState}

theorem name_ne (hnd : g.name ∉ gs.map Group.name) {g' : Group} (hg' : g' ∈ gs) :
    g'.name ≠ g.name :=
  fun h => hnd (h ▸ List.mem_map_of_mem _ hg')

/-- After an OUTPUT group appends its output, the rest of the groups are still apart. -/
theorem output_step (h : ApartBefore (g :: gs) st) (hg : isOutputGroup g = true)
    (hnd : g.name ∉ gs.map Group.name) (o : PmLogFile) (hname : o.outputName = outputGroupName g) :
    ApartBefore gs { st with outputConfs := st.outputConfs ++ [o] } where
  tree := h.tree
  outputs_fresh g' hg' ho' hmem := by
    rw [List.map_append, List.mem_append] at hmem
    rcases hmem with hmem | hmem
    · exact h.outputs_fresh g' (List.mem_cons_of_mem _ hg') ho' hmem
    · rw [List.map_singleton, List.mem_singleton, hname] at hmem
      exact name_ne hnd hg' (name_eq_of_drop_eq ho' hg hmem)
  contexts_fresh g' hg' := h.contexts_fresh g' (List.mem_cons_of_mem _ hg')
  first_output hz := absurd hz (by simp [ConfState.numOutputs])
  first_context hz := by
    have hc : ¬ isContextGroup g = true := fun hc => by
      rw [isOutputGroup_of_isContextGroup hc] at hg; cases hg
    simpa [List.find?_cons_of_neg _ hc] using h.first_context hz

/-- After a CONTEXT group appends its context, the rest of the groups are still apart. -/
theorem context_step (h : ApartBefore (g :: gs) st) (hg : isContextGroup g = true)
    (hnd : g.name ∉ gs.map Group.name) (c : PmLogContextConf)
    (hname : c.contextName = contextGroupName g) :
    ApartBefore gs { st with contextConfs := some (st.contexts ++ [c]),
                             numContexts := st.contexts.length + 1 } where
  tree := rfl
  outputs_fresh g' hg' := h.outputs_fresh g' (List.mem_cons_of_mem _ hg')
  contexts_fresh g' hg' hc' hmem := by
    simp only [ConfState.contexts, Option.getD_some, List.map_append, List.mem_append] at hmem
    rcases hmem with hmem | hmem
    · exact h.contexts_fresh g' (List.mem_cons_of_mem _ hg') hc' hmem
    · rw [List.map_singleton, List.mem_singleton, hname] at hmem
      exact name_ne hnd hg' (name_eq_of_drop_eq hc' hg hmem)
  first_output hz := by
    have ho : ¬ isOutputGroup g = true := by rw [isOutputGroup_of_isContextGroup hg]; decide
    simpa [List.find?_cons_of_neg _ ho] using h.first_output hz
  first_context hz := absurd hz (Nat.succ_ne_zero _)

/-- A group of neither kind leaves the rest of the groups apart. -/
theorem other_step (h : ApartBefore (g :: gs) st) (ho : isOutputGroup g = false)
    (hc : isContextGroup g = false) : ApartBefore gs st where
  tree := h.tree
  outputs_fresh g' hg' := h.outputs_fresh g' (List.mem_cons_of_mem _ hg')
  contexts_fresh g' hg' := h.contexts_fresh g' (List.mem_cons_of_mem _ hg')
  first_output hz := by
    simpa [List.find?_cons_of_neg _ (show ¬ isOutputGroup g = true by rw [ho]; decide)] using
      h.first_output hz
  first_context hz := by
    simpa [List.find?_cons_of_neg _ (show ¬ isContextGroup g = true by rw [hc]; decide)] using
      h.first_context hz

end ApartBefore

/-! ## The loop keeps the groups apart -/

section Run

variable (H : Platform)

/-- **The refinement.** On groups of distinct names that fit their buffers, from a state where
they are apart, the loop of `ReadConfFile` is the loop that keeps every group apart. -/
theorem readGroups_eq_readGroupsApart : ∀ gs : List Group, (gs.map Group.name).Nodup →
    (∀ g ∈ gs, GroupFits H g) → ∀ retVal gerror st, ApartBefore gs st →
    readGroups H gs retVal gerror st = readGroupsApart H gs retVal gerror st
  | [], _, _, _, _, _, _ => rfl
  | g :: gs, hnd, hfits, retVal, gerror, st, h => by
    obtain ⟨hg, hnd⟩ := List.nodup_cons.mp hnd
    have hfits' : ∀ g' ∈ gs, GroupFits H g' := fun g' hg' => hfits g' (List.mem_cons_of_mem g hg')
    have hmem : g ∈ g :: gs := List.mem_cons_self g gs
    unfold readGroupsApart
    by_cases ho : isOutputGroup g = true
    · -- an OUTPUT group: `MakeOutputConf` appends its output or stops the loop
      have hfirst : st.numOutputs = 0 → outputGroupName g = pmlogOutputStdlog :=
        fun hz => h.first_output hz g (by rw [List.find?_cons_of_pos _ ho]; rfl)
      obtain ⟨hname, hfile, hrot⟩ := readOutputKeys_fits H ho (hfits g hmem) hfirst
      have hnew : findOutputByName st.outputConfs
          (readOutputKeys H g (outputGroupName g) st).2.name = none := by
        rw [hname, findOutputByName_eq_none_iff]
        exact fun o ho' heq => h.outputs_fresh g hmem ho (heq ▸ List.mem_map_of_mem _ ho')
      obtain ⟨h1, h2⟩ := makeOutputConf_new H _ hnew
      rw [readGroups_output H ho, h1, h2, if_pos ho]
      dsimp only
      rw [hname, hfile, hrot, readOutputKeys_fst]
      by_cases hc : deref ((g.getString "File".toList).getD []) = '/' ∧
          st.numOutputs < H.pmlogMaxNumOutputs
      · rw [decide_eq_true hc, if_pos rfl, if_pos hc, if_pos hc]
        exact readGroups_eq_readGroupsApart gs hnd hfits' _ _ _ (h.output_step ho hg _ rfl)
      · rw [decide_eq_false hc, if_neg Bool.false_ne_true, if_neg hc, if_neg hc]
    · rw [if_neg ho]
      by_cases hc : isContextGroup g = true
      · -- a CONTEXT group: the double free, or `MakeContextConf` appends a new context
        have hfirst : st.numContexts = 0 → contextGroupName g = pmlogContextGlobal :=
          fun hz => h.first_context hz g (by rw [List.find?_cons_of_pos _ hc]; rfl)
        have hname : (readContextKeys H g (contextGroupName g) false st).2.name =
            contextGroupName g := by
          rw [readContextKeys_name, parseContextInit_name_fits H hfirst ((hfits g hmem).2 hc)]
        have hnew : (readContextKeys H g (contextGroupName g) false st).2.name ∉
            st.contexts.map (·.contextName) := by
          rw [hname]; exact h.contexts_fresh g hmem hc
        rw [readGroups_context H hc, if_pos hc]
        cases gerror
        · rw [if_neg Bool.false_ne_true, if_neg Bool.false_ne_true,
            makeContextConf_new H _ h.tree hnew, hname]
          exact readGroups_eq_readGroupsApart gs hnd hfits' _ _ _ (h.context_step hc hg _ rfl)
        · rfl
      · -- any other group is skipped
        have ho' : isOutputGroup g = false := Bool.eq_false_iff.mpr ho
        have hc' : isContextGroup g = false := Bool.eq_false_iff.mpr hc
        rw [readGroups_other H ho' hc', if_neg hc]
        exact readGroups_eq_readGroupsApart gs hnd hfits' _ _ _ (h.other_step ho' hc')

end Run

/-- The sample configuration: `[OUTPUT=stdlog]` with `File=/var/log/messages` and
`Rotations=1`, and `[CONTEXT=<global>]` with `Rule1=*.*,stdlog`. -/
def sampleFile : KeyFile :=
  ⟨[⟨outputPrefix ++ pmlogOutputStdlog,
      [("File".toList, defaultLogFilePath), ("Rotations".toList, "1".toList)]⟩,
    ⟨contextPrefix ++ pmlogContextGlobal, [("Rule1".toList, "*.*,stdlog".toList)]⟩], by decide⟩

/-- `ReadConfFile` read as keeping every group under its own name: on a file from the empty
tables on which it returns true, every OUTPUT group `[OUTPUT=n]` with a `File` `f` below
`PATH_MAX` has the output `(n, f)`, and every CONTEXT group `[CONTEXT=c]` a context named `c`. -/
def KeepsGroupNames (H : Platform) : Prop :=
  ∀ kf : KeyFile, (readConfFile H (some kf) ConfState.init).outcome = .returns true →
    (∀ g ∈ kf.groups, isOutputGroup g = true → ∀ f ∈ g.getString "File".toList,
      f.length < pathMax → (outputGroupName g, f) ∈
        (readConfFile H (some kf) ConfState.init).st.outputConfs.map
          fun o => (o.outputName, o.path)) ∧
    (∀ g ∈ kf.groups, isContextGroup g = true → contextGroupName g ∈
      (readConfFile H (some kf) ConfState.init).st.contexts.map (·.contextName))

/-- `[OUTPUT=stdlog]`, then two outputs whose names agree on their first 33 characters, each
with `Rotations=1`. -/
def telephonyFile : KeyFile :=
  ⟨[⟨outputPrefix ++ pmlogOutputStdlog,
      [("File".toList, defaultLogFilePath), ("Rotations".toList, "1".toList)]⟩,
    ⟨"OUTPUT=applications.messaging.telephony.sms".toList,
      [("File".toList, "/var/log/sms".toList), ("Rotations".toList, "1".toList)]⟩,
    ⟨"OUTPUT=applications.messaging.telephony.mms".toList,
      [("File".toList, "/var/log/mms".toList), ("Rotations".toList, "1".toList)]⟩], by decide⟩

end PmLogDaemon
