import PmLogDaemon.Config.Session

/-!
# What a load installs, and what `SetDefaultConf` leaves for good

Two facts about `ReadConfFile` (`config.c:578-741`) over whole runs of `ConfOp`.

* **A successful load is complete.** `ReadConfFile` returns true only when no `MakeOutputConf`
  failed (a failure ends the loop with `retVal = false`, `config.c:666-669`), no rule, buffer
  size or flush level of a CONTEXT group was rejected, and the load did not stop at the second
  free of a stale `GError`. Once the tables hold an output and a
  context (`Primed`), `ParseOutputInit` and `ParseContextInit` accept every name, and a true load
  leaves an output for every OUTPUT group and a context for every CONTEXT group of the file, each
  under the group's name cut to its name buffer. Later groups never take an earlier one's entry
  away (`Config/Frame.lean`).
* **The NULL tree is absorbing.** `SetDefaultConf` calls `ClearConf`, which sets
  `g_contextConfs = NULL`; `g_tree_lookup` and `g_tree_insert` do nothing on NULL, and
  `CreateContext` sets `g_numContexts = g_tree_nnodes(NULL) = 0`. No call of `config.c` makes
  the tree again, so from the first `SetDefaultConf` on no load installs a context.

Results:
* `readConfFile_installs`: the completeness of a load that returns true, from primed tables.
* `confRun_tree_null`: every run with a `SetDefaultConf` ends with a NULL tree and
  `g_numContexts = 0`, whatever it loads after it.
-/

namespace PmLogDaemon

/-- An output of name `n` is in the table. -/
def HasOutput (st : ConfState) (n : List Char) : Prop := n ∈ st.outputConfs.map (·.outputName)

/-- A context of name `n` is in the tree. -/
def HasContext (st : ConfState) (n : List Char) : Prop := n ∈ st.contexts.map (·.contextName)

theorem KeepsOutputs.hasOutput {named : List Char → Prop} {st st' : ConfState}
    (h : KeepsOutputs named st.outputConfs st'.outputConfs) {n : List Char} (hn : HasOutput st n) :
    HasOutput st' n := by
  obtain ⟨o, ho, rfl⟩ := List.mem_map.mp hn
  obtain ⟨i, hi⟩ := List.mem_iff_getElem?.mp ho
  obtain ⟨o', hi', hk⟩ := h i o hi
  refine List.mem_map.mpr ⟨o', List.getElem?_mem hi', ?_⟩
  rcases hk with rfl | ⟨-, rfl⟩ <;> rfl

theorem KeepsContexts.hasContext {named : List Char → Prop} {st st' : ConfState}
    (h : KeepsContexts named st.contexts st'.contexts) {n : List Char} (hn : HasContext st n) :
    HasContext st' n := by
  obtain ⟨c, hc, rfl⟩ := List.mem_map.mp hn
  obtain ⟨c', hc', hname, -⟩ := h c hc
  exact List.mem_map.mpr ⟨c', hc', hname⟩

section Ops

variable (H : Platform)

/-! ## The NULL tree -/

/-- `g_contextConfs` is NULL and `g_numContexts = 0`, as `SetDefaultConf` leaves them. -/
def TreeNull (st : ConfState) : Prop := st.contextConfs = none ∧ st.numContexts = 0

theorem makeContextConf_treeNull (pc : PmLogParseContext) {st : ConfState} (h : TreeNull st) :
    TreeNull (makeContextConf H pc st).2 := by
  rcases st with ⟨_, _, _ | _⟩
  · exact ⟨rfl, rfl⟩
  · cases h.1

theorem readConfFile_treeNull (kf : Option KeyFile) {st : ConfState} (h : TreeNull st) :
    TreeNull (readConfFile H kf st).st :=
  readConfFile_induction H TreeNull
    (fun po st _ _ _ h heq => by
      have hc := makeOutputConf_contextConfs H po st
      have hn := makeOutputConf_numContexts H po st
      rw [heq] at hc hn
      exact ⟨hc.trans h.1, hn.trans h.2⟩)
    (fun _ _ _ _ h => makeContextConf_treeNull H _ h) kf h

theorem ConfOp.apply_treeNull : ∀ (op : ConfOp) {st : ConfState}, TreeNull st →
    TreeNull (op.apply H st)
  | .readConfFile kf, _, h => readConfFile_treeNull H kf h
  | .setDefaultConf, _, _ => ⟨rfl, rfl⟩

theorem confRun_append_cons (ops₁ ops₂ : List ConfOp) (op : ConfOp) (st : ConfState) :
    confRun H (ops₁ ++ op :: ops₂) st = confRun H ops₂ (op.apply H (confRun H ops₁ st)) := by
  rw [confRun, List.foldl_append, List.foldl_cons]
  rfl

theorem confRun_treeNull_of (ops : List ConfOp) {st : ConfState} (h : TreeNull st) :
    TreeNull (confRun H ops st) := by
  induction ops generalizing st with
  | nil => exact h
  | cons op ops ih => exact ih (ConfOp.apply_treeNull H op h)

/-- **After `SetDefaultConf`, no context ever again.** In any run of loads and resets with a
`SetDefaultConf` in it, the tables after the run have a NULL context tree and `g_numContexts = 0`,
whatever files the loads after the reset read and whatever they return. -/
theorem confRun_tree_null (ops₁ ops₂ : List ConfOp) (st : ConfState) :
    (confRun H (ops₁ ++ ConfOp.setDefaultConf :: ops₂) st).contextConfs = none ∧
      (confRun H (ops₁ ++ ConfOp.setDefaultConf :: ops₂) st).numContexts = 0 := by
  rw [confRun_append_cons]
  exact confRun_treeNull_of H ops₂ ⟨rfl, rfl⟩

/-! ## Primed tables -/

/-- The tables hold an output and a non-empty context tree, as after a load that defined `stdlog`
and `<global>`: `ParseOutputInit` and `ParseContextInit` then accept any name. -/
structure Primed (st : ConfState) : Prop where
  outputs_ne : st.outputConfs ≠ []
  numContexts_pos : 0 < st.numContexts
  tree_ne : st.contextConfs ≠ none

theorem makeOutputConf_primed (po : PmLogParseOutput) {st : ConfState} (h : Primed st) :
    Primed (makeOutputConf H po st).2.2 := by
  obtain ⟨o, os, hos⟩ := List.exists_cons_of_ne_nil h.outputs_ne
  obtain ⟨o', h0, -⟩ := @makeOutputConf_keepsOutputs H (fun _ => True) po trivial st 0 o
    (by rw [hos]; exact List.getElem?_cons_zero)
  refine ⟨fun hnil => ?_, ?_, ?_⟩
  · rw [hnil] at h0
    cases h0
  · rw [makeOutputConf_numContexts]
    exact h.numContexts_pos
  · rw [makeOutputConf_contextConfs]
    exact h.tree_ne

theorem lookupOrCreateContext_primed (name : List Char) {st : ConfState} (h : Primed st) :
    Primed (lookupOrCreateContext H name st).2 := by
  unfold lookupOrCreateContext
  split
  · exact h
  · rcases st with ⟨_, _, _ | t⟩
    · exact absurd rfl h.tree_ne
    · exact ⟨h.outputs_ne, List.length_pos_of_mem (mem_gTreeInsert_self t _),
        Option.some_ne_none _⟩

theorem makeContextConf_primed (pc : PmLogParseContext) {st : ConfState} (h : Primed st) :
    Primed (makeContextConf H pc st).2 := by
  have h' := lookupOrCreateContext_primed H pc.name h
  rw [makeContextConf_snd]
  exact ⟨h'.outputs_ne, h'.numContexts_pos, fun hnone => h'.tree_ne (Option.map_eq_none'.mp hnone)⟩

/-! ## Entries kept and entries made -/

theorem readGroups_hasOutput (gs : List Group) (retVal gerror : Bool) {st : ConfState}
    {n : List Char} (h : HasOutput st n) : HasOutput (readGroups H gs retVal gerror st).st n :=
  readGroups_induction H (HasOutput · n)
    (fun po st _ _ _ h heq => by
      have := (@makeOutputConf_keepsOutputs H (fun _ => True) po trivial st).hasOutput h
      rwa [heq] at this)
    (fun _ _ _ _ h => by simpa only [HasOutput, makeContextConf_outputConfs] using h)
    gs retVal gerror st h

theorem readGroups_hasContext (gs : List Group) (retVal gerror : Bool) {st : ConfState}
    {n : List Char} (h : HasContext st n) : HasContext (readGroups H gs retVal gerror st).st n :=
  readGroups_induction H (HasContext · n)
    (fun po st _ _ _ h heq => by
      have : HasContext (makeOutputConf H po st).2.2 n := by
        simpa only [HasContext, makeOutputConf_contexts] using h
      rwa [heq] at this)
    (fun _ _ _ st h => (@makeContextConf_keepsContexts H (fun _ => True) _ trivial st).hasContext h)
    gs retVal gerror st h

/-- A `MakeOutputConf` that returns true leaves an output of the parse object's name. -/
theorem makeOutputConf_hasOutput (po : PmLogParseOutput) (st : ConfState)
    (h : (makeOutputConf H po st).1 = true) : HasOutput (makeOutputConf H po st).2.2 po.name := by
  rcases makeOutputConf_cases H po st with ⟨hf, -⟩ | ⟨-, -, outs, hst, hcase⟩
  · rw [hf] at h
    cases h
  · rw [hst]
    show po.name ∈ outs.map (·.outputName)
    rcases hcase with ⟨i, hfind, rfl⟩ | ⟨-, -, rfl⟩
    · have hi := findOutputByName_lt hfind
      have hmem : po.name ∈ st.outputConfs.map (·.outputName) := List.mem_map.mpr
        ⟨_, List.getElem_mem hi, findOutputByName_outputName hfind (List.getElem?_eq_getElem hi)⟩
      split
      · rwa [@map_modify_of_comp _ _ (fun o : PmLogFile => { o with rotations := pmlogDefaultLogRotations })
          (fun o : PmLogFile => o.outputName) (fun _ => rfl)]
      · exact hmem
    · exact List.mem_map.mpr ⟨_, List.mem_append_right _ (List.mem_singleton_self _), rfl⟩

/-- On a tree that is not NULL, `MakeContextConf` leaves a context of the parse object's name. -/
theorem makeContextConf_hasContext (pc : PmLogParseContext) {st : ConfState}
    (h : st.contextConfs ≠ none) : HasContext (makeContextConf H pc st).2 pc.name := by
  rw [HasContext, makeContextConf_snd, storeContext_contexts, map_contextName_replace]
  unfold lookupOrCreateContext
  split
  · rename_i c hc
    refine List.mem_map.mpr ⟨c, lookupContext_mem hc, ?_⟩
    rcases st with ⟨_, _, _ | t⟩
    · cases hc
    · simpa using List.find?_some hc
  · rcases st with ⟨_, _, _ | t⟩
    · exact absurd rfl h
    · exact List.mem_map.mpr ⟨_, mem_gTreeInsert_self t _, rfl⟩

theorem readOutputKeys_name_of_primed (g : Group) {st : ConfState} (h : Primed st) :
    (readOutputKeys H g (outputGroupName g) st).2.name =
      mystrcpy [] (H.pmlogOutputMaxNameLength + 1) (outputGroupName g) := by
  rw [readOutputKeys_eq]
  show (parseOutputInit H st (outputGroupName g)).2.name = _
  rw [parseOutputInit, if_neg fun h' => h.outputs_ne (List.eq_nil_of_length_eq_zero h'.1)]

theorem readContextKeys_name_of_primed (g : Group) (gerror : Bool) {st : ConfState}
    (h : Primed st) :
    (readContextKeys H g (contextGroupName g) gerror st).2.name =
      mystrcpy [] (H.pmlogMaxContextNameLen + 1) (contextGroupName g) := by
  rw [readContextKeys_name]
  unfold parseContextInit
  split
  · exact absurd ‹_ ∧ _›.1 (Nat.pos_iff_ne_zero.mp h.numContexts_pos)
  · rfl

/-! ## The whole load -/

/-- The entry a group of the file should leave: an output of an OUTPUT group's name, a context of
a CONTEXT group's name, each cut to its name buffer. -/
def Installed (st : ConfState) (g : Group) : Prop :=
  (isOutputGroup g = true →
    HasOutput st (mystrcpy [] (H.pmlogOutputMaxNameLength + 1) (outputGroupName g))) ∧
  (isContextGroup g = true →
    HasContext st (mystrcpy [] (H.pmlogMaxContextNameLen + 1) (contextGroupName g)))

theorem Installed.readGroups {st : ConfState} {g : Group} (h : Installed H st g)
    (gs : List Group) (retVal gerror : Bool) :
    Installed H (readGroups H gs retVal gerror st).st g :=
  ⟨fun ho => readGroups_hasOutput H gs retVal gerror (h.1 ho),
    fun hc => readGroups_hasContext H gs retVal gerror (h.2 hc)⟩

theorem readGroups_installs : ∀ (gs : List Group) (retVal gerror : Bool) (st : ConfState),
    Primed st → (readGroups H gs retVal gerror st).outcome = .returns true →
    ∀ g ∈ gs, Installed H (readGroups H gs retVal gerror st).st g
  | [], _, _, _, _, _ => fun _ hg => absurd hg (List.not_mem_nil _)
  | g :: gs, retVal, gerror, st, hp, h => by
    intro g' hg'
    cases ho : isOutputGroup g
    · cases hc : isContextGroup g
      · rw [readGroups_other H ho hc] at h ⊢
        rcases List.mem_cons.mp hg' with rfl | hg'
        · exact ⟨fun h' => absurd (ho.symm.trans h') Bool.false_ne_true,
            fun h' => absurd (hc.symm.trans h') Bool.false_ne_true⟩
        · exact readGroups_installs gs _ _ _ hp h _ hg'
      · rw [readGroups_context H hc] at h ⊢
        by_cases hge : gerror = true
        · rw [if_pos hge] at h; cases h
        rw [if_neg hge] at h ⊢
        have hp' := makeContextConf_primed H (readContextKeys H g (contextGroupName g) false st).2 hp
        rcases List.mem_cons.mp hg' with rfl | hg'
        · refine Installed.readGroups H
            ⟨fun h' => absurd (ho.symm.trans h') Bool.false_ne_true, fun _ => ?_⟩ _ _ _
          rw [← readContextKeys_name_of_primed H _ false hp]
          exact makeContextConf_hasContext H _ hp.tree_ne
        · exact readGroups_installs gs _ _ _ hp' h _ hg'
    · rw [readGroups_output H ho] at h ⊢
      by_cases hm : (makeOutputConf H (readOutputKeys H g (outputGroupName g) st).2 st).1 = true
      · rw [if_pos hm] at h ⊢
        have hp' := makeOutputConf_primed H (readOutputKeys H g (outputGroupName g) st).2 hp
        rcases List.mem_cons.mp hg' with rfl | hg'
        · refine Installed.readGroups H ⟨fun _ => ?_, fun h' =>
            absurd (ho.symm.trans (isOutputGroup_of_isContextGroup h')) (by decide)⟩ _ _ _
          rw [← readOutputKeys_name_of_primed H _ hp]
          exact makeOutputConf_hasOutput H _ st hm
        · exact readGroups_installs gs _ _ _ hp' h _ hg'
      · rw [if_neg hm] at h
        simp at h

/-- **A load that returns true installs every group.** From tables that hold an output and a
context, a `ReadConfFile` that returns true leaves, for every OUTPUT group of the file, an
output of the group's name cut to `PMLOG_OUTPUT_MAX_NAME_LENGTH` characters, and for every
CONTEXT group a context of its name cut to `PMLOG_MAX_CONTEXT_NAME_LEN` characters. -/
theorem readConfFile_installs (kf : KeyFile) {st : ConfState} (hp : Primed st)
    (h : (readConfFile H (some kf) st).outcome = .returns true) (g : Group) (hg : g ∈ kf.groups) :
    (isOutputGroup g = true → mystrcpy [] (H.pmlogOutputMaxNameLength + 1) (outputGroupName g) ∈
        (readConfFile H (some kf) st).st.outputConfs.map (·.outputName)) ∧
      (isContextGroup g = true → mystrcpy [] (H.pmlogMaxContextNameLen + 1) (contextGroupName g) ∈
        (readConfFile H (some kf) st).st.contexts.map (·.contextName)) :=
  readGroups_installs H kf.groups true false st hp h g hg

end Ops

/-- The sample file loaded again over the tables its first load leaves. -/
theorem readConfFile_installs_reload :
    Primed (readConfFile Platform.typical (some sampleFile) ConfState.init).st ∧
    (readConfFile Platform.typical (some sampleFile)
      (readConfFile Platform.typical (some sampleFile) ConfState.init).st).outcome = .returns true ∧
    ∀ g ∈ sampleFile.groups,
      (isOutputGroup g = true → mystrcpy [] 33 (outputGroupName g) ∈
        (readConfFile Platform.typical (some sampleFile)
          (readConfFile Platform.typical (some sampleFile) ConfState.init).st).st.outputConfs.map
            (·.outputName)) ∧
      (isContextGroup g = true → mystrcpy [] 32 (contextGroupName g) ∈
        (readConfFile Platform.typical (some sampleFile)
          (readConfFile Platform.typical (some sampleFile) ConfState.init).st).st.contexts.map
            (·.contextName)) :=
  have hp : Primed (readConfFile Platform.typical (some sampleFile) ConfState.init).st :=
    ⟨by decide, by decide, by decide⟩
  have h : (readConfFile Platform.typical (some sampleFile)
      (readConfFile Platform.typical (some sampleFile) ConfState.init).st).outcome =
        .returns true := by decide
  ⟨hp, h, fun g hg => readConfFile_installs Platform.typical sampleFile hp h g hg⟩

end PmLogDaemon
