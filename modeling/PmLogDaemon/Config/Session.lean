import PmLogDaemon.Config.Frame
import PmLogDaemon.Config.WellFormed

/-!
# The tables over any sequence of loads

`config.c` writes its globals through two entry points, `ReadConfFile` (`config.c:578-741`) and
`SetDefaultConf` (`config.c:747-782`). `ConfOp` is a call of either, `confRun` a sequence of
calls, and `confExec` the same sequence stopped at the first load that frees its stale `GError`
a second time, after which C defines nothing (`Config/Read.lean`). `confExec` refines `confRun`:
where it gives tables, they are those of `confRun` (`confExec_confRun`).

* `TreeCounted st`: `g_numContexts` is the number of contexts in `g_contextConfs`, and no two of
  them share a name. `ParseContextInit` reads `g_numContexts == 0` as "no context yet", and
  `CreateContext` sets it from `g_tree_nnodes`; the invariant says the two never drift apart.
* `ConfInv st`: the tables are `WellFormed` and `TreeCounted`.

Results:
* `storeContext_treeCounted`, `createContext_treeCounted`: the two writes to the tree keep the
  count.
* `readConfFile_treeCounted`: a load keeps it, whether it returns true or false.
* `confExec_confInv`: every state that a sequence of calls whose loads all return reaches from
  the tables the caller prepares is well formed and counted.
-/

namespace PmLogDaemon

/-- `g_numContexts` counts the contexts of `g_contextConfs`, whose keys are distinct. -/
structure TreeCounted (st : ConfState) : Prop where
  /-- `g_numContexts == g_tree_nnodes(g_contextConfs)`, with no node in a NULL tree. -/
  numContexts_eq : st.numContexts = st.contexts.length
  /-- The keys of `g_contextConfs` are pairwise distinct. -/
  names_nodup : (st.contexts.map (·.contextName)).Nodup

/-- Replacing the contexts of `w`'s name by `w` keeps every name in place. -/
theorem map_contextName_replace (l : List PmLogContextConf) (w : PmLogContextConf) :
    (l.map fun d => if d.contextName = w.contextName then w else d).map (·.contextName) =
      l.map (·.contextName) := by
  rw [List.map_map]
  refine List.map_congr_left fun d _ => ?_
  by_cases h : d.contextName = w.contextName
  · simp only [Function.comp_apply, if_pos h]
    exact h.symm
  · simp only [Function.comp_apply, if_neg h]

/-- `g_tree_insert` keeps the keys distinct: a present key is replaced, a new one added. -/
theorem gTreeInsert_nodup (t : List PmLogContextConf) (c : PmLogContextConf)
    (h : (t.map (·.contextName)).Nodup) : ((gTreeInsert t c).map (·.contextName)).Nodup := by
  unfold gTreeInsert
  split
  · rwa [map_contextName_replace]
  · rename_i hany
    have hc : c.contextName ∉ t.map (·.contextName) := fun hm => hany <| by
      obtain ⟨d, hd, hdc⟩ := List.mem_map.mp hm
      exact List.any_eq_true.mpr ⟨d, hd, decide_eq_true hdc⟩
    rw [List.map_append, List.map_singleton]
    exact h.append (List.nodup_singleton _) (List.disjoint_singleton.mpr hc)

theorem storeContext_treeCounted {st : ConfState} (c : PmLogContextConf) (h : TreeCounted st) :
    TreeCounted (st.storeContext c) where
  numContexts_eq := by
    rw [storeContext_numContexts, storeContext_contexts, List.length_map]
    exact h.numContexts_eq
  names_nodup := by
    rw [storeContext_contexts, map_contextName_replace]
    exact h.names_nodup

section Ops

variable (H : Platform)

theorem createContext_treeCounted (name : List Char) {st : ConfState} (h : TreeCounted st) :
    TreeCounted (createContext H name st).2 := by
  rcases st with ⟨_, _, _ | t⟩
  · exact ⟨rfl, List.nodup_nil⟩
  · exact ⟨rfl, gTreeInsert_nodup t _ h.names_nodup⟩

theorem makeContextConf_treeCounted (pc : PmLogParseContext) {st : ConfState}
    (h : TreeCounted st) : TreeCounted (makeContextConf H pc st).2 := by
  rw [makeContextConf_snd]
  refine storeContext_treeCounted _ ?_
  unfold lookupOrCreateContext
  split
  · exact h
  · exact createContext_treeCounted H _ h

theorem makeOutputConf_treeCounted (po : PmLogParseOutput) {st : ConfState}
    (h : TreeCounted st) : TreeCounted (makeOutputConf H po st).2.2 := by
  refine ⟨?_, ?_⟩ <;> rw [makeOutputConf_contexts]
  · rw [makeOutputConf_numContexts]
    exact h.numContexts_eq
  · exact h.names_nodup

theorem readConfFile_treeCounted (kf : Option KeyFile) {st : ConfState} (h : TreeCounted st) :
    TreeCounted (readConfFile H kf st).st :=
  readConfFile_induction H TreeCounted
    (fun po _ _ _ _ h heq => by have := makeOutputConf_treeCounted H po h; rwa [heq] at this)
    (fun _ _ _ _ h => makeContextConf_treeCounted H _ h) kf h

/-! ## Sequences of calls -/

/-- A call of an entry point of `config.c` that writes the tables. -/
inductive ConfOp
  /-- `ReadConfFile(config_path)` on what `g_key_file_load_from_file` loaded; `none` when the
  load failed. -/
  | readConfFile (kf : Option KeyFile)
  /-- `SetDefaultConf()`. -/
  | setDefaultConf

/-- The tables after one call. -/
def ConfOp.apply : ConfOp → ConfState → ConfState
  | .readConfFile kf, st => (PmLogDaemon.readConfFile H kf st).st
  | .setDefaultConf, st => PmLogDaemon.setDefaultConf H st

/-- The tables after a sequence of calls. -/
def confRun (ops : List ConfOp) (st : ConfState) : ConfState :=
  ops.foldl (fun st op => op.apply H st) st

/-- The tables after one call that returns; `none` for a load that reaches the double free. -/
def ConfOp.exec : ConfOp → ConfState → Option ConfState
  | .readConfFile kf, st =>
    match PmLogDaemon.readConfFile H kf st with
    | ⟨.returns _, st⟩ => some st
    | ⟨.doubleFree, _⟩ => none
  | .setDefaultConf, st => some (PmLogDaemon.setDefaultConf H st)

/-- The tables after a sequence of calls, up to the first load that reaches the double free. -/
def confExec (ops : List ConfOp) (st : ConfState) : Option ConfState :=
  ops.foldlM (fun st op => op.exec H st) st

theorem ConfOp.exec_eq_some {op : ConfOp} {st st' : ConfState} (h : op.exec H st = some st') :
    op.apply H st = st' := by
  cases op with
  | readConfFile kf =>
    rcases hr : PmLogDaemon.readConfFile H kf st with ⟨_ | _, st₁⟩ <;>
      simp only [ConfOp.exec, hr] at h
    · rw [ConfOp.apply, hr]
      exact Option.some.inj h
    · cases h
  | setDefaultConf => exact Option.some.inj h

/-- **`confExec` refines `confRun`.** A sequence of calls whose loads all return leaves the
tables `confRun` gives. -/
theorem confExec_confRun (ops : List ConfOp) {st st' : ConfState}
    (h : confExec H ops st = some st') : confRun H ops st = st' := by
  induction ops generalizing st with
  | nil => exact Option.some.inj h
  | cons op ops ih =>
    rw [confExec, List.foldlM_cons] at h
    cases hop : op.exec H st with
    | none => simp [hop] at h
    | some st₁ =>
      rw [hop, Option.bind_eq_bind, Option.some_bind] at h
      rw [confRun, List.foldl_cons, ConfOp.exec_eq_some H hop]
      exact ih h

/-- The invariant of the tables over runs. -/
structure ConfInv (st : ConfState) : Prop where
  wellFormed : WellFormed H st
  counted : TreeCounted st

theorem confInv_init : ConfInv H ConfState.init := ⟨wellFormed_init H, rfl, List.nodup_nil⟩

/-- One call keeps the invariant. -/
theorem ConfInv.apply {st : ConfState} (h : ConfInv H st) :
    ∀ op : ConfOp, ConfInv H (op.apply H st)
  | .readConfFile kf => ⟨readConfFile_wellFormed H kf h.wellFormed,
      readConfFile_treeCounted H kf h.counted⟩
  | .setDefaultConf => ⟨wellFormed_setDefaultConf H st, rfl, List.nodup_nil⟩

theorem confRun_confInv_of (ops : List ConfOp) {st : ConfState} (h : ConfInv H st) :
    ConfInv H (confRun H ops st) := by
  induction ops generalizing st with
  | nil => exact h
  | cons op ops ih => exact ih (h.apply H op)

/-- **The tables stay consistent.** Every state that a sequence of `ReadConfFile` and
`SetDefaultConf` calls reaches from the tables the caller prepares, with no load reaching the
double free, is well formed and counted. -/
theorem confExec_confInv (ops : List ConfOp) {st : ConfState}
    (h : confExec H ops ConfState.init = some st) : ConfInv H st :=
  confExec_confRun H ops h ▸ confRun_confInv_of H ops (confInv_init H)

end Ops

/-- The sample file loaded, then `SetDefaultConf`. -/
theorem confExec_confInv_sample :
    confExec Platform.typical [.readConfFile (some sampleFile), .setDefaultConf] ConfState.init =
      some (setDefaultConf Platform.typical
        (readConfFile Platform.typical (some sampleFile) ConfState.init).st) ∧
    ConfInv Platform.typical (setDefaultConf Platform.typical
      (readConfFile Platform.typical (some sampleFile) ConfState.init).st) :=
  have h : confExec Platform.typical [.readConfFile (some sampleFile), .setDefaultConf]
      ConfState.init = some (setDefaultConf Platform.typical
        (readConfFile Platform.typical (some sampleFile) ConfState.init).st) := by decide
  ⟨h, confExec_confInv Platform.typical _ h⟩

end PmLogDaemon
