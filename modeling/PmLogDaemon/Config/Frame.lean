import PmLogDaemon.Config.Groups

/-!
# What a load can touch

`ReadConfFile` (`config.c:578-741`) writes the tables only through `MakeOutputConf` and
`MakeContextConf`, and each of them writes at most the entries named by its parse object. That
name is what `ParseOutputInit` or `ParseContextInit` stored: the group's name after its prefix,
cut by `mystrcpy` to the name buffer, or the empty name of an object they left cleared.

* `NamedBy p size gs n`: `n` is such a name for a group of `gs` with prefix `p` and a name
  buffer of `size` bytes.
* `KeptOutput named o o'`: `o'` is `o`, or `o` with its rotations set to
  `PMLOG_DEFAULT_LOG_ROTATIONS` when `named` holds of its name (the only write `MakeOutputConf`
  makes to an output it finds).
* `KeepsOutputs named old new`: every output of `old` is at its index in `new`, kept.
* `KeepsContexts named old new`: every context of `old` has one of its name in `new`, the same
  context unless `named` holds of the name.

Results:
* `makeOutputConf_keepsOutputs`, `makeContextConf_keepsContexts`: one call of each.
* `readGroups_induction_groups`: the run lemma of the loop, with the group each call is made for.
* `readConfFile_keepsOutputs`: a load moves, renames, re-paths and resizes no output it finds;
  it can change an output only if an OUTPUT group names it, and then only its rotations, to
  the default.
* `readConfFile_keepsContexts`: a load drops no context, and changes only those a CONTEXT group
  names.

Both hold of the tables when the load returns, whether true or false, and when it reaches the
double free.
-/

namespace PmLogDaemon

/-- `n` is the name a parse object gets for a group of `gs` with prefix `p` through a name
buffer of `size` bytes, or the empty name of a cleared parse object. -/
def NamedBy (p : List Char) (size : Nat) (gs : List Group) (n : List Char) : Prop :=
  n = [] ∨ ∃ g ∈ gs, p.isPrefixOf g.name = true ∧ n = mystrcpy [] size (g.name.drop p.length)

/-- The output `o'` at the index of `o` after a load. -/
def KeptOutput (named : List Char → Prop) (o o' : PmLogFile) : Prop :=
  o' = o ∨ named o.outputName ∧ o' = { o with rotations := pmlogDefaultLogRotations }

/-- Every output of `old` is kept at its index of `new`. -/
def KeepsOutputs (named : List Char → Prop) (old new : List PmLogFile) : Prop :=
  ∀ (i : Nat) (o : PmLogFile), old[i]? = some o → ∃ o', new[i]? = some o' ∧ KeptOutput named o o'

/-- Every context of `old` has a context of its name in `new`, the same unless `named`. -/
def KeepsContexts (named : List Char → Prop) (old new : List PmLogContextConf) : Prop :=
  ∀ c ∈ old, ∃ c' ∈ new, c'.contextName = c.contextName ∧ (c' = c ∨ named c.contextName)

section Keeps

variable {named : List Char → Prop}

theorem KeptOutput.trans {o o' o'' : PmLogFile} (h : KeptOutput named o o')
    (h' : KeptOutput named o' o'') : KeptOutput named o o'' := by
  rcases h with rfl | ⟨hn, rfl⟩
  · exact h'
  · rcases h' with rfl | ⟨-, rfl⟩ <;> exact .inr ⟨hn, rfl⟩

theorem KeepsOutputs.refl (l : List PmLogFile) : KeepsOutputs named l l :=
  fun _ o h => ⟨o, h, .inl rfl⟩

theorem KeepsOutputs.trans {l l' l'' : List PmLogFile} (h : KeepsOutputs named l l')
    (h' : KeepsOutputs named l' l'') : KeepsOutputs named l l'' := fun i o hi => by
  obtain ⟨o', hi', hk⟩ := h i o hi
  obtain ⟨o'', hi'', hk'⟩ := h' i o' hi'
  exact ⟨o'', hi'', hk.trans hk'⟩

theorem KeepsOutputs.append (l l' : List PmLogFile) : KeepsOutputs named l (l ++ l') :=
  fun _ o h => ⟨o, by rw [List.getElem?_append_left (List.getElem?_eq_some_iff.mp h).1, h],
    .inl rfl⟩

/-- Setting the rotations of the output at `i` to the default keeps the table when `named`
holds of that output's name. -/
theorem KeepsOutputs.modify {l : List PmLogFile} {i : Nat}
    (hi : ∀ o, l[i]? = some o → named o.outputName) :
    KeepsOutputs named l
      (l.modify (fun o => { o with rotations := pmlogDefaultLogRotations }) i) := by
  intro j o hj
  rw [List.getElem?_modify, hj]
  by_cases h : i = j
  · subst h
    exact ⟨_, rfl, .inr ⟨hi o hj, if_pos rfl⟩⟩
  · exact ⟨o, by rw [Option.map_eq_map, Option.map_some', if_neg h], .inl rfl⟩

theorem KeepsContexts.refl (l : List PmLogContextConf) : KeepsContexts named l l :=
  fun c hc => ⟨c, hc, rfl, .inl rfl⟩

theorem KeepsContexts.trans {l l' l'' : List PmLogContextConf} (h : KeepsContexts named l l')
    (h' : KeepsContexts named l' l'') : KeepsContexts named l l'' := fun c hc => by
  obtain ⟨c', hc', hn', hk'⟩ := h c hc
  obtain ⟨c'', hc'', hn'', hk''⟩ := h' c' hc'
  refine ⟨c'', hc'', hn''.trans hn', ?_⟩
  rcases hk' with rfl | hk'
  · exact hk''
  · exact .inr hk'

/-- Replacing the contexts of `w`'s name by `w`, the write of `g_tree_insert` on a present key
and of a store through `contextConfP`. -/
theorem KeepsContexts.replace (l : List PmLogContextConf) {w : PmLogContextConf}
    (hw : named w.contextName) :
    KeepsContexts named l (l.map fun d => if d.contextName = w.contextName then w else d) := by
  intro c hc
  refine ⟨_, List.mem_map_of_mem _ hc, ?_⟩
  by_cases h : c.contextName = w.contextName
  · rw [if_pos h]
    exact ⟨h.symm, .inr (h ▸ hw)⟩
  · rw [if_neg h]
    exact ⟨rfl, .inl rfl⟩

theorem gTreeInsert_keepsContexts (t : List PmLogContextConf) {c : PmLogContextConf}
    (hc : named c.contextName) : KeepsContexts named t (gTreeInsert t c) := by
  unfold gTreeInsert
  split
  · exact .replace t hc
  · exact fun d hd => ⟨d, List.mem_append_left _ hd, rfl, .inl rfl⟩

end Keeps

/-! ## One call -/

theorem findOutputByName_outputName {outputs : List PmLogFile} {name : List Char} {i : Nat}
    {o : PmLogFile} (h : findOutputByName outputs name = some i) (ho : outputs[i]? = some o) :
    o.outputName = name := by
  obtain ⟨hi, hp, -⟩ := List.findIdx?_eq_some_iff_getElem.mp h
  rw [List.getElem?_eq_getElem hi, Option.some.injEq] at ho
  subst ho
  simpa using hp

section Ops

variable (H : Platform) {named : List Char → Prop}

theorem lookupOrCreateContext_keepsContexts {name : List Char} (hn : named name)
    (st : ConfState) : KeepsContexts named st.contexts (lookupOrCreateContext H name st).2.contexts := by
  unfold lookupOrCreateContext
  split
  · exact .refl _
  · rcases st with ⟨_, _, _ | t⟩
    · exact .refl _
    · exact gTreeInsert_keepsContexts t hn

@[simp] theorem makeOutputConf_contexts (po : PmLogParseOutput) (st : ConfState) :
    (makeOutputConf H po st).2.2.contexts = st.contexts := by
  unfold ConfState.contexts
  rw [makeOutputConf_contextConfs]

/-- **`MakeOutputConf` on a parse object of a named output.** -/
theorem makeOutputConf_keepsOutputs {po : PmLogParseOutput} (hpo : named po.name)
    (st : ConfState) : KeepsOutputs named st.outputConfs (makeOutputConf H po st).2.2.outputConfs := by
  rcases makeOutputConf_cases H po st with ⟨-, hst⟩ | ⟨-, -, outs, hst, hcase⟩
  · rw [hst]
    exact .refl _
  · rw [hst]
    rcases hcase with ⟨i, hfind, rfl⟩ | ⟨-, -, rfl⟩
    · split
      · exact .modify fun o ho => findOutputByName_outputName hfind ho ▸ hpo
      · exact .refl _
    · exact .append _ _

/-- **`MakeContextConf` on a parse object of a named context.** -/
theorem makeContextConf_keepsContexts {pc : PmLogParseContext} (hpc : named pc.name)
    (st : ConfState) : KeepsContexts named st.contexts (makeContextConf H pc st).2.contexts := by
  rw [makeContextConf_snd, storeContext_contexts]
  have hw : named (makeContextConfWrite pc (lookupOrCreateContext H pc.name st).1).contextName := by
    show named (lookupOrCreateContext H pc.name st).1.contextName
    rw [lookupOrCreateContext_fst_contextName]
    exact hpc
  exact (lookupOrCreateContext_keepsContexts H hpc st).trans (.replace _ hw)

/-- The parse object of an OUTPUT group of `gs` carries a name of `gs`. -/
theorem readOutputKeys_namedBy {gs : List Group} {g : Group} (hg : g ∈ gs)
    (ho : isOutputGroup g = true) (st : ConfState) :
    NamedBy outputPrefix (H.pmlogOutputMaxNameLength + 1) gs
      (readOutputKeys H g (outputGroupName g) st).2.name := by
  rw [readOutputKeys_eq]
  show NamedBy _ _ gs (parseOutputInit H st (outputGroupName g)).2.name
  unfold parseOutputInit
  split
  · exact .inl rfl
  · exact .inr ⟨g, hg, ho, rfl⟩

/-- The parse object of a CONTEXT group of `gs` carries a name of `gs`. -/
theorem readContextKeys_namedBy {gs : List Group} {g : Group} (hg : g ∈ gs)
    (hc : isContextGroup g = true) (gerror : Bool) (st : ConfState) :
    NamedBy contextPrefix (H.pmlogMaxContextNameLen + 1) gs
      (readContextKeys H g (contextGroupName g) gerror st).2.name := by
  rw [readContextKeys_name]
  unfold parseContextInit
  split
  · exact .inl rfl
  · exact .inr ⟨g, hg, hc, rfl⟩

/-! ## The whole load -/

/-- **The run lemma of the loop, group by group.** A property that `MakeOutputConf` keeps on the
parse object of each OUTPUT group of `gs`, and `MakeContextConf` on that of each CONTEXT group,
holds after the loop. -/
theorem readGroups_induction_groups (P : ConfState → Prop) : ∀ gs : List Group,
    (∀ g ∈ gs, isOutputGroup g = true → ∀ st, P st →
      P (makeOutputConf H (readOutputKeys H g (outputGroupName g) st).2 st).2.2) →
    (∀ g ∈ gs, isContextGroup g = true → ∀ gerror st, P st →
      P (makeContextConf H (readContextKeys H g (contextGroupName g) gerror st).2 st).2) →
    ∀ retVal gerror st, P st → P (readGroups H gs retVal gerror st).st
  | [], _, _, _, _, _, h => h
  | g :: gs, hout, hctx, retVal, gerror, st, h => by
    have ih := readGroups_induction_groups P gs
      (fun g' hg' => hout g' (List.mem_cons_of_mem g hg'))
      (fun g' hg' => hctx g' (List.mem_cons_of_mem g hg'))
    cases ho : isOutputGroup g
    · cases hc : isContextGroup g
      · rw [readGroups_other H ho hc]
        exact ih _ _ _ h
      · rw [readGroups_context H hc]
        split
        · exact h
        · exact ih _ _ _ (hctx g (List.mem_cons_self g gs) hc false st h)
    · have h' := hout g (List.mem_cons_self g gs) ho st h
      rw [readGroups_output H ho]
      split
      · exact ih _ _ _ h'
      · exact h'

theorem readConfFile_keepsOutputs (kf : KeyFile) (st : ConfState) :
    KeepsOutputs (NamedBy outputPrefix (H.pmlogOutputMaxNameLength + 1) kf.groups)
      st.outputConfs (readConfFile H (some kf) st).st.outputConfs :=
  readGroups_induction_groups H (fun st' => KeepsOutputs _ st.outputConfs st'.outputConfs)
    kf.groups
    (fun _ hg ho st' h => h.trans (makeOutputConf_keepsOutputs H (readOutputKeys_namedBy H hg ho st') st'))
    (fun _ _ _ _ st' h => by
      dsimp only
      rw [makeContextConf_outputConfs]
      exact h)
    true false st (.refl _)

theorem readConfFile_keepsContexts (kf : KeyFile) (st : ConfState) :
    KeepsContexts (NamedBy contextPrefix (H.pmlogMaxContextNameLen + 1) kf.groups)
      st.contexts (readConfFile H (some kf) st).st.contexts :=
  readGroups_induction_groups H (fun st' => KeepsContexts _ st.contexts st'.contexts)
    kf.groups
    (fun _ _ _ st' h => by
      dsimp only
      rw [makeOutputConf_contexts]
      exact h)
    (fun _ hg hc gerror st' h =>
      h.trans (makeContextConf_keepsContexts H (readContextKeys_namedBy H hg hc gerror st') st'))
    true false st (.refl _)

end Ops

end PmLogDaemon
