import PmLogDaemon.Config.Read

/-!
# The output table after a load

Model of what `ReadConfFile` leaves in `g_outputConfs`: which OUTPUT groups it accepts, and the
sizes and rotations of the outputs it makes.

* `ParseOutputInit` (`config.c:187-209`) refuses a first output not named `stdlog`, but
  `ReadConfFile` ignores its result: the group goes on with the object `memset` cleared, so with
  an empty name, and `MakeOutputConf` makes an output of it when `File` is a full path. Nothing
  checks that an OUTPUT or a CONTEXT group was given at all.
* `MakeOutputConf` (`config.c:225-291`) clamps `MaxSize` and `Rotations` in the parse object
  only. The output it appends keeps the `maxSize = 0` and `rotations = 0` of its `memset`; only a
  missing `Rotations` writes `PMLOG_DEFAULT_LOG_ROTATIONS` to it.

Results:
* `readConfFile_accepts_unnamed_output`: a file of one group `[OUTPUT=<name>]` with a full path
  `File`, an integer `Rotations` and any name but `stdlog` is accepted, with one output of empty
  name and no context; so is the empty key file, with no output at all.
* `readConfFile_outputs_unsized`: from the empty tables, every output has `maxSize = 0` and
  rotations 0 or the default, whatever the file says.
-/

namespace PmLogDaemon

section Outputs

variable (H : Platform)

/-! ## The first output -/

/-- A key file of the one group `[OUTPUT=<name>]` with the keys `File=<file>` and
`Rotations=<rots>`. -/
def singleOutputFile (name file rots : List Char) : KeyFile :=
  ⟨[⟨outputPrefix ++ name, [("File".toList, file), ("Rotations".toList, rots)]⟩],
    List.nodup_cons.mpr ⟨List.not_mem_nil _, List.nodup_nil⟩⟩

/-- The key file with no group. -/
def emptyKeyFile : KeyFile := ⟨[], List.nodup_nil⟩

theorem readOutputKeys_singleOutputFile {name file rots : List Char}
    (hname : name ≠ pmlogOutputStdlog) {n : Int}
    (hrots : parseValueAsInteger H.longWidth rots = some n) :
    readOutputKeys H ⟨outputPrefix ++ name, [("File".toList, file), ("Rotations".toList, rots)]⟩
        name ConfState.init = (false, ⟨[], file.take (pathMax - 1), 0, n⟩) := by
  rw [readOutputKeys_eq, parseOutputInit, if_pos ⟨rfl, hname⟩]
  simp [Group.getInteger, Group.getString, List.lookup, hrots, PmLogParseOutput.zero]

/-- **The first output need not be `stdlog`.** On the empty tables, one OUTPUT group with a full
path, an integer `Rotations` and any other name is accepted: the output it makes has the empty
name, and there is no context, so neither `stdlog` nor `<global>` is configured. The empty key
file is accepted too, and configures nothing. -/
theorem readConfFile_accepts_unnamed_output (name file rots : List Char)
    (hname : name ≠ pmlogOutputStdlog) (hfile : deref file = '/')
    (hrots : (parseValueAsInteger H.longWidth rots).isSome) :
    (readConfFile H (some (singleOutputFile name file rots)) ConfState.init).outcome =
      .returns true ∧
    (readConfFile H (some (singleOutputFile name file rots)) ConfState.init).st.outputConfs.map
      (·.outputName) = [[]] ∧
    (readConfFile H (some (singleOutputFile name file rots)) ConfState.init).st.contexts = [] ∧
    readConfFile H (some emptyKeyFile) ConfState.init = ⟨.returns true, ConfState.init⟩ := by
  obtain ⟨n, hn⟩ := Option.isSome_iff_exists.mp hrots
  have hpre : outputPrefix.isPrefixOf (outputPrefix ++ name) = true :=
    List.isPrefixOf_iff_prefix.mpr (List.prefix_append _ _)
  have htake : deref (file.take (pathMax - 1)) = '/' := by
    cases file with
    | nil => cases hfile
    | cons c file => exact hfile
  simp only [readConfFile, singleOutputFile]
  rw [readGroups.eq_2, if_pos hpre]
  dsimp only
  rw [List.drop_left, readOutputKeys_singleOutputFile H hname hn]
  have hmax : H.pmlogMaxNumOutputs ≠ 0 := H.maxNumOutputs_pos.ne'
  simp only [makeOutputConf, htake, findOutputByName, ConfState.init, ConfState.numOutputs,
    ConfState.contexts]
  by_cases hu : n = H.confIntUninitValue <;> simp [hmax, hu, endLoad, emptyKeyFile, readGroups]

theorem readConfFile_accepts_syslog :
    "syslog".toList ≠ pmlogOutputStdlog ∧ deref "/var/log/syslog".toList = '/' ∧
    (parseValueAsInteger Platform.typical.longWidth "2".toList).isSome ∧
    ((readConfFile Platform.typical (some (singleOutputFile "syslog".toList
      "/var/log/syslog".toList "2".toList)) ConfState.init).outcome = .returns true ∧
    (readConfFile Platform.typical (some (singleOutputFile "syslog".toList
      "/var/log/syslog".toList "2".toList)) ConfState.init).st.outputConfs.map (·.outputName) =
        [[]] ∧
    (readConfFile Platform.typical (some (singleOutputFile "syslog".toList
      "/var/log/syslog".toList "2".toList)) ConfState.init).st.contexts = [] ∧
    readConfFile Platform.typical (some emptyKeyFile) ConfState.init =
      ⟨.returns true, ConfState.init⟩) :=
  ⟨by decide, rfl, by decide, readConfFile_accepts_unnamed_output _ _ _ _ (by decide) rfl (by decide)⟩

/-! ## Sizes and rotations -/

/-- Every output has `maxSize = 0`, and rotations 0 or `PMLOG_DEFAULT_LOG_ROTATIONS`. -/
def OutputsUnsized (st : ConfState) : Prop :=
  ∀ o ∈ st.outputConfs, o.maxSize = 0 ∧ (o.rotations = 0 ∨ o.rotations = pmlogDefaultLogRotations)

theorem makeOutputConf_unsized (po : PmLogParseOutput) {st : ConfState} (h : OutputsUnsized st) :
    OutputsUnsized (makeOutputConf H po st).2.2 := by
  rcases makeOutputConf_cases H po st with ⟨-, hst⟩ | ⟨-, -, outs, hst, ⟨i, -, rfl⟩ | ⟨-, -, rfl⟩⟩ <;>
    rw [hst]
  · exact h
  · intro o ho
    split at ho
    · rcases mem_modify ho with ho | ⟨y, hy, rfl⟩
      · exact h o ho
      · exact ⟨(h y hy).1, .inr rfl⟩
    · exact h o ho
  · intro o ho
    rcases List.mem_append.mp ho with ho | ho
    · exact h o ho
    · rw [List.mem_singleton.mp ho]
      exact ⟨rfl, by split <;> simp⟩

/-- **`MakeOutputConf` never stores a size.** From the empty tables, after `ReadConfFile` on any
file (or at its double free) every output has `maxSize = 0`, and rotations 0 (the `Rotations`
given, clamped in the parse object only) or the default (no `Rotations`). -/
theorem readConfFile_outputs_unsized (kf : Option KeyFile) :
    ∀ o ∈ (readConfFile H kf ConfState.init).st.outputConfs,
      o.maxSize = 0 ∧ (o.rotations = 0 ∨ o.rotations = pmlogDefaultLogRotations) :=
  readConfFile_induction H (OutputsUnsized)
    (fun po _ _ _ _ h heq => by have := makeOutputConf_unsized H po h; rwa [heq] at this)
    (fun _ _ _ _ h => by simpa [OutputsUnsized] using h)
    kf (fun _ ho => absurd ho (List.not_mem_nil _))

/-- `[OUTPUT=stdlog]` with `File=/var/log/messages`, `MaxSize=1M` and `Rotations=5`. -/
def sizedStdlogFile : KeyFile :=
  ⟨[⟨outputPrefix ++ pmlogOutputStdlog, [("File".toList, defaultLogFilePath),
      ("MaxSize".toList, "1M".toList), ("Rotations".toList, "5".toList)]⟩],
    List.nodup_cons.mpr ⟨List.not_mem_nil _, List.nodup_nil⟩⟩

theorem readConfFile_outputs_unsized_1M :
    (⟨pmlogOutputStdlog, defaultLogFilePath, 0, 0⟩ : PmLogFile) ∈
      (readConfFile Platform.typical (some sizedStdlogFile) ConfState.init).st.outputConfs ∧
    ((⟨pmlogOutputStdlog, defaultLogFilePath, 0, 0⟩ : PmLogFile).maxSize = 0 ∧
      ((⟨pmlogOutputStdlog, defaultLogFilePath, 0, 0⟩ : PmLogFile).rotations = 0 ∨
        (⟨pmlogOutputStdlog, defaultLogFilePath, 0, 0⟩ : PmLogFile).rotations =
          pmlogDefaultLogRotations)) :=
  have h : (⟨pmlogOutputStdlog, defaultLogFilePath, 0, 0⟩ : PmLogFile) ∈
      (readConfFile Platform.typical (some sizedStdlogFile) ConfState.init).st.outputConfs := by
    decide
  ⟨h, readConfFile_outputs_unsized _ _ _ h⟩

end Outputs

end PmLogDaemon
