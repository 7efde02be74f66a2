import PmLogDaemon.Config.Contexts
import PmLogDaemon.Config.Groups

/-!
# Which loads free the stale error twice

A `Rotations` lookup that fails in the OUTPUT branch of `ReadConfFile` (`config.c:654-662`)
frees its error and leaves `gerror` pointing at it; only the lookups of the next OUTPUT group
reset it. The next `g_error_free(gerror)`, in the CONTEXT branch (`config.c:703-705`) or at
`end:` (`config.c:736-737`), frees it a second time (`Config/Read.lean`). Which loads get there
depends only on the `Rotations` keys of the OUTPUT groups and on where the groups stand.

Results:
* `readGroups_doubleFree`: a loop entered with the error set, or with an OUTPUT group still to
  come, whose OUTPUT groups all fail the lookup reaches the double free.
* `readConfFile_doubleFree_of_no_rotations`: a file with an OUTPUT group, none of whose OUTPUT
  groups gives `Rotations` an integer, reaches the double free, whatever else it holds;
  `[OUTPUT=stdlog]` with only its `File` is such a file.
* `readConfFile_returns_of_rotations`: a file whose every OUTPUT group gives `Rotations` an
  integer never reaches it: the load returns, true or false.
-/

namespace PmLogDaemon

section Stale

variable (H : Platform)

/-- The first component of the OUTPUT branch, read off the group's `Rotations`. -/
theorem readOutputKeys_fst_of_getInteger {g : Group} {name : List Char} {st : ConfState}
    {r : Option Int} (hr : g.getInteger H.longWidth "Rotations".toList = r) :
    (readOutputKeys H g name st).1 = r.isNone := by
  rw [readOutputKeys_fst, hr]

/-- **The stale error is freed a second time.** From any tables, a loop entered with `gerror`
set, or with an OUTPUT group still to come, reaches the double free when none of its OUTPUT
groups gives `Rotations` an integer: each of them leaves the error set, a CONTEXT group or the
end of the file then frees it again, and a failed `MakeOutputConf` jumps to that end. -/
theorem readGroups_doubleFree : ∀ (gs : List Group) (retVal gerror : Bool) (st : ConfState),
    (∀ g ∈ gs, isOutputGroup g = true → g.getInteger H.longWidth "Rotations".toList = none) →
    (gerror = true ∨ ∃ g ∈ gs, isOutputGroup g = true) →
    (readGroups H gs retVal gerror st).outcome = .doubleFree
  | [], _, _, _, _, hset => by
    rcases hset with rfl | ⟨g, hg, -⟩
    · rfl
    · cases hg
  | g :: gs, retVal, gerror, st, hrots, hset => by
    have hrots' : ∀ g' ∈ gs, isOutputGroup g' = true →
        g'.getInteger H.longWidth "Rotations".toList = none :=
      fun g' hg' => hrots g' (List.mem_cons_of_mem g hg')
    cases ho : isOutputGroup g
    · -- the error is still set, or the OUTPUT group to come is among the rest
      have hset' : gerror = true ∨ ∃ g' ∈ gs, isOutputGroup g' = true := by
        rcases hset with h | ⟨g', hg', ho'⟩
        · exact .inl h
        rcases List.mem_cons.mp hg' with rfl | hg'
        · exact absurd (ho.symm.trans ho') Bool.false_ne_true
        · exact .inr ⟨g', hg', ho'⟩
      cases hc : isContextGroup g
      · rw [readGroups_other H ho hc]
        exact readGroups_doubleFree gs retVal gerror st hrots' hset'
      · rw [readGroups_context H hc]
        cases gerror
        · rw [if_neg Bool.false_ne_true]
          exact readGroups_doubleFree gs _ false _ hrots' (.inr (hset'.resolve_left nofun))
        · rfl
    · -- an OUTPUT group sets the error, and a failed `MakeOutputConf` frees it at `end:`
      rw [readGroups_output H ho,
        readOutputKeys_fst_of_getInteger H (hrots g (List.mem_cons_self g gs) ho)]
      split
      · exact readGroups_doubleFree gs retVal true _ hrots' (.inl rfl)
      · rfl

/-- **With every `Rotations` given, no double free.** From any tables, a loop entered with
`gerror` NULL whose OUTPUT groups all give `Rotations` an integer never frees an error twice:
no lookup leaves `gerror` set. -/
theorem readGroups_returns : ∀ (gs : List Group) (retVal : Bool) (st : ConfState),
    (∀ g ∈ gs, isOutputGroup g = true → (g.getInteger H.longWidth "Rotations".toList).isSome) →
    (readGroups H gs retVal false st).outcome ≠ .doubleFree
  | [], _, _, _ => nofun
  | g :: gs, retVal, st, hrots => by
    have hrots' : ∀ g' ∈ gs, isOutputGroup g' = true →
        (g'.getInteger H.longWidth "Rotations".toList).isSome :=
      fun g' hg' => hrots g' (List.mem_cons_of_mem g hg')
    cases ho : isOutputGroup g
    · cases hc : isContextGroup g
      · rw [readGroups_other H ho hc]
        exact readGroups_returns gs retVal st hrots'
      · rw [readGroups_context H hc, if_neg Bool.false_ne_true]
        exact readGroups_returns gs _ _ hrots'
    · obtain ⟨r, hr⟩ := Option.isSome_iff_exists.mp (hrots g (List.mem_cons_self g gs) ho)
      rw [readGroups_output H ho, readOutputKeys_fst_of_getInteger H hr]
      split
      · exact readGroups_returns gs retVal _ hrots'
      · nofun

/-- **A file without `Rotations` is freed twice.** From any tables, a file with an OUTPUT group,
none of whose OUTPUT groups gives `Rotations` an integer, reaches the double free, whatever
CONTEXT and other groups it holds and in whatever order. -/
theorem readConfFile_doubleFree_of_no_rotations (kf : KeyFile) (st : ConfState)
    (hrots : ∀ g ∈ kf.groups, isOutputGroup g = true →
      g.getInteger H.longWidth "Rotations".toList = none)
    (hout : ∃ g ∈ kf.groups, isOutputGroup g = true) :
    (readConfFile H (some kf) st).outcome = .doubleFree :=
  readGroups_doubleFree H kf.groups true false st hrots (.inr hout)

/-- **A file with every `Rotations` returns.** From any tables, a file whose every OUTPUT group
gives `Rotations` an integer never reaches the double free: `ReadConfFile` returns, true or
false. -/
theorem readConfFile_returns_of_rotations (kf : KeyFile) (st : ConfState)
    (hrots : ∀ g ∈ kf.groups, isOutputGroup g = true →
      (g.getInteger H.longWidth "Rotations".toList).isSome) :
    (readConfFile H (some kf) st).outcome ≠ .doubleFree :=
  readGroups_returns H kf.groups true st hrots

end Stale

/-- `[OUTPUT=stdlog]` with `File=/var/log/messages` and no other key or group. -/
def stdlogOnlyFile : KeyFile := ⟨[stdlogGroup], by decide⟩

theorem readConfFile_doubleFree_stdlogOnly :
    (∀ g ∈ stdlogOnlyFile.groups, isOutputGroup g = true →
      g.getInteger Platform.typical.longWidth "Rotations".toList = none) ∧
    (∃ g ∈ stdlogOnlyFile.groups, isOutputGroup g = true) ∧
    (readConfFile Platform.typical (some stdlogOnlyFile) ConfState.init).outcome = .doubleFree :=
  have hrots : ∀ g ∈ stdlogOnlyFile.groups, isOutputGroup g = true →
      g.getInteger Platform.typical.longWidth "Rotations".toList = none := by decide
  have hout : ∃ g ∈ stdlogOnlyFile.groups, isOutputGroup g = true :=
    ⟨stdlogGroup, List.mem_singleton_self _, rfl⟩
  ⟨hrots, hout, readConfFile_doubleFree_of_no_rotations _ _ _ hrots hout⟩

theorem readConfFile_returns_of_rotations_sample :
    (∀ g ∈ sampleFile.groups, isOutputGroup g = true →
      (g.getInteger Platform.typical.longWidth "Rotations".toList).isSome) ∧
    (readConfFile Platform.typical (some sampleFile) ConfState.init).outcome ≠ .doubleFree :=
  have hrots : ∀ g ∈ sampleFile.groups, isOutputGroup g = true →
      (g.getInteger Platform.typical.longWidth "Rotations".toList).isSome := by decide
  ⟨hrots, readConfFile_returns_of_rotations _ _ _ hrots⟩

end PmLogDaemon
