import Mathlib.Data.List.Basic

/-!
# The string helpers of `util.c`: `mystrcpy`, `TrimSuffixCaseInsensitive`

Model of the C-string helpers of `src/src/util.c` that the configuration loader calls.

* A C string is the `List Char` of its characters before the terminating NUL, so `strlen` is
  `List.length`, and a buffer `char dst[n]` is the string it holds. `deref s` is `*s`: the first
  character, NUL at the terminator. The strings of the loader come from `GKeyFile` and hold no
  NUL; a NULL `dst` or `src` is not modelled, since no caller passes one.
* `mystrcpy dst n src` is the string `dst` holds after `mystrcpy(dst, n, src)`.
* `strcasecmp(a, b) == 0` is equality after the C locale's `tolower`, which is `Char.toLower`.

Results:
* `mystrcpy_eq`: for `dstSize ≥ 1` the buffer holds the first `dstSize - 1` characters of `src`.
* `trimSuffixCaseInsensitive_eq_some_iff`: the trim succeeds exactly on `t ++ v` with `v` equal
  to the suffix up to case, and leaves `t`.
-/

namespace PmLogDaemon

/-- `*s` on a C string: its first character, NUL at the terminator. -/
def deref : List Char → Char
  | [] => '\x00'
  | c :: _ => c

@[simp] theorem deref_nil : deref [] = '\x00' := rfl

@[simp] theorem deref_cons (c : Char) (s : List Char) : deref (c :: s) = c := rfl

/-- A string whose first character is not NUL starts with it. -/
theorem eq_cons_of_deref_eq {s : List Char} {c : Char} (hc : c ≠ '\x00') (h : deref s = c) :
    s = c :: s.tail := by
  cases s with
  | nil => exact absurd h.symm hc
  | cons d t => rw [← h]; rfl

theorem deref_eq_nul_iff {s : List Char} (h : '\x00' ∉ s) : deref s = '\x00' ↔ s = [] := by
  cases s with
  | nil => simp
  | cons c s => simpa using fun hc : c = '\x00' => h (hc ▸ List.mem_cons_self c s)

/-- `mystrcpy(dst, dstSize, src)` (`util.c:52-85`): a `dstSize` below 1 returns before writing;
otherwise `src` is copied, cut to `dstSize - 1` characters. -/
def mystrcpy (dst : List Char) (dstSize : Nat) (src : List Char) : List Char :=
  if dstSize < 1 then dst
  else
    let srcLen := if src.length ≥ dstSize then dstSize - 1 else src.length
    src.take srcLen

theorem mystrcpy_eq (dst : List Char) {dstSize : Nat} (h : 1 ≤ dstSize) (src : List Char) :
    mystrcpy dst dstSize src = src.take (dstSize - 1) := by
  unfold mystrcpy
  rw [if_neg (by omega)]
  split
  · rfl
  · rw [List.take_of_length_le (by omega), List.take_of_length_le (by omega)]

/-- `strcasecmp(a, b) == 0` in the C locale. -/
def strcaseEq (a b : List Char) : Bool :=
  a.map Char.toLower == b.map Char.toLower

/-- `TrimSuffixCaseInsensitive(s, suffix)` (`util.c:321-342`): when `s` ends with `suffix` up
to case, the string cut before it (`*sSuffix = 0`, the call returns `true`); `none` when it
returns `false` and leaves `s` as it was. -/
def trimSuffixCaseInsensitive (s suffix : List Char) : Option (List Char) :=
  if s.length < suffix.length then none
  else if strcaseEq (s.drop (s.length - suffix.length)) suffix then
    some (s.take (s.length - suffix.length))
  else none

theorem trimSuffixCaseInsensitive_eq_some_iff {s suffix t : List Char} :
    trimSuffixCaseInsensitive s suffix = some t ↔
      ∃ v, s = t ++ v ∧ v.map Char.toLower = suffix.map Char.toLower := by
  unfold trimSuffixCaseInsensitive strcaseEq
  constructor
  · intro h
    split at h
    · cases h
    · split at h
      · rename_i hv
        cases h
        exact ⟨_, (List.take_append_drop _ s).symm, beq_iff_eq.mp hv⟩
      · cases h
  · rintro ⟨v, rfl, hv⟩
    have hl : v.length = suffix.length := by
      simpa using congrArg List.length hv
    have hk : (t ++ v).length - suffix.length = t.length := by simp [hl]
    rw [if_neg (by simp [hl]), hk, List.drop_left, List.take_left]
    simp [hv]

/-- The trim compares the string's last characters after `tolower`. -/
theorem trimSuffixCaseInsensitive_eq (s suffix : List Char) :
    trimSuffixCaseInsensitive s suffix =
      if s.length < suffix.length then none
      else if (s.map Char.toLower).drop (s.length - suffix.length) = suffix.map Char.toLower then
        some (s.take (s.length - suffix.length))
      else none := by
  simp [trimSuffixCaseInsensitive, strcaseEq, List.map_drop]

/-- A suffix no longer than `v` is decided within `v`. -/
theorem trimSuffixCaseInsensitive_append_of_le {u v suffix : List Char}
    (h : suffix.length ≤ v.length) :
    trimSuffixCaseInsensitive (u ++ v) suffix = (trimSuffixCaseInsensitive v suffix).map (u ++ ·) := by
  have hd : (u ++ v).length - suffix.length = u.length + (v.length - suffix.length) := by
    simp; omega
  have hdrop : ((u ++ v).map Char.toLower).drop (u.length + (v.length - suffix.length)) =
      (v.map Char.toLower).drop (v.length - suffix.length) := by
    rw [List.map_append, ← List.length_map u Char.toLower, List.drop_append]
  rw [trimSuffixCaseInsensitive_eq, trimSuffixCaseInsensitive_eq,
    if_neg (show ¬ (u ++ v).length < suffix.length by simp; omega),
    if_neg (show ¬ v.length < suffix.length by omega), hd, hdrop, List.take_append]
  split <;> rfl

/-- A trim fails when the suffix has a letter no character of the string lowers to. -/
theorem trimSuffixCaseInsensitive_eq_none {s suffix : List Char} {q : Char}
    (hq : q ∈ suffix.map Char.toLower) (hs : ∀ c ∈ s, c.toLower ≠ q) :
    trimSuffixCaseInsensitive s suffix = none := by
  cases h : trimSuffixCaseInsensitive s suffix with
  | none => rfl
  | some t =>
    obtain ⟨v, rfl, hv⟩ := trimSuffixCaseInsensitive_eq_some_iff.mp h
    rw [← hv] at hq
    obtain ⟨c, hc, rfl⟩ := List.mem_map.mp hq
    exact absurd rfl (hs c (List.mem_append_right t hc))

/-! ## Characters -/

theorem toNat_ofNat_of_lt {n : Nat} (h : n < 0xd800) : (Char.ofNat n).toNat = n := by
  rw [Char.ofNat, dif_pos (Or.inl h)]
  rfl

/-- `tolower` on code points: the basic latin capitals move up by 32. -/
theorem toLower_toNat (c : Char) :
    c.toLower.toNat = if 65 ≤ c.toNat ∧ c.toNat ≤ 90 then c.toNat + 32 else c.toNat := by
  unfold Char.toLower
  split <;> rename_i h
  · rw [if_pos h, toNat_ofNat_of_lt (by omega)]
  · rw [if_neg h]

/-- `toupper` on code points: the basic latin small letters move down by 32. -/
theorem toUpper_toNat (c : Char) :
    c.toUpper.toNat = if 97 ≤ c.toNat ∧ c.toNat ≤ 122 then c.toNat - 32 else c.toNat := by
  unfold Char.toUpper
  split <;> rename_i h
  · rw [if_pos h, toNat_ofNat_of_lt (by omega)]
  · rw [if_neg h]

end PmLogDaemon
