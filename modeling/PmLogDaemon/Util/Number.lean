import PmLogDaemon.Util.CString
import Mathlib

/-!
# Numbers and levels of `util.c`: `ParseInt`, `ParseSize`, `ParseLevel`

Model of the value parsers of `src/src/util.c`, over a model of the C library's `strtol`.

* `strtol w base nptr` follows glibc for `base` 0 (and 10, which GLib's integer keys use) with a
  `long` of `w` bits: leading `isspace`, a sign, the `0x` and `0` prefixes of base 0, the digits,
  and on overflow `LONG_MAX` or `LONG_MIN` with `errno = ERANGE`. It returns the value, the
  offset of `endptr` and whether `ERANGE` was set; with no digits `endptr` is `nptr`, or the `x`
  of a bare `0x`.
* The cast `(int) n` and the product `*nP * multiplier` are taken modulo 2^32 into
  `[-2^31, 2^31)` (`Int.bmod`), as the target's two's complement arithmetic does; the signed
  overflow of the product is undefined in C.
* `PmLogStringToLevel` belongs to PmLogLib, which is not among the sources: it is modelled from
  the spec's level names, with `none` mapped to -1 as the comment of `ParseLevel` says.

Results:
* `strtol_split`: in a base up to 16 the string is blanks, a sign, a `0x` prefix, digits and the
  rest, and `endptr` stops within the first four; `parseInt_chars`: a string `ParseInt` accepts
  whole is made of such characters.
* `parseSize_bounds` and `parseLevel_snd_bounds`: `ParseSize` stores an `int`, and `ParseLevel`
  -1 or a syslog severity.
-/

namespace PmLogDaemon

/-! ## `strtol` -/

/-- `isspace` in the C locale. -/
def isspace (c : Char) : Bool :=
  c = ' ' || c = '\t' || c = '\n' || c = '\x0b' || c = '\x0c' || c = '\r'

/-- The value of a digit, as `strtol` reads digits of bases up to 36 in the C locale: `0-9`,
then `a-z` and `A-Z` from 10. -/
def digitVal (c : Char) : Option Nat :=
  if 48 ≤ c.toNat ∧ c.toNat ≤ 57 then some (c.toNat - 48)
  else if 97 ≤ c.toNat ∧ c.toNat ≤ 122 then some (c.toNat - 87)
  else if 65 ≤ c.toNat ∧ c.toNat ≤ 90 then some (c.toNat - 55)
  else none

/-- `c` is a digit of `base`. -/
def isDigitOf (base : Nat) (c : Char) : Bool := (digitVal c).any (· < base)

/-- The value of a digit string in `base`. -/
def ofDigits (base : Nat) (ds : List Char) : Nat :=
  ds.foldl (fun n c => n * base + (digitVal c).getD 0) 0

/-- The optional sign `strtol` reads: whether it is `-`, its length, and the rest. -/
def strtolSign (s : List Char) : Bool × Nat × List Char :=
  match s with
  | '-' :: t => (true, 1, t)
  | '+' :: t => (false, 1, t)
  | _ => (false, 0, s)

/-- The base `strtol` reads digits in, the length of a `0x` prefix read, and the rest: base 0
reads `0x` as hex and a leading `0` as octal. -/
def strtolPrefix (base : Nat) (s : List Char) : Nat × Nat × List Char :=
  if deref s = '0' ∧ (base = 0 ∨ base = 16) ∧ (deref s.tail).toUpper = 'X' then (16, 2, s.drop 2)
  else if deref s = '0' then (if base = 0 then 8 else base, 0, s)
  else (if base = 0 then 10 else base, 0, s)

/-- `strtol(nptr, &endptr, base)` with a `w`-bit `long`: the value returned, the offset of
`endptr` in `nptr`, and whether `errno` was set to `ERANGE`. -/
def strtol (w base : Nat) (nptr : List Char) : Int × Nat × Bool :=
  let ws := (nptr.takeWhile isspace).length
  let (neg, sgn, s) := strtolSign (nptr.drop ws)
  let (base, pfx, s) := strtolPrefix base s
  let ds := s.takeWhile (isDigitOf base)
  if ds = [] then (0, if pfx = 2 then ws + sgn + 1 else 0, false)
  else
    let v : Int := if neg then -(ofDigits base ds : Int) else ofDigits base ds
    let endp := ws + sgn + pfx + ds.length
    if v < -2 ^ (w - 1) then (-2 ^ (w - 1), endp, true)
    else if 2 ^ (w - 1) - 1 < v then (2 ^ (w - 1) - 1, endp, true)
    else (v, endp, false)

theorem strtolSign_split (s : List Char) :
    ∃ pre, s = pre ++ (strtolSign s).2.2 ∧ pre.length = (strtolSign s).2.1 ∧
      ∀ c ∈ pre, c = '-' ∨ c = '+' := by
  unfold strtolSign
  split
  · exact ⟨['-'], rfl, rfl, by simp⟩
  · exact ⟨['+'], rfl, rfl, by simp⟩
  · exact ⟨[], rfl, rfl, by simp⟩

theorem strtolPrefix_split {base : Nat} (hb : base ≤ 16) (s : List Char) :
    ∃ pre, s = pre ++ (strtolPrefix base s).2.2 ∧ pre.length = (strtolPrefix base s).2.1 ∧
      (∀ c ∈ pre, c = '0' ∨ c.toUpper = 'X') ∧ (strtolPrefix base s).1 ≤ 16 := by
  unfold strtolPrefix
  by_cases h : deref s = '0' ∧ (base = 0 ∨ base = 16) ∧ (deref s.tail).toUpper = 'X'
  · rw [if_pos h]
    obtain ⟨h0, -, hx⟩ := h
    rcases s with _ | ⟨c, _ | ⟨x, t⟩⟩
    · cases h0
    · cases hx
    · cases h0
      exact ⟨['0', x], rfl, rfl, by simp [show x.toUpper = 'X' from hx], le_rfl⟩
  · rw [if_neg h]
    split <;> exact ⟨[], rfl, rfl, by simp, by split <;> omega⟩

theorem isDigitOf_mono {b b' : Nat} (h : b ≤ b') {c : Char} (hc : isDigitOf b c = true) :
    isDigitOf b' c = true := by
  unfold isDigitOf at *
  cases hd : digitVal c with
  | none => rw [hd] at hc; cases hc
  | some d => rw [hd] at hc; simp at hc ⊢; omega

/-- **What `strtol` reads.** In a base up to 16 the string is blanks, a sign, a `0x` prefix,
digits and the rest, and `endptr` stops within the first four. -/
theorem strtol_split (w : Nat) {base : Nat} (hb : base ≤ 16) (nptr : List Char) :
    ∃ W Sg P ds R, nptr = W ++ Sg ++ P ++ ds ++ R ∧ (∀ c ∈ W, isspace c = true) ∧
      (∀ c ∈ Sg, c = '-' ∨ c = '+') ∧ (∀ c ∈ P, c = '0' ∨ c.toUpper = 'X') ∧
      (∀ c ∈ ds, isDigitOf 16 c = true) ∧
      (strtol w base nptr).2.1 ≤ W.length + Sg.length + P.length + ds.length := by
  unfold strtol
  dsimp only
  have hWs : ∀ c ∈ nptr.takeWhile isspace, isspace c = true :=
    List.all_eq_true.mp List.all_takeWhile
  have hW := List.takeWhile_append_dropWhile isspace nptr
  generalize nptr.takeWhile isspace = W at hW hWs ⊢
  obtain ⟨Sg, hs1, hl1, hSg⟩ := strtolSign_split (nptr.drop W.length)
  generalize strtolSign (nptr.drop W.length) = sg at hs1 hl1 ⊢
  obtain ⟨neg, sgn, s⟩ := sg
  obtain ⟨P, hs2, hl2, hP, hb'⟩ := strtolPrefix_split hb s
  generalize strtolPrefix base s = pf at hs2 hl2 hb' ⊢
  obtain ⟨b, pfx, s'⟩ := pf
  dsimp only at *
  refine ⟨W, Sg, P, s'.takeWhile (isDigitOf b), s'.dropWhile (isDigitOf b), ?_, hWs, hSg, hP,
    fun c hc => isDigitOf_mono hb' (List.all_eq_true.mp List.all_takeWhile c hc), ?_⟩
  · have hd : nptr.drop W.length = nptr.dropWhile isspace := by
      conv_lhs => rw [← hW]
      exact List.drop_left _ _
    simp only [List.append_assoc, List.takeWhile_append_dropWhile]
    rw [← hs2, ← hs1, hd, hW]
  · split_ifs <;> dsimp only <;> omega

/-! ## `ParseInt`, `ParseSize`, `ParseLevel` -/

/-- `ParseInt(valStr, nP)` (`util.c:353-368`): `some` the value stored in `*nP`, `(int) n`, when
`strtol` read the whole string without `ERANGE`; `none` when it returns false, `*nP` unchanged. -/
def parseInt (w : Nat) (valStr : List Char) : Option Int :=
  let (n, endp, erange) := strtol w 0 valStr
  if endp = 0 ∨ deref (valStr.drop endp) ≠ '\x00' ∨ erange then none
  else some (n.bmod (2 ^ 32))

/-- Where a string `ParseInt` accepts leaves `endptr`: past its start, and at its end. -/
theorem parseInt_endp {w : Nat} {D : List Char} {n : Int} (h : parseInt w D = some n)
    (hD : '\x00' ∉ D) : (strtol w 0 D).2.1 ≠ 0 ∧ D.drop (strtol w 0 D).2.1 = [] := by
  unfold parseInt at h
  dsimp only at h
  split at h
  · cases h
  · rename_i hacc
    simp only [not_or, not_not] at hacc
    exact ⟨hacc.1, (deref_eq_nul_iff fun hm => hD (List.mem_of_mem_drop hm)).mp hacc.2.1⟩

/-- A string `ParseInt` accepts whole is made of blanks, signs, the `0x` of a prefix and digits
of base 16 or less. -/
theorem parseInt_chars {w : Nat} {D : List Char} {n : Int} (h : parseInt w D = some n)
    (hD : '\x00' ∉ D) : ∀ c ∈ D, isspace c = true ∨ c = '-' ∨ c = '+' ∨ c = '0' ∨
      c.toUpper = 'X' ∨ isDigitOf 16 c = true := by
  obtain ⟨W, Sg, P, ds, R, hsplit, hW, hSg, hP, hds, hend⟩ := strtol_split w (Nat.zero_le 16) D
  have hnil := (parseInt_endp h hD).2
  have hR : R = [] := by
    have := congrArg List.length hsplit
    have := List.drop_eq_nil_iff.mp hnil
    simp only [List.length_append] at *
    exact List.eq_nil_of_length_eq_zero (by omega)
  subst hR
  intro c hc
  simp only [hsplit, List.append_nil, List.mem_append] at hc
  rcases hc with ((hc | hc) | hc) | hc
  · exact .inl (hW c hc)
  · rcases hSg c hc with h | h <;> simp [h]
  · rcases hP c hc with h | h <;> simp [h]
  · exact .inr (.inr (.inr (.inr (.inr (hds c hc)))))

/-- `if (TrimSuffixCaseInsensitive(s, short) || TrimSuffixCaseInsensitive(s, long)) multiplier = m;`
(`util.c:416-426`), on the multiplier and the buffer. -/
def trimMultiplier (short long : List Char) (m : Int) (acc : Int × List Char) : Int × List Char :=
  match trimSuffixCaseInsensitive acc.2 short with
  | some s => (m, s)
  | none =>
    match trimSuffixCaseInsensitive acc.2 long with
    | some s => (m, s)
    | none => acc

/-- `ParseSize(valStr, nP)` (`util.c:408-436`): `ParseInt` on a 32-byte copy of `valStr` from
which a `K`/`KB` suffix and then an `M`/`MB` suffix were trimmed, times the multiplier of the
last trim; `none` when it returns false, `*nP` unchanged. -/
def parseSize (w : Nat) (valStr : List Char) : Option Int :=
  let (multiplier, s) := trimMultiplier "M".toList "MB".toList (1024 * 1024)
    (trimMultiplier "K".toList "KB".toList 1024 (1, mystrcpy [] 32 valStr))
  (parseInt w s).map fun n => (n * multiplier).bmod (2 ^ 32)

theorem bmod_two_pow_bounds (x : Int) : -2 ^ 31 ≤ x.bmod (2 ^ 32) ∧ x.bmod (2 ^ 32) < 2 ^ 31 := by
  have h1 := @Int.le_bmod x (2 ^ 32) (by decide)
  have h2 := @Int.bmod_lt x (2 ^ 32) (by decide)
  simp only [Nat.reducePow, Nat.reduceDiv, Nat.reduceAdd] at h1 h2 ⊢
  omega

/-- `ParseSize` stores an `int`. -/
theorem parseSize_bounds {w : Nat} {s : List Char} {n : Int} (h : parseSize w s = some n) :
    -2 ^ 31 ≤ n ∧ n < 2 ^ 31 := by
  unfold parseSize at h
  generalize trimMultiplier _ _ _ _ = acc at h
  obtain ⟨-, -, rfl⟩ := Option.map_eq_some'.mp h
  exact bmod_two_pow_bounds _

/-- The syslog severities by name, `LOG_EMERG` (0) to `LOG_DEBUG` (7). -/
def levelNames : List (List Char × Int) :=
  [("emerg".toList, 0), ("alert".toList, 1), ("crit".toList, 2), ("err".toList, 3),
   ("warning".toList, 4), ("notice".toList, 5), ("info".toList, 6), ("debug".toList, 7)]

/-- Modelled from the spec: `PmLogStringToLevel(s)` of PmLogLib: the severity of a level name,
-1 (`kPmLogLevel_None`) for `none` as the comment of `ParseLevel` says, NULL (`none`) otherwise. -/
def pmLogStringToLevel (s : List Char) : Option Int :=
  if s = "none".toList then some (-1) else levelNames.lookup s

/-- `ParseLevel(s, levelP)` (`util.c:382-395`): whether it parsed, and the value it stores in
`*levelP`, -1 when it did not. -/
def parseLevel (s : List Char) : Bool × Int :=
  match pmLogStringToLevel s with
  | some n => (true, n)
  | none => (false, -1)

theorem exists_mem_of_lookup_eq_some {β : Type} {l : List (List Char × β)} {k : List Char}
    {v : β} (h : l.lookup k = some v) : ∃ k', (k', v) ∈ l := by
  induction l with
  | nil => cases h
  | cons p l ih =>
    rw [List.lookup] at h
    split at h
    · cases h; exact ⟨p.1, List.mem_cons_self _ _⟩
    · obtain ⟨k', hk'⟩ := ih h
      exact ⟨k', List.mem_cons_of_mem _ hk'⟩

/-- The level `ParseLevel` stores is -1 or a syslog severity. -/
theorem parseLevel_snd_bounds (s : List Char) : -1 ≤ (parseLevel s).2 ∧ (parseLevel s).2 ≤ 7 := by
  unfold parseLevel pmLogStringToLevel
  split
  · rename_i n h
    split at h
    · cases h; decide
    · obtain ⟨k, hk⟩ := exists_mem_of_lookup_eq_some h
      have hbounds : ∀ p ∈ levelNames, 0 ≤ p.2 ∧ p.2 ≤ 7 := by decide
      have := hbounds _ hk
      dsimp only at this ⊢
      omega
  · decide

end PmLogDaemon
