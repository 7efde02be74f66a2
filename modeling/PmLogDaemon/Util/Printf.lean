import PmLogDaemon.Util.Buffer
import Mathlib.Data.Nat.Digits

/-!
# `mysprintf`

Model of `mysprintf` (`util.c:163-203`) on the bytes of `dst`, over the C library's `vsnprintf`
for the conversions the sources use: `%s` and `%d`, and `%%`.

* `formatOutput fmt args`: the characters `printf` produces; `none` for another conversion, or
  for one whose argument is missing or of the other kind (undefined behaviour in C).
* `vsnprintfBuf`: `vsnprintf(dst, dstSize, fmt, args)` stores the first `dstSize - 1`
  characters of the output and a NUL after them, and returns the length of the whole output.
* `mysprintfBuf`: `mysprintf`, with its store `dst[0] = 0` before the call and its store
  `dst[dstSize - 1] = 0` after a truncation.

Results:
* `mysprintfBuf_eq`: the bytes the call leaves, from the bytes it finds.
* `mysprintfBuf_holds`: into a buffer of `dstSize ≥ 1` bytes the call stores only inside it and
  leaves it holding the output cut to `dstSize - 1` characters; `mysprintfBuf_confined`: into a
  larger one, it stores only in the first `dstSize` bytes.
* `length_formatInt_le`: `%d` of a 32-bit `int` takes at most 11 characters.
-/

namespace PmLogDaemon

/-- An argument of the variable list: a `const char*` for `%s`, an `int` for `%d`. -/
inductive PrintfArg
  | str (s : List Char)
  | int (n : Int)
  deriving DecidableEq, Repr

/-- `%d` of `n`: its decimal digits, after a `-` when `n` is negative. -/
def formatInt (n : Int) : List Char :=
  (if n < 0 then ['-'] else []) ++ Nat.toDigits 10 n.natAbs

/-- The characters `printf(fmt, args)` produces. -/
def formatOutput : List Char → List PrintfArg → Option (List Char)
  | [], _ => some []
  | '%' :: '%' :: fmt, args => ('%' :: ·) <$> formatOutput fmt args
  | '%' :: 's' :: fmt, .str s :: args => (s ++ ·) <$> formatOutput fmt args
  | '%' :: 'd' :: fmt, .int n :: args => (formatInt n ++ ·) <$> formatOutput fmt args
  | '%' :: _, _ => none
  | c :: fmt, args => (c :: ·) <$> formatOutput fmt args

/-- `vsnprintf(dst, dstSize, fmt, args)`: the bytes of `dst` and the value returned, the length
of the whole output. -/
def vsnprintfBuf (dst : List Char) (dstSize : Nat) (fmt : List Char) (args : List PrintfArg) :
    Option (List Char × Nat) := do
  let out ← formatOutput fmt args
  if dstSize = 0 then return (dst, out.length)
  else
    let s := out.take (dstSize - 1)
    let dst ← memcpyAt dst 0 s
    let dst ← writeByte dst s.length '\x00'
    return (dst, out.length)

/-- `mysprintf(dst, dstSize, fmt, ...)` (`util.c:163-203`) on the bytes of `dst`. -/
def mysprintfBuf (dst : List Char) (dstSize : Nat) (fmt : List Char) (args : List PrintfArg) :
    Option (List Char) :=
  if dstSize < 1 then some dst
  else do
    let dst ← writeByte dst 0 '\x00'
    let (dst, n) ← vsnprintfBuf dst dstSize fmt args
    if n ≥ dstSize then writeByte dst (dstSize - 1) '\x00' else some dst

/-! ### The call -/

section Call

variable {fmt : List Char} {args : List PrintfArg} {out : List Char}

theorem vsnprintfBuf_eq (hout : formatOutput fmt args = some out) {dst : List Char}
    {dstSize : Nat} (h1 : 1 ≤ dstSize) (hsize : dstSize ≤ dst.length) :
    vsnprintfBuf dst dstSize fmt args =
      some (out.take (dstSize - 1) ++ '\x00' :: dst.drop ((out.take (dstSize - 1)).length + 1),
        out.length) := by
  have hs : (out.take (dstSize - 1)).length < dst.length := by
    simp only [List.length_take]; omega
  have hcopy := memcpyAt_bind_nul [] dst _ hs
  simp only [List.nil_append, List.length_nil, Nat.zero_add] at hcopy
  simp only [vsnprintfBuf, hout, Option.bind_eq_bind, Option.some_bind,
    if_neg (show dstSize ≠ 0 by omega)]
  rw [← Option.bind_assoc, hcopy]
  rfl

theorem mysprintfBuf_eq (hout : formatOutput fmt args = some out) {d : Char} {ds : List Char}
    {dstSize : Nat} (h1 : 1 ≤ dstSize) (hsize : dstSize ≤ ds.length + 1) :
    mysprintfBuf (d :: ds) dstSize fmt args =
      some (out.take (dstSize - 1) ++ '\x00' :: ds.drop (out.take (dstSize - 1)).length) := by
  have hw : writeByte (d :: ds) 0 '\x00' = some ([] ++ '\x00' :: ds) := writeByte_append [] ds d _
  have hv := vsnprintfBuf_eq hout h1 (show dstSize ≤ ([] ++ '\x00' :: ds).length from hsize)
  rw [List.nil_append, List.drop_succ_cons] at hv
  simp only [mysprintfBuf, if_neg (show ¬ dstSize < 1 by omega), Option.bind_eq_bind, hw,
    Option.some_bind, List.nil_append, hv]
  split_ifs with hn
  · have hlen : (out.take (dstSize - 1)).length = dstSize - 1 := by
      simp only [List.length_take]; omega
    generalize out.take (dstSize - 1) = s at hlen ⊢
    rw [← hlen]
    exact writeByte_append _ _ _ _
  · rfl

theorem mysprintfBuf_holds {dst : List Char} {dstSize : Nat} (h1 : 1 ≤ dstSize)
    (hn : dst.length = dstSize) (hout : formatOutput fmt args = some out) :
    ∃ buf, mysprintfBuf dst dstSize fmt args = some buf ∧ buf.length = dstSize ∧
      Holds buf (out.take (dstSize - 1)) := by
  obtain ⟨d, ds, rfl⟩ := List.exists_cons_of_length_pos (show 0 < dst.length by omega)
  have hs : (out.take (dstSize - 1)).length ≤ ds.length := by
    simp only [List.length_take, List.length_cons] at hn ⊢; omega
  refine ⟨_, mysprintfBuf_eq hout h1 (by rw [← hn, List.length_cons]), ?_, holds_append _ _⟩
  rw [length_append_cons_drop _ _ _ hs, ← hn, List.length_cons]

/-- **The contract of `mysprintf`.** Whatever the format and arguments, into a buffer of at least
`dstSize ≥ 1` bytes the call stores only in its first `dstSize` bytes, and leaves there the
output cut to `dstSize - 1` characters and a NUL. -/
theorem mysprintfBuf_confined {dst : List Char} {dstSize : Nat} (h1 : 1 ≤ dstSize)
    (hsize : dstSize ≤ dst.length) (hout : formatOutput fmt args = some out) :
    ∃ buf, mysprintfBuf dst dstSize fmt args = some buf ∧ buf.length = dst.length ∧
      buf.drop dstSize = dst.drop dstSize ∧ Holds buf (out.take (dstSize - 1)) := by
  obtain ⟨d, ds, rfl⟩ := List.exists_cons_of_length_pos (show 0 < dst.length by omega)
  have hs : (out.take (dstSize - 1)).length ≤ dstSize - 1 := by
    simp only [List.length_take]; omega
  refine ⟨_, mysprintfBuf_eq hout h1 (by rw [← List.length_cons d]; exact hsize), ?_, ?_,
    holds_append _ _⟩
  · rw [length_append_cons_drop _ _ _ (by simp only [List.length_cons] at hsize; omega),
      List.length_cons]
  · exact drop_append_cons_drop d ds _ (by omega)

end Call

/-- `"%s!"` of `"abcd"` into the first 4 of 6 bytes: the output `"abcd!"` is cut to `"abc"`, the
last two bytes are kept. -/
theorem mysprintfBuf_confined_cut : ∃ buf,
    mysprintfBuf (List.replicate 6 'z') 4 ['%', 's', '!'] [.str ['a', 'b', 'c', 'd']] = some buf ∧
      buf.length = 6 ∧ buf.drop 4 = (List.replicate 6 'z').drop 4 ∧
      Holds buf (['a', 'b', 'c', 'd', '!'].take (4 - 1)) :=
  mysprintfBuf_confined (by decide) (by decide) rfl

/-! ### The pid line of `LockProcess` -/

theorem digitChar_isDigit : ∀ d < 10, (Nat.digitChar d).isDigit = true := by decide

theorem isDigit_of_mem_toDigitsCore :
    ∀ fuel n (ds : List Char), (∀ c ∈ ds, c.isDigit = true) →
      ∀ c ∈ Nat.toDigitsCore 10 fuel n ds, c.isDigit = true
  | 0, _, _, h => h
  | fuel + 1, n, ds, h => by
    have h' : ∀ c ∈ Nat.digitChar (n % 10) :: ds, c.isDigit = true :=
      List.forall_mem_cons.mpr ⟨digitChar_isDigit _ (Nat.mod_lt n (by decide)), h⟩
    rw [Nat.toDigitsCore]
    split
    · exact h'
    · exact isDigit_of_mem_toDigitsCore fuel _ _ h'

/-- `%d` prints a minus sign and decimal digits, nothing else. -/
theorem formatInt_chars (n : Int) : ∀ c ∈ formatInt n, c = '-' ∨ c.isDigit = true := by
  intro c hc
  rcases List.mem_append.mp hc with hc | hc
  · split at hc
    · exact .inl (List.mem_singleton.mp hc)
    · cases hc
  · exact .inr (isDigit_of_mem_toDigitsCore _ _ [] nofun c hc)

theorem nul_not_mem_formatInt (n : Int) : '\x00' ∉ formatInt n := fun h => by
  rcases formatInt_chars n _ h with h | h <;> revert h <;> decide

theorem newline_not_mem_formatInt (n : Int) : '\n' ∉ formatInt n := fun h => by
  rcases formatInt_chars n _ h with h | h <;> revert h <;> decide

/-- `%d` of a non-negative `int` is `Nat.repr`. -/
theorem formatInt_natCast (n : Nat) : formatInt n = (Nat.repr n).toList := by
  rw [formatInt, if_neg (by omega), Int.natAbs_ofNat, List.nil_append]
  rfl

/-- `%d` of a 32-bit `int` has at most 11 characters. -/
theorem length_formatInt_le {n : Int} (hlo : -2 ^ 31 ≤ n) (hhi : n < 2 ^ 31) :
    (formatInt n).length ≤ 11 := by
  have hn : n.natAbs < 10 ^ 10 := by omega
  have hd : (Nat.toDigits 10 n.natAbs).length ≤ 10 := Nat.repr_length _ 10 (by norm_num) hn
  unfold formatInt
  split <;> simp only [List.length_append, List.length_cons, List.length_nil] <;> omega

end PmLogDaemon
