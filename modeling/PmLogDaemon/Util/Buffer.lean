import PmLogDaemon.Util.CString

/-!
# `mystrcpy` and `mystrcat` on the bytes of the buffer

Model of `mystrcpy` (`src/src/util.c:52-85`) and `mystrcat` (`util.c:98-149`) as the stores they
make into the destination buffer. `Util.CString` models `mystrcpy` by the string it leaves; this
module is the level below it.

* A buffer `char dst[n]` is the `List Char` of its `n` bytes. `writeByte` is one store, `none`
  when it falls outside the buffer, so a call that returns `some` stored only inside it.
  `memcpyAt buf i src` is `memcpy(buf + i, src, src.length)`, one store per byte.
* `strlenBuf buf` is `strlen(buf)`: the index of the first NUL, `none` when the buffer holds no
  NUL and `strlen` would read past its end.
* `Holds buf s`: the buffer starts with `s` and a NUL, so as a C string it reads `s`.
* A source string is, as in `Util.CString`, the `List Char` before its NUL, so `strlen(src)` is
  `src.length`. `maxLen = (dstSize - 1) - dstLen` is computed after `dstLen < dstSize` is
  checked, so the `size_t` subtraction does not wrap and `Nat` subtraction is exact.

Results:
* `mystrcpyBuf_eq`: on a buffer of at least `dstSize ≥ 1` bytes, `mystrcpy` stores the first
  `dstSize - 1` characters of `src` and a NUL, and leaves the bytes after them alone.
* `mystrcatBuf_eq`: on a buffer holding `c` with `|c| < dstSize`, `mystrcat` stores the first
  `dstSize - 1 - |c|` characters of `src` after `c`, and a NUL.
* `mystrcpyBuf_refines`: the bytes `mystrcpy` leaves hold the string of `Util.CString`'s model.
* `mystrcpy_mystrcat_take`: on a buffer of exactly `dstSize` bytes both calls succeed, so they
  store only below `dstSize`; they leave the truncated strings, and one after the other they
  leave `take (dstSize - 1) (a ++ b)`.
* `mystrcpyBuf_confined`, `mystrcatBuf_confined`: on a buffer longer than `dstSize`, every byte
  from `dstSize` on is left, and the first `dstSize` hold the cut string.
* `mystrcatBuf_eq_none_iff`: `mystrcat` faults exactly on a buffer with no NUL at all, since it
  calls `strlen` before it compares the length with `dstSize`.
-/

namespace PmLogDaemon

/-- `buf[i] = c` on a buffer of `buf.length` bytes; `none` for a store outside it. -/
def writeByte (buf : List Char) (i : Nat) (c : Char) : Option (List Char) :=
  if i < buf.length then some (buf.set i c) else none

/-- `memcpy(buf + i, src, src.length)`: the bytes of `src` stored one by one from index `i`. -/
def memcpyAt (buf : List Char) (i : Nat) : List Char → Option (List Char)
  | [] => some buf
  | c :: cs => (writeByte buf i c).bind fun buf => memcpyAt buf (i + 1) cs

/-- `strlen(buf)`: the index of the first NUL, `none` when it would read past the buffer. -/
def strlenBuf : List Char → Option Nat
  | [] => none
  | c :: cs => if c = '\x00' then some 0 else (strlenBuf cs).map (· + 1)

/-- The buffer holds the C string `s`: it starts with `s` and a NUL. -/
def Holds (buf s : List Char) : Prop := buf.take (s.length + 1) = s ++ ['\x00']

instance (buf s : List Char) : Decidable (Holds buf s) := inferInstanceAs (Decidable (_ = _))

/-- `mystrcpy(dst, dstSize, src)` (`util.c:52-85`) on the bytes of `dst`. -/
def mystrcpyBuf (dst : List Char) (dstSize : Nat) (src : List Char) : Option (List Char) :=
  if dstSize < 1 then some dst
  else do
    let dst ← writeByte dst 0 '\x00'
    let srcLen := if src.length ≥ dstSize then dstSize - 1 else src.length
    let dst ← memcpyAt dst 0 (src.take srcLen)
    writeByte dst srcLen '\x00'

/-- `mystrcat(dst, dstSize, src)` (`util.c:98-149`) on the bytes of `dst`. -/
def mystrcatBuf (dst : List Char) (dstSize : Nat) (src : List Char) : Option (List Char) :=
  if dstSize < 1 then some dst
  else do
    let dstLen ← strlenBuf dst
    if dstLen ≥ dstSize then some dst
    else if src.length < 1 then some dst
    else
      let maxLen := (dstSize - 1) - dstLen
      let srcLen := if src.length > maxLen then maxLen else src.length
      if srcLen > 0 then do
        let dst ← memcpyAt dst dstLen (src.take srcLen)
        writeByte dst (dstLen + srcLen) '\x00'
      else some dst

/-! ### Stores -/

theorem writeByte_append (pre post : List Char) (x c : Char) :
    writeByte (pre ++ x :: post) pre.length c = some (pre ++ c :: post) := by
  simp [writeByte]

/-- `memcpy` over a stretch of the buffer as long as the source replaces exactly that stretch. -/
theorem memcpyAt_append (pre mid post src : List Char) (h : mid.length = src.length) :
    memcpyAt (pre ++ mid ++ post) pre.length src = some (pre ++ src ++ post) := by
  induction src generalizing pre mid with
  | nil => rw [List.length_eq_zero.mp h]; rfl
  | cons c cs ih =>
    cases mid with
    | nil => exact absurd h (by simp)
    | cons x mid =>
      have hstep := ih (pre ++ [c]) mid (by simpa using h)
      simp only [List.append_assoc, List.singleton_append, List.cons_append, List.nil_append,
        List.length_append, List.length_singleton] at hstep
      simp only [memcpyAt, List.append_assoc, List.cons_append, writeByte_append,
        Option.some_bind, hstep]

/-- The tail shared by both functions: copy `s` to index `pre.length`, then store the NUL. -/
theorem memcpyAt_bind_nul (pre post s : List Char) (h : s.length < post.length) :
    (memcpyAt (pre ++ post) pre.length s).bind (writeByte · (pre.length + s.length) '\x00') =
      some (pre ++ s ++ '\x00' :: post.drop (s.length + 1)) := by
  have hpost : post = post.take s.length ++ (post[s.length] :: post.drop (s.length + 1)) := by
    rw [← List.drop_eq_getElem_cons h, List.take_append_drop]
  have hmid : (post.take s.length).length = s.length := by simp only [List.length_take]; omega
  conv_lhs => rw [hpost, ← List.append_assoc, memcpyAt_append _ _ _ _ hmid, Option.some_bind,
    ← List.length_append, writeByte_append]

/-! ### Reading the string back -/

theorem strlenBuf_append (c rest : List Char) (hc : '\x00' ∉ c) :
    strlenBuf (c ++ '\x00' :: rest) = some c.length := by
  induction c with
  | nil => simp [strlenBuf]
  | cons x c ih =>
    simp only [List.mem_cons, not_or] at hc
    simp [strlenBuf, Ne.symm hc.1, ih hc.2]

theorem holds_append (s rest : List Char) : Holds (s ++ '\x00' :: rest) s := by
  simp [Holds, List.take_append_eq_append_take]

/-- A buffer holding `s` is `s`, a NUL, and whatever follows. -/
theorem Holds.eq_append {buf s : List Char} (h : Holds buf s) :
    buf = s ++ '\x00' :: buf.drop (s.length + 1) := by
  conv_lhs => rw [← List.take_append_drop (s.length + 1) buf]
  rw [h, List.append_assoc]
  rfl

/-- Read up to its NUL, as `open` reads a path, a buffer holding a string without NUL gives that
string. -/
theorem Holds.takeWhile_ne_nul {buf s : List Char} (h : Holds buf s) (hs : '\x00' ∉ s) :
    buf.takeWhile (· != '\x00') = s := by
  have hne : ∀ c ∈ s, (c != '\x00') = true := fun c hc =>
    bne_iff_ne.mpr fun (he : c = '\x00') => hs (he ▸ hc)
  rw [h.eq_append, List.takeWhile_append_of_pos hne, List.takeWhile_cons_of_neg (by decide),
    List.append_nil]

/-- Storing `s` and a NUL over the front of `x :: r` keeps the length. -/
theorem length_append_cons_drop (s r : List Char) (x : Char) (h : s.length ≤ r.length) :
    (s ++ x :: r.drop s.length).length = r.length + 1 := by
  simp only [List.length_append, List.length_cons, List.length_drop]; omega

/-- Truncating the first part before appending does not change the truncated whole. -/
theorem take_take_append (l r : List Char) (n : Nat) :
    (l.take n ++ r).take n = (l ++ r).take n := by
  rcases le_or_lt l.length n with h | h
  · rw [List.take_of_length_le h]
  · have hn : n ≤ (l.take n).length := by simp only [List.length_take]; omega
    rw [List.take_append_of_le_length hn, List.take_append_of_le_length h.le, List.take_take,
      Nat.min_self]

/-- Storing `s` and a NUL over the front of `d :: ds` leaves every byte from index `n` on, for
any `n` past the NUL. -/
theorem drop_append_cons_drop (d : Char) (ds s : List Char) {n : Nat} (hs : s.length < n) :
    (s ++ '\x00' :: ds.drop s.length).drop n = (d :: ds).drop n := by
  obtain ⟨m, rfl⟩ : ∃ m, n = m + 1 := ⟨n - 1, by omega⟩
  rw [List.drop_append_eq_append_drop, List.drop_eq_nil_of_le (by omega), List.nil_append,
    show m + 1 - s.length = (m - s.length) + 1 by omega, List.drop_succ_cons, List.drop_drop,
    List.drop_succ_cons]
  congr 1
  omega

/-- A list with `x` in it splits at its first `x`. -/
theorem exists_first_eq {l : List Char} {x : Char} (h : x ∈ l) :
    ∃ k v, l = k ++ x :: v ∧ x ∉ k := by
  induction l with
  | nil => cases h
  | cons c l ih =>
    by_cases hc : c = x
    · exact ⟨[], l, by rw [hc]; rfl, List.not_mem_nil _⟩
    · obtain ⟨k, v, rfl, hk⟩ := ih ((List.mem_cons.mp h).resolve_left (Ne.symm hc))
      exact ⟨c :: k, v, rfl, List.not_mem_cons_of_ne_of_not_mem (Ne.symm hc) hk⟩

/-- `strlen` of a buffer with no NUL reads past its end. -/
theorem strlenBuf_eq_none {buf : List Char} (h : '\x00' ∉ buf) : strlenBuf buf = none := by
  induction buf with
  | nil => rfl
  | cons c cs ih =>
    rw [strlenBuf, if_neg fun hc : c = '\x00' => h (hc ▸ List.mem_cons_self c cs),
      ih fun hm => h (List.mem_cons_of_mem c hm)]
    rfl

/-! ### The two functions -/

theorem mystrcpyBuf_eq {d : Char} {ds : List Char} {dstSize : Nat} (h1 : 1 ≤ dstSize)
    (hsize : dstSize ≤ ds.length + 1) (src : List Char) :
    mystrcpyBuf (d :: ds) dstSize src =
      some (src.take (dstSize - 1) ++ '\x00' :: ds.drop (src.take (dstSize - 1)).length) := by
  have hlen : (if src.length ≥ dstSize then dstSize - 1 else src.length) =
      (src.take (dstSize - 1)).length := by
    simp only [List.length_take]; split <;> omega
  have htake : src.take (if src.length ≥ dstSize then dstSize - 1 else src.length) =
      src.take (dstSize - 1) := by
    split
    · rfl
    · rw [List.take_of_length_le (le_refl _), List.take_of_length_le (by omega)]
  have hw : writeByte (d :: ds) 0 '\x00' = some ([] ++ '\x00' :: ds) := writeByte_append [] ds d _
  have hs : (src.take (dstSize - 1)).length < ('\x00' :: ds).length := by
    simp only [List.length_take, List.length_cons]; omega
  unfold mystrcpyBuf
  simp only [if_neg (show ¬ dstSize < 1 by omega), Option.bind_eq_bind, hw, Option.some_bind]
  rw [htake, hlen]
  simpa only [List.nil_append, List.length_nil, Nat.zero_add, List.drop_succ_cons]
    using memcpyAt_bind_nul [] _ _ hs

theorem mystrcatBuf_eq {c rest : List Char} {dstSize : Nat} (hc : '\x00' ∉ c)
    (hcs : c.length < dstSize) (hsize : dstSize ≤ c.length + rest.length + 1) (src : List Char) :
    mystrcatBuf (c ++ '\x00' :: rest) dstSize src =
      some (c ++ src.take (dstSize - 1 - c.length) ++
        '\x00' :: rest.drop (src.take (dstSize - 1 - c.length)).length) := by
  have hlen : (if src.length > dstSize - 1 - c.length then dstSize - 1 - c.length
      else src.length) = (src.take (dstSize - 1 - c.length)).length := by
    simp only [List.length_take]; split <;> omega
  have htake : src.take (if src.length > dstSize - 1 - c.length then dstSize - 1 - c.length
      else src.length) = src.take (dstSize - 1 - c.length) := by
    split
    · rfl
    · rw [List.take_of_length_le (le_refl _), List.take_of_length_le (by omega)]
  unfold mystrcatBuf
  simp only [if_neg (show ¬ dstSize < 1 by omega), Option.bind_eq_bind,
    strlenBuf_append c rest hc, Option.some_bind, if_neg (show ¬ c.length ≥ dstSize by omega)]
  rw [htake, hlen]
  split_ifs with hnil hpos
  · simp [List.length_eq_zero.mp (Nat.lt_one_iff.mp hnil)]
  · have hs : (src.take (dstSize - 1 - c.length)).length < ('\x00' :: rest).length := by
      simp only [List.length_take, List.length_cons]; omega
    simpa only [List.drop_succ_cons] using memcpyAt_bind_nul c _ _ hs
  · simp [List.length_eq_zero.mp (Nat.eq_zero_of_not_pos hpos)]

/-! ### What the buffer holds -/

theorem mystrcpyBuf_holds {dst : List Char} {dstSize : Nat} (h1 : 1 ≤ dstSize)
    (hsize : dstSize ≤ dst.length) (src : List Char) :
    ∃ buf, mystrcpyBuf dst dstSize src = some buf ∧ buf.length = dst.length ∧
      Holds buf (src.take (dstSize - 1)) := by
  obtain ⟨d, ds, rfl⟩ := List.exists_cons_of_length_pos (show 0 < dst.length by omega)
  have hs : (src.take (dstSize - 1)).length ≤ ds.length := by
    simp only [List.length_take, List.length_cons] at hsize ⊢; omega
  exact ⟨_, mystrcpyBuf_eq h1 hsize src, length_append_cons_drop _ _ _ hs, holds_append _ _⟩

theorem mystrcatBuf_holds {dst c : List Char} {dstSize : Nat} (hc : '\x00' ∉ c)
    (hcs : c.length < dstSize) (hsize : dstSize ≤ dst.length) (hd : Holds dst c)
    (src : List Char) :
    ∃ buf, mystrcatBuf dst dstSize src = some buf ∧ buf.length = dst.length ∧
      Holds buf ((c ++ src).take (dstSize - 1)) := by
  obtain ⟨rest, rfl⟩ : ∃ rest, dst = c ++ '\x00' :: rest := ⟨_, hd.eq_append⟩
  simp only [List.length_append, List.length_cons] at hsize
  have hs : (src.take (dstSize - 1 - c.length)).length ≤ rest.length := by
    simp only [List.length_take]; omega
  have htake : (c ++ src).take (dstSize - 1) = c ++ src.take (dstSize - 1 - c.length) := by
    rw [List.take_append_eq_append_take, List.take_of_length_le (by omega)]
  refine ⟨_, mystrcatBuf_eq hc hcs (by omega) src, ?_, ?_⟩
  · simp only [List.append_assoc, List.length_append, List.cons_append, List.length_cons,
      List.length_drop] at hs ⊢
    omega
  · rw [htake]; exact holds_append _ _

/-- The bytes `mystrcpy` leaves hold the string that `Util.CString`'s `mystrcpy` gives, for any
string `s` the buffer held before: the byte level refines the string level. -/
theorem mystrcpyBuf_refines {dst s : List Char} {dstSize : Nat} (hs : Holds dst s)
    (hsize : dstSize ≤ dst.length) (src : List Char) :
    ∃ buf, mystrcpyBuf dst dstSize src = some buf ∧ Holds buf (mystrcpy s dstSize src) := by
  by_cases h0 : dstSize < 1
  · exact ⟨dst, if_pos h0, by rwa [mystrcpy, if_pos h0]⟩
  · obtain ⟨buf, hbuf, -, hh⟩ := mystrcpyBuf_holds (by omega) hsize src
    exact ⟨buf, hbuf, by rwa [mystrcpy_eq s (by omega)]⟩

theorem mystrcpy_mystrcat_take {dstSize : Nat} (h1 : 1 ≤ dstSize) {a : List Char}
    (ha : '\x00' ∉ a) (b : List Char) :
    (∀ dst : List Char, dst.length = dstSize → ∃ buf, mystrcpyBuf dst dstSize a = some buf ∧
      buf.length = dstSize ∧ Holds buf (a.take (dstSize - 1))) ∧
    (∀ dst c : List Char, '\x00' ∉ c → c.length < dstSize → dst.length = dstSize → Holds dst c →
      ∃ buf, mystrcatBuf dst dstSize b = some buf ∧ buf.length = dstSize ∧
        Holds buf ((c ++ b).take (dstSize - 1))) ∧
    (∀ dst : List Char, dst.length = dstSize → ∃ buf,
      ((mystrcpyBuf dst dstSize a).bind fun dst => mystrcatBuf dst dstSize b) = some buf ∧
        buf.length = dstSize ∧ Holds buf ((a ++ b).take (dstSize - 1))) := by
  refine ⟨fun dst hd => ?_, fun dst c hc hcs hd hh => ?_, fun dst hd => ?_⟩
  · obtain ⟨buf, hbuf, hl, hh⟩ := mystrcpyBuf_holds h1 hd.ge a
    exact ⟨buf, hbuf, hl.trans hd, hh⟩
  · obtain ⟨buf, hbuf, hl, hh⟩ := mystrcatBuf_holds hc hcs hd.ge hh b
    exact ⟨buf, hbuf, hl.trans hd, hh⟩
  · obtain ⟨buf₁, hbuf₁, hl₁, hh₁⟩ := mystrcpyBuf_holds h1 hd.ge a
    have hc : '\x00' ∉ a.take (dstSize - 1) := fun h => ha (List.mem_of_mem_take h)
    have hcs : (a.take (dstSize - 1)).length < dstSize := by
      simp only [List.length_take]; omega
    have hl₁' : buf₁.length = dstSize := hl₁.trans hd
    obtain ⟨buf₂, hbuf₂, hl₂, hh₂⟩ := mystrcatBuf_holds hc hcs hl₁'.ge hh₁ b
    refine ⟨buf₂, by rw [hbuf₁, Option.some_bind, hbuf₂], hl₂.trans hl₁', ?_⟩
    rwa [take_take_append] at hh₂

/-- Four bytes, `"ab"` then `"cde"`: the buffer ends up holding `"abc"`. -/
theorem mystrcpy_mystrcat_take_abc : ∃ buf,
    ((mystrcpyBuf (List.replicate 4 'z') 4 ['a', 'b']).bind
      fun dst => mystrcatBuf dst 4 ['c', 'd', 'e']) = some buf ∧
    buf.length = 4 ∧ Holds buf ['a', 'b', 'c'] :=
  (@mystrcpy_mystrcat_take 4 (by decide) ['a', 'b'] (by decide) ['c', 'd', 'e']).2.2 _ rfl

/-! ### Stores stay below `dstSize` -/

/-- **The contract of `mystrcpy`.** Into a buffer of at least `dstSize ≥ 1` bytes, the call stores
only in its first `dstSize` bytes, and leaves there `src` cut to `dstSize - 1` characters and a
NUL. -/
theorem mystrcpyBuf_confined {dst : List Char} {dstSize : Nat} (h1 : 1 ≤ dstSize)
    (hsize : dstSize ≤ dst.length) (src : List Char) :
    ∃ buf, mystrcpyBuf dst dstSize src = some buf ∧ buf.length = dst.length ∧
      buf.drop dstSize = dst.drop dstSize ∧ Holds buf (src.take (dstSize - 1)) := by
  obtain ⟨d, ds, rfl⟩ := List.exists_cons_of_length_pos (show 0 < dst.length by omega)
  have hs : (src.take (dstSize - 1)).length < dstSize := by simp only [List.length_take]; omega
  exact ⟨_, mystrcpyBuf_eq h1 hsize src,
    length_append_cons_drop _ _ _ (by simp only [List.length_cons] at hsize; omega),
    drop_append_cons_drop d ds _ hs, holds_append _ _⟩

/-- Five bytes, the first three given to `mystrcpy` of `"abcd"`: `"ab"` and a NUL, the last two
bytes kept. -/
theorem mystrcpyBuf_confined_cut : ∃ buf,
    mystrcpyBuf (List.replicate 5 'z') 3 ['a', 'b', 'c', 'd'] = some buf ∧ buf.length = 5 ∧
      buf.drop 3 = (List.replicate 5 'z').drop 3 ∧ Holds buf (['a', 'b', 'c', 'd'].take (3 - 1)) :=
  mystrcpyBuf_confined (by decide) (by decide) _

/-- `mystrcat` into a buffer whose string does not fit in `dstSize` bytes leaves it. -/
theorem mystrcatBuf_of_le {c rest : List Char} (hc : '\x00' ∉ c) {dstSize : Nat}
    (h1 : 1 ≤ dstSize) (hle : dstSize ≤ c.length) (src : List Char) :
    mystrcatBuf (c ++ '\x00' :: rest) dstSize src = some (c ++ '\x00' :: rest) := by
  unfold mystrcatBuf
  simp only [if_neg (show ¬ dstSize < 1 by omega), Option.bind_eq_bind, strlenBuf_append c rest hc,
    Option.some_bind, if_pos (show c.length ≥ dstSize by omega)]

/-- **The contract of `mystrcat`.** Into a buffer of at least `dstSize ≥ 1` bytes that holds a C
string `c`, the call stores only in the first `dstSize` bytes. When `c` is shorter than `dstSize`
the buffer then holds `c ++ src` cut to `dstSize - 1` characters; otherwise it is left. -/
theorem mystrcatBuf_confined {c rest : List Char} (hc : '\x00' ∉ c) {dstSize : Nat}
    (h1 : 1 ≤ dstSize) (hsize : dstSize ≤ c.length + rest.length + 1) (src : List Char) :
    ∃ buf, mystrcatBuf (c ++ '\x00' :: rest) dstSize src = some buf ∧
      buf.length = c.length + rest.length + 1 ∧
      buf.drop dstSize = (c ++ '\x00' :: rest).drop dstSize ∧
      (c.length < dstSize → Holds buf ((c ++ src).take (dstSize - 1))) ∧
      (dstSize ≤ c.length → buf = c ++ '\x00' :: rest) := by
  by_cases hcs : c.length < dstSize
  · obtain ⟨buf, hbuf, hlen, hh⟩ := mystrcatBuf_holds hc hcs
      (by simpa only [List.length_append, List.length_cons, ← Nat.add_assoc] using hsize)
      (holds_append c rest) src
    have ht : (src.take (dstSize - 1 - c.length)).length < dstSize - c.length := by
      simp only [List.length_take]; omega
    refine ⟨buf, hbuf, by simpa only [List.length_append, List.length_cons, ← Nat.add_assoc]
      using hlen, ?_, fun _ => hh, fun h => absurd h (by omega)⟩
    have hd (X : List Char) : (c ++ X).drop dstSize = X.drop (dstSize - c.length) := by
      rw [List.drop_append_eq_append_drop, List.drop_eq_nil_of_le (by omega), List.nil_append]
    rw [Option.some.inj (hbuf.symm.trans (mystrcatBuf_eq hc hcs (by omega) src)),
      List.append_assoc, hd, hd]
    exact drop_append_cons_drop '\x00' rest _ ht
  · exact ⟨_, mystrcatBuf_of_le hc h1 (by omega) src,
      by simp only [List.length_append, List.length_cons]; omega, rfl, fun h => absurd h hcs,
      fun _ => rfl⟩

/-- Six bytes holding `"ab"`, the first four given to `mystrcat` of `"cde"`: `"abc"` and a NUL,
the last two bytes kept. -/
theorem mystrcatBuf_confined_cut : ∃ buf,
    mystrcatBuf (['a', 'b'] ++ '\x00' :: ['z', 'z', 'z']) 4 ['c', 'd', 'e'] = some buf ∧
      buf.length = 2 + 3 + 1 ∧
      buf.drop 4 = (['a', 'b'] ++ '\x00' :: ['z', 'z', 'z']).drop 4 ∧
      (2 < 4 → Holds buf ((['a', 'b'] ++ ['c', 'd', 'e']).take (4 - 1))) ∧
      (4 ≤ 2 → buf = ['a', 'b'] ++ '\x00' :: ['z', 'z', 'z']) :=
  mystrcatBuf_confined (by decide) (by decide) (by decide) _

/-- **`mystrcat` reads before it checks.** On a buffer of at least `dstSize ≥ 1` bytes the call
faults exactly when the buffer holds no NUL: `strlen(dst)` runs before the test
`dstLen >= dstSize`, so the size guards nothing of that read. -/
theorem mystrcatBuf_eq_none_iff {dst : List Char} {dstSize : Nat} (h1 : 1 ≤ dstSize)
    (hsize : dstSize ≤ dst.length) (src : List Char) :
    mystrcatBuf dst dstSize src = none ↔ '\x00' ∉ dst := by
  constructor
  · intro hnone hnul
    obtain ⟨c, rest, rfl, hc⟩ := exists_first_eq hnul
    by_cases hcs : c.length < dstSize
    · rw [mystrcatBuf_eq hc hcs (by simpa only [List.length_append, List.length_cons,
        ← Nat.add_assoc] using hsize) src] at hnone
      cases hnone
    · rw [mystrcatBuf_of_le hc h1 (by omega) src] at hnone
      cases hnone
  · intro hnul
    unfold mystrcatBuf
    rw [if_neg (by omega), Option.bind_eq_bind, strlenBuf_eq_none hnul, Option.none_bind]

/-- Two bytes with no NUL, one given to `mystrcat`: `strlen` runs off the buffer. -/
theorem mystrcatBuf_eq_none_iff_unterminated :
    (mystrcatBuf ['a', 'b'] 1 ['c'] = none ↔ '\x00' ∉ ['a', 'b']) ∧ '\x00' ∉ ['a', 'b'] :=
  ⟨mystrcatBuf_eq_none_iff (by decide) (by decide) _, by decide⟩

end PmLogDaemon
