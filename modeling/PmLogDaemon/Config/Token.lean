import PmLogDaemon.Config.Rule
import PmLogDaemon.Util.Buffer

/-!
# `GetTokenToSep` on the bytes of the token buffer

Model of `GetTokenToSep` (`config.c:146-176`) as the stores it makes into `token`, where
`Config.Rule` models it by the string it leaves.

* `token` is a buffer of `tokenBuffSize` bytes (`Util.Buffer`): a store outside it is `none`, so
  a call that returns `some` stored only at indices below `tokenBuffSize`.
* `getTokenLoopBuf` is the `while` loop: `tokenLen` and the store `token[tokenLen] = *s` as the
  code has them, one character of input per iteration. `getTokenToSepBuf` adds the closing NUL,
  `*terminatorP = *s` and the step over the terminator.
* `tokenEnd T s` is the index of the first character of `s` that is NUL or in `T` (the length of
  `s` when there is none: the end of the list is the string's NUL).

Results:
* `getTokenLoopBuf_append`: over a stretch `u` free of terminators the loop stores exactly what
  `memcpy` of the first `tokenBuffSize - 1 - tokenLen` characters of `u` stores, and stops on the
  terminator.
* `getTokenToSepBuf_tokenEnd`: for every string, terminator set and buffer of
  `tokenBuffSize ≥ 1` bytes the call stores only inside the buffer, leaves it holding the first
  `min k (tokenBuffSize - 1)` characters with `k = tokenEnd T s`, returns `s[k]` as the
  terminator, and steps to `s + k + 1`, or to `s + k` on the NUL.
* `getTokenToSepBuf_refines`: the bytes hold the token `Config.Rule`'s `getTokenToSep` returns,
  with the same terminator and rest.
-/

namespace PmLogDaemon

/-- The `while` loop of `GetTokenToSep` (`config.c:157-169`) on the bytes of `token`: returns
`tokenLen`, the buffer and the input left at the character that stopped it. -/
def getTokenLoopBuf (tokenBuffSize : Nat) (terminators : List Char) (tokenLen : Nat)
    (token : List Char) : List Char → Option (Nat × List Char × List Char)
  | [] => some (tokenLen, token, [])
  | c :: s =>
    if c = '\x00' ∨ c ∈ terminators then some (tokenLen, token, c :: s)
    else if tokenLen + 1 ≥ tokenBuffSize then
      getTokenLoopBuf tokenBuffSize terminators tokenLen token s
    else do
      let token ← writeByte token tokenLen c
      getTokenLoopBuf tokenBuffSize terminators (tokenLen + 1) token s

/-- `GetTokenToSep(&s, token, tokenBuffSize, terminators, &terminator)` (`config.c:146-176`):
the token buffer, `*terminatorP` and the new `*sP`. -/
def getTokenToSepBuf (s token : List Char) (tokenBuffSize : Nat) (terminators : List Char) :
    Option (List Char × Char × List Char) := do
  let (tokenLen, token, s) ← getTokenLoopBuf tokenBuffSize terminators 0 token s
  let token ← writeByte token tokenLen '\x00'
  return (token, deref s, skipTerminator s)

/-- The index of the first character of `s` that is NUL or in `T`. -/
def tokenEnd (T s : List Char) : Nat := s.findIdx fun c => decide (IsStop T c)

/-! ### Where the token ends -/

/-- `s` splits at `tokenEnd` into a stretch free of terminators and a rest that stops the loop. -/
theorem tokenEnd_split (T s : List Char) :
    (∀ c ∈ s.take (tokenEnd T s), ¬ IsStop T c) ∧ StopsAt T (s.drop (tokenEnd T s)) := by
  induction s with
  | nil => exact ⟨by simp, Or.inl rfl⟩
  | cons c s ih =>
    by_cases hc : IsStop T c
    · have h0 : tokenEnd T (c :: s) = 0 := by simp [tokenEnd, List.findIdx_cons, hc]
      rw [h0]
      exact ⟨by simp, Or.inr hc⟩
    · have h1 : tokenEnd T (c :: s) = tokenEnd T s + 1 := by
        simp [tokenEnd, List.findIdx_cons, hc]
      rw [h1, List.take_succ_cons, List.drop_succ_cons]
      refine ⟨fun d hd => ?_, ih.2⟩
      rcases List.mem_cons.mp hd with rfl | hd
      · exact hc
      · exact ih.1 d hd

/-! ### The loop -/

/-- Over a stretch free of terminators the loop is `memcpy` of the part that fits. -/
theorem getTokenLoopBuf_append {n : Nat} {T u rest : List Char} (hu : ∀ c ∈ u, ¬ IsStop T c)
    (hr : StopsAt T rest) (tokenLen : Nat) (token : List Char) :
    getTokenLoopBuf n T tokenLen token (u ++ rest) =
      (memcpyAt token tokenLen (u.take (n - 1 - tokenLen))).map
        fun token => (tokenLen + (u.take (n - 1 - tokenLen)).length, token, rest) := by
  induction u generalizing tokenLen token with
  | nil =>
    simp only [List.nil_append, List.take_nil, memcpyAt, Option.map_some', List.length_nil,
      Nat.add_zero]
    cases rest with
    | nil => rfl
    | cons c rest =>
      rw [getTokenLoopBuf,
        if_pos (show c = '\x00' ∨ c ∈ T from hr.resolve_left (List.cons_ne_nil _ _))]
  | cons c u ih =>
    have hc : ¬ IsStop T c := hu c (List.mem_cons_self c u)
    have ih := ih (fun d hd => hu d (List.mem_cons_of_mem c hd))
    rw [List.cons_append, getTokenLoopBuf, if_neg (show ¬ (c = '\x00' ∨ c ∈ T) from hc)]
    split_ifs with hfull
    · rw [ih, show n - 1 - tokenLen = 0 by omega]
      rfl
    · have hm : n - 1 - tokenLen = n - 1 - (tokenLen + 1) + 1 := by omega
      rw [hm, List.take_succ_cons, memcpyAt, Option.bind_eq_bind, Option.map_bind]
      congr 1
      funext token
      rw [ih, List.length_cons, Nat.add_assoc, Nat.add_comm 1]
      rfl

/-! ### The call -/

theorem getTokenToSepBuf_append {n : Nat} {T u rest token : List Char}
    (hu : ∀ c ∈ u, ¬ IsStop T c) (hr : StopsAt T rest) (h1 : 1 ≤ n) (hn : token.length = n) :
    getTokenToSepBuf (u ++ rest) token n T =
      some (u.take (n - 1) ++ '\x00' :: token.drop ((u.take (n - 1)).length + 1), deref rest,
        skipTerminator rest) := by
  have hs : (u.take (n - 1)).length < token.length := by
    simp only [List.length_take]; omega
  have hcopy := memcpyAt_bind_nul [] token (u.take (n - 1)) hs
  simp only [List.nil_append, List.length_nil, Nat.zero_add] at hcopy
  simp only [getTokenToSepBuf, getTokenLoopBuf_append hu hr, Nat.sub_zero, Nat.zero_add,
    Option.bind_eq_bind, Option.bind_map, Function.comp_def]
  rw [← Option.bind_assoc, hcopy]
  rfl

theorem getTokenToSepBuf_tokenEnd (s T token : List Char) {tokenBuffSize : Nat}
    (h1 : 1 ≤ tokenBuffSize) (hn : token.length = tokenBuffSize) :
    ∃ buf, getTokenToSepBuf s token tokenBuffSize T =
        some (buf, deref (s.drop (tokenEnd T s)),
          if deref (s.drop (tokenEnd T s)) ≠ '\x00' then s.drop (tokenEnd T s + 1)
          else s.drop (tokenEnd T s)) ∧
      buf.length = tokenBuffSize ∧ Holds buf (s.take (min (tokenEnd T s) (tokenBuffSize - 1))) := by
  obtain ⟨hu, hr⟩ := tokenEnd_split T s
  have h := getTokenToSepBuf_append hu hr h1 hn
  rw [List.take_append_drop, List.take_take, Nat.min_comm, skipTerminator, List.tail_drop] at h
  refine ⟨_, h, ?_, holds_append _ _⟩
  simp only [List.length_append, List.length_cons, List.length_drop, List.length_take]
  omega

/-- `"ab.c"` into a 2-byte buffer: the token is cut to `"a"`, the `.` is stepped over. -/
theorem getTokenToSepBuf_tokenEnd_cut : ∃ buf,
    getTokenToSepBuf ['a', 'b', '.', 'c'] (List.replicate 2 'z') 2 ['.', ','] =
      some (buf, '.', ['c']) ∧ buf.length = 2 ∧ Holds buf ['a'] :=
  getTokenToSepBuf_tokenEnd _ _ _ (by decide) rfl

/-- The bytes hold the token of `Config.Rule`'s string-level `getTokenToSep`, and the call
returns the same terminator and rest: the byte level refines the string level. -/
theorem getTokenToSepBuf_refines (s T token : List Char) {n : Nat} (h1 : 1 ≤ n)
    (hn : token.length = n) :
    ∃ buf, getTokenToSepBuf s token n T = some (buf, (getTokenToSep s n T).2) ∧
      Holds buf (getTokenToSep s n T).1 := by
  obtain ⟨hu, hr⟩ := tokenEnd_split T s
  rw [← List.take_append_drop (tokenEnd T s) s, getTokenToSep_append hu hr,
    getTokenToSepBuf_append hu hr h1 hn]
  exact ⟨_, rfl, holds_append _ _⟩

end PmLogDaemon
