import PmLogDaemon.Util.Buffer

/-!
# `ParseKeyValue` on the bytes of its two buffers

Model of `ParseKeyValue` (`util.c:455-483`): `arg` is split at its first `=`; the key is copied
into `keyBuff` and the value into `valBuff`, each with a NUL, when they fit.

* `strchr(arg, '=')` is `arg.findIdx? (· = '=')`; the test `sepStr <= arg` holds exactly when
  the `=` is the first character.
* The stores are those of `Util.Buffer`: a store outside a buffer is `none`.

Results:
* `parseKeyValueBuf_sep`: the call on `k ++ '=' :: v` with no `=` in `k`, test by test.
* `parseKeyValueBuf_complete`: every `k=v` with a non-empty key free of `=` that fits, and a
  value that fits (which may hold `=`), is accepted, with `k` and `v` in the buffers.
* `parseKeyValueBuf_sound`: on buffers of their declared sizes the call stores only inside them,
  and it returns true only on such an argument, with its key and value in the buffers.
* `parseKeyValueBuf_false`: a false return leaves `valBuff`, and leaves `keyBuff` too unless the
  key fitted and the value did not: then the key is already in `keyBuff`.
-/

namespace PmLogDaemon

/-- `ParseKeyValue(arg, keyBuff, keyBuffSize, valBuff, valBuffSize)` (`util.c:455-483`): the
value returned and the bytes of the two buffers. -/
def parseKeyValueBuf (arg keyBuff : List Char) (keyBuffSize : Nat) (valBuff : List Char)
    (valBuffSize : Nat) : Option (Bool × List Char × List Char) :=
  match arg.findIdx? (· = '=') with
  | none => some (false, keyBuff, valBuff)
  | some keyLen =>
    if keyLen = 0 then some (false, keyBuff, valBuff)
    else if keyLen ≥ keyBuffSize then some (false, keyBuff, valBuff)
    else do
      let keyBuff ← memcpyAt keyBuff 0 (arg.take keyLen)
      let keyBuff ← writeByte keyBuff keyLen '\x00'
      let valStr := arg.drop (keyLen + 1)
      if valStr.length ≥ valBuffSize then some (false, keyBuff, valBuff)
      else do
        let valBuff ← memcpyAt valBuff 0 valStr
        let valBuff ← writeByte valBuff valStr.length '\x00'
        return (true, keyBuff, valBuff)

/-- `strchr` finds the `=` after a key free of `=`. -/
theorem findIdx?_sep (k v : List Char) (hk : '=' ∉ k) :
    (k ++ '=' :: v).findIdx? (· = '=') = some k.length := by
  induction k with
  | nil => rfl
  | cons c k ih =>
    have hc : c ≠ '=' := fun h => hk (h ▸ List.mem_cons_self c k)
    rw [List.cons_append, List.findIdx?_cons, if_neg (by simpa using hc), Nat.zero_add,
      List.findIdx?_succ, ih (fun h => hk (List.mem_cons_of_mem c h))]
    rfl

/-- `memcpy` of `s` and a NUL after it, into a buffer with room for both. -/
theorem memcpyAt_nul {buf s : List Char} (h : s.length < buf.length) :
    (memcpyAt buf 0 s).bind (writeByte · s.length '\x00') =
      some (s ++ '\x00' :: buf.drop (s.length + 1)) := by
  simpa using memcpyAt_bind_nul [] buf s h

theorem parseKeyValueBuf_no_sep {arg : List Char} (h : '=' ∉ arg) (keyBuff : List Char)
    (keyBuffSize : Nat) (valBuff : List Char) (valBuffSize : Nat) :
    parseKeyValueBuf arg keyBuff keyBuffSize valBuff valBuffSize = some (false, keyBuff, valBuff) := by
  rw [parseKeyValueBuf, List.findIdx?_eq_none_iff.mpr fun c hc =>
    decide_eq_false fun hce : c = '=' => h (hce ▸ hc)]

variable {keyBuff valBuff : List Char} {keyBuffSize valBuffSize : Nat}

/-- **The call on `k=v`**, on buffers of their declared sizes: the three tests of the code in
order, then the two copies. -/
theorem parseKeyValueBuf_sep {k : List Char} (hk : '=' ∉ k) (v : List Char)
    (hkb : keyBuff.length = keyBuffSize) (hvb : valBuff.length = valBuffSize) :
    parseKeyValueBuf (k ++ '=' :: v) keyBuff keyBuffSize valBuff valBuffSize =
      some (if k = [] ∨ k.length ≥ keyBuffSize then (false, keyBuff, valBuff)
        else if v.length ≥ valBuffSize then
          (false, k ++ '\x00' :: keyBuff.drop (k.length + 1), valBuff)
        else (true, k ++ '\x00' :: keyBuff.drop (k.length + 1),
          v ++ '\x00' :: valBuff.drop (v.length + 1))) := by
  have htake : (k ++ '=' :: v).take k.length = k := by simp
  have hdrop : (k ++ '=' :: v).drop (k.length + 1) = v := by simp
  unfold parseKeyValueBuf
  rw [findIdx?_sep k v hk]
  simp only [htake, hdrop, List.length_eq_zero]
  by_cases h0 : k = []
  · rw [if_pos h0, if_pos (.inl h0)]
  by_cases hfit : k.length ≥ keyBuffSize
  · rw [if_neg h0, if_pos hfit, if_pos (.inr hfit)]
  rw [if_neg h0, if_neg hfit, if_neg (by tauto), Option.bind_eq_bind, ← Option.bind_assoc,
    memcpyAt_nul (by omega), Option.some_bind]
  by_cases hv : v.length ≥ valBuffSize
  · rw [if_pos hv, if_pos hv]
  · rw [if_neg hv, if_neg hv, ← Option.bind_assoc, memcpyAt_nul (by omega)]
    rfl

theorem parseKeyValueBuf_complete {k v : List Char} (hk : '=' ∉ k) (hne : k ≠ [])
    (hkfit : k.length < keyBuffSize) (hvfit : v.length < valBuffSize)
    (hkb : keyBuff.length = keyBuffSize) (hvb : valBuff.length = valBuffSize) :
    ∃ kb vb, parseKeyValueBuf (k ++ '=' :: v) keyBuff keyBuffSize valBuff valBuffSize =
        some (true, kb, vb) ∧
      kb.length = keyBuffSize ∧ vb.length = valBuffSize ∧ Holds kb k ∧ Holds vb v := by
  refine ⟨k ++ '\x00' :: keyBuff.drop (k.length + 1), v ++ '\x00' :: valBuff.drop (v.length + 1),
    ?_, ?_, ?_, holds_append _ _, holds_append _ _⟩
  · rw [parseKeyValueBuf_sep hk v hkb hvb, if_neg fun h => h.elim hne fun _ => by omega,
      if_neg (by omega)]
  all_goals simp only [List.length_append, List.length_cons, List.length_drop]; omega

/-- `a=b=c` into two 4-byte buffers: the key `a`, and the value `b=c` with its `=`. -/
theorem parseKeyValueBuf_complete_abc : ∃ kb vb,
    parseKeyValueBuf (['a'] ++ '=' :: ['b', '=', 'c']) (List.replicate 4 'z') 4
        (List.replicate 4 'z') 4 = some (true, kb, vb) ∧
      kb.length = 4 ∧ vb.length = 4 ∧ Holds kb ['a'] ∧ Holds vb ['b', '=', 'c'] :=
  @parseKeyValueBuf_complete (List.replicate 4 'z') (List.replicate 4 'z') 4 4 ['a']
    ['b', '=', 'c'] (by decide) (by decide) (by decide) (by decide) rfl rfl

theorem parseKeyValueBuf_sound (arg : List Char)
    (hkb : keyBuff.length = keyBuffSize) (hvb : valBuff.length = valBuffSize) :
    ∃ r, parseKeyValueBuf arg keyBuff keyBuffSize valBuff valBuffSize = some r ∧
      (r.1 = true → ∃ k v, arg = k ++ '=' :: v ∧ '=' ∉ k ∧ k ≠ [] ∧ k.length < keyBuffSize ∧
        v.length < valBuffSize ∧ Holds r.2.1 k ∧ Holds r.2.2 v) := by
  by_cases h : '=' ∈ arg
  · obtain ⟨k, v, rfl, hk⟩ := exists_first_eq h
    refine ⟨_, parseKeyValueBuf_sep hk v hkb hvb, fun htrue => ?_⟩
    split_ifs at htrue ⊢ with h1 h2
    exact ⟨k, v, rfl, hk, by tauto, by omega, by omega, holds_append _ _, holds_append _ _⟩
  · exact ⟨_, parseKeyValueBuf_no_sep h _ _ _ _, fun h' => absurd h' Bool.false_ne_true⟩

theorem parseKeyValueBuf_sound_ab : ∃ r,
    parseKeyValueBuf ['a', '=', 'b'] (List.replicate 2 'z') 2 (List.replicate 2 'z') 2 = some r ∧
      (r.1 = true → ∃ k v, ['a', '=', 'b'] = k ++ '=' :: v ∧ '=' ∉ k ∧ k ≠ [] ∧ k.length < 2 ∧
        v.length < 2 ∧ Holds r.2.1 k ∧ Holds r.2.2 v) :=
  parseKeyValueBuf_sound ['a', '=', 'b'] rfl rfl

theorem parseKeyValueBuf_false {arg kb vb : List Char}
    (hkb : keyBuff.length = keyBuffSize) (hvb : valBuff.length = valBuffSize)
    (h : parseKeyValueBuf arg keyBuff keyBuffSize valBuff valBuffSize = some (false, kb, vb)) :
    vb = valBuff ∧ (kb = keyBuff ∨ ∃ k v, arg = k ++ '=' :: v ∧ '=' ∉ k ∧ k ≠ [] ∧
      k.length < keyBuffSize ∧ v.length ≥ valBuffSize ∧ Holds kb k) := by
  by_cases hsep : '=' ∈ arg
  · obtain ⟨k, v, rfl, hk⟩ := exists_first_eq hsep
    rw [parseKeyValueBuf_sep hk v hkb hvb, Option.some.injEq] at h
    split_ifs at h with h1 h2 <;> cases h
    · exact ⟨rfl, .inl rfl⟩
    · exact ⟨rfl, .inr ⟨k, v, rfl, hk, by tauto, by omega, h2, holds_append _ _⟩⟩
  · rw [parseKeyValueBuf_no_sep hsep, Option.some.injEq] at h
    cases h
    exact ⟨rfl, .inl rfl⟩

/-- `a=bc` with a 2-byte value buffer: false, with `a` already stored in the key buffer. -/
theorem parseKeyValueBuf_false_long_value :
    ['z', 'z'] = List.replicate 2 'z' ∧ (['a', '\x00'] = List.replicate 2 'z' ∨
      ∃ k v, ['a', '=', 'b', 'c'] = k ++ '=' :: v ∧ '=' ∉ k ∧ k ≠ [] ∧ k.length < 2 ∧
        v.length ≥ 2 ∧ Holds ['a', '\x00'] k) :=
  parseKeyValueBuf_false rfl rfl (by decide)

end PmLogDaemon
