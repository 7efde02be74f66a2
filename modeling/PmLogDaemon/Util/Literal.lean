import PmLogDaemon.Util.Number

/-!
# What `ParseInt` accepts: a C integer constant

`ParseInt` (`src/src/util.c:353-368`) calls `strtol(valStr, &endptr, 0)` and accepts when
`endptr` moved, stopped on the NUL and `errno` is not `ERANGE`; it then stores `(int) n`. This
module says which strings those are, against the grammar of a C integer constant.

* `IntConstant K k`: `K` is a constant without suffix and `k` its value. A decimal constant
  starts with a nonzero digit, an octal one with `0`, a hexadecimal one with `0x` or `0X` and
  at least one hex digit.
* `IsIntLiteral v m`: `v` is blanks (`isspace`), an optional sign and a constant, with nothing
  after, and `m` is its signed value (`signedValue`).

Results:
* `strtol_literal`: `strtol` in base 0 reads such a string whole, and returns its value clamped
  to the `long` range, with `ERANGE` exactly when it was clamped.
* `literal_of_parseInt`: conversely, every NUL-free string `ParseInt` accepts has that shape.
* `parseInt_eq_some_iff`: `ParseInt` accepts `v` and stores `n` iff `v` is a literal whose
  value `m` fits a `w`-bit `long`, and then `n` is `m` taken modulo 2^32 into `int`.
  `parseInt_long32_iff`: with a 32-bit `long` that is the literals of value in `int`, stored as
  they are; with a 64-bit `long` the values between the two ranges are accepted and narrowed.
-/

namespace PmLogDaemon

/-- A C integer constant without suffix, with its value. -/
inductive IntConstant : List Char → Nat → Prop
  | decimal {d : Char} {ds : List Char} (hd : d ≠ '0')
      (hdigits : ∀ c ∈ d :: ds, isDigitOf 10 c = true) :
      IntConstant (d :: ds) (ofDigits 10 (d :: ds))
  | octal {ds : List Char} (hdigits : ∀ c ∈ ds, isDigitOf 8 c = true) :
      IntConstant ('0' :: ds) (ofDigits 8 ds)
  | hex {x : Char} {ds : List Char} (hx : x = 'x' ∨ x = 'X') (hne : ds ≠ [])
      (hdigits : ∀ c ∈ ds, isDigitOf 16 c = true) :
      IntConstant ('0' :: x :: ds) (ofDigits 16 ds)

/-- The value of the constant `k` after the sign `S`. -/
def signedValue (S : List Char) (k : Nat) : Int := if S = ['-'] then -(k : Int) else k

/-- `v` is blanks, an optional sign and a C integer constant, with nothing after; `m` is its
value. -/
def IsIntLiteral (v : List Char) (m : Int) : Prop :=
  ∃ W S K k, v = W ++ S ++ K ∧ (∀ c ∈ W, isspace c = true) ∧
    (S = [] ∨ S = ['+'] ∨ S = ['-']) ∧ IntConstant K k ∧ m = signedValue S k

/-! ### Digits -/

theorem isDigitOf_toNat {b : Nat} {c : Char} (hb : b ≤ 10) (h : isDigitOf b c = true) :
    48 ≤ c.toNat ∧ c.toNat < 48 + b := by
  unfold isDigitOf digitVal at h
  split_ifs at h with h1 h2 h3 <;>
    simp only [Option.any_some, Option.any_none, decide_eq_true_eq, Bool.false_eq_true] at h
  · exact ⟨h1.1, by omega⟩
  · exact absurd h2.1 (by omega)
  · exact absurd h3.1 (by omega)

/-- A decimal digit is not a blank, not a sign and not an `x`. -/
theorem digit_ne {c : Char} (h : 48 ≤ c.toNat ∧ c.toNat < 58) :
    isspace c = false ∧ c ≠ '-' ∧ c ≠ '+' ∧ c.toUpper ≠ 'X' := by
  refine ⟨?_, fun e => absurd h (by rw [e]; decide), fun e => absurd h (by rw [e]; decide),
    fun e => ?_⟩
  · cases hs : isspace c
    · rfl
    · simp only [isspace, Bool.or_eq_true, decide_eq_true_eq] at hs
      rcases hs with ((((rfl | rfl) | rfl) | rfl) | rfl) | rfl <;> exact absurd h (by decide)
  · have := congrArg Char.toNat e
    rw [toUpper_toNat, if_neg (by omega)] at this
    exact absurd this (by rw [show 'X'.toNat = 88 from rfl]; omega)

theorem toUpper_eq_X {c : Char} (h : c.toUpper = 'X') : c = 'x' ∨ c = 'X' := by
  have := congrArg Char.toNat h
  rw [toUpper_toNat, show 'X'.toNat = 88 from rfl] at this
  split_ifs at this
  · left; rw [← Char.ofNat_toNat c, show c.toNat = 120 by omega]
  · right; rw [← Char.ofNat_toNat c, this]

theorem ofDigits_cons_zero (b : Nat) (ds : List Char) : ofDigits b ('0' :: ds) = ofDigits b ds := by
  simp only [ofDigits, List.foldl_cons, show digitVal '0' = some 0 by decide, Option.getD_some,
    Nat.zero_mul, Nat.add_zero]

/-- Every constant starts with a decimal digit. -/
theorem IntConstant.head_digit {K : List Char} {k : Nat} (hK : IntConstant K k) :
    ∃ d t, K = d :: t ∧ 48 ≤ d.toNat ∧ d.toNat < 58 := by
  cases hK with
  | decimal _ hdigits =>
    exact ⟨_, _, rfl, isDigitOf_toNat le_rfl (hdigits _ (List.mem_cons_self _ _))⟩
  | octal _ => exact ⟨_, _, rfl, by decide⟩
  | hex _ _ _ => exact ⟨_, _, rfl, by decide⟩

/-! ### `strtol` on a literal -/

theorem strtolSign_append {S t : List Char} {d : Char} (hS : S = [] ∨ S = ['+'] ∨ S = ['-'])
    (hd : d ≠ '-' ∧ d ≠ '+') :
    strtolSign (S ++ d :: t) = (decide (S = ['-']), S.length, d :: t) := by
  rcases hS with rfl | rfl | rfl
  · unfold strtolSign
    split
    · rename_i heq; exact absurd (List.cons.inj heq).1 hd.1
    · rename_i heq; exact absurd (List.cons.inj heq).1 hd.2
    · rfl
  · rfl
  · rfl

/-- `strtol`'s prefix stage on a constant: the base, the length of a `0x`, and the digits left,
all of them digits of the base and worth the constant's value. -/
theorem strtolPrefix_of_intConstant {K : List Char} {k : Nat} (hK : IntConstant K k) :
    ∃ b pfx, strtolPrefix 0 K = (b, pfx, K.drop pfx) ∧ K.drop pfx ≠ [] ∧
      (∀ c ∈ K.drop pfx, isDigitOf b c = true) ∧ ofDigits b (K.drop pfx) = k := by
  cases hK with
  | decimal hd hdigits =>
    refine ⟨10, 0, ?_, List.cons_ne_nil _ _, hdigits, rfl⟩
    simp [strtolPrefix, hd]
  | @octal ds hdigits =>
    have hx : ¬ (deref ds).toUpper = 'X' := by
      cases ds with
      | nil => decide
      | cons c t =>
        have hc := isDigitOf_toNat (by norm_num) (hdigits c (List.mem_cons_self c t))
        exact (digit_ne ⟨hc.1, by omega⟩).2.2.2
    refine ⟨8, 0, ?_, List.cons_ne_nil _ _, ?_, ofDigits_cons_zero _ _⟩
    · simp [strtolPrefix, hx]
    · intro c hc
      rcases List.mem_cons.mp hc with rfl | hc
      · decide
      · exact hdigits c hc
  | hex hx hne hdigits =>
    refine ⟨16, 2, ?_, hne, hdigits, rfl⟩
    rcases hx with rfl | rfl <;> simp [strtolPrefix]

/-- **`strtol` reads a literal whole.** Base 0 reads blanks, sign and constant to the end, and
returns the signed value clamped to a `w`-bit `long`, with `ERANGE` when it was clamped. -/
theorem strtol_literal (w : Nat) {W S K : List Char} {k : Nat} (hW : ∀ c ∈ W, isspace c = true)
    (hS : S = [] ∨ S = ['+'] ∨ S = ['-']) (hK : IntConstant K k) :
    strtol w 0 (W ++ S ++ K) =
      if signedValue S k < -2 ^ (w - 1) then (-2 ^ (w - 1), (W ++ S ++ K).length, true)
      else if 2 ^ (w - 1) - 1 < signedValue S k then
        (2 ^ (w - 1) - 1, (W ++ S ++ K).length, true)
      else (signedValue S k, (W ++ S ++ K).length, false) := by
  obtain ⟨b, pfx, hp, hne, hall, hval⟩ := strtolPrefix_of_intConstant hK
  obtain ⟨d, t, rfl, hd⟩ := hK.head_digit
  have hdn := digit_ne hd
  have hws : (W ++ S ++ d :: t).takeWhile isspace = W := by
    rw [List.append_assoc, List.takeWhile_append_of_pos hW]
    rcases hS with rfl | rfl | rfl <;> simp [hdn.1] <;> rfl
  have hpfx : pfx < (d :: t).length :=
    Nat.lt_of_not_le fun h => hne (List.drop_eq_nil_of_le h)
  unfold strtol
  rw [hws, List.append_assoc]
  dsimp only
  rw [List.drop_left, strtolSign_append hS ⟨hdn.2.1, hdn.2.2.1⟩]
  dsimp only
  rw [hp]
  dsimp only
  rw [List.takeWhile_eq_self_iff.mpr hall, if_neg hne, hval]
  have hlen : W.length + S.length + pfx + ((d :: t).drop pfx).length =
      (W ++ (S ++ d :: t)).length := by
    simp only [List.length_append, List.length_drop]; omega
  simp only [hlen, signedValue, decide_eq_true_eq]

theorem parseInt_literal (w : Nat) {W S K : List Char} {k : Nat}
    (hW : ∀ c ∈ W, isspace c = true) (hS : S = [] ∨ S = ['+'] ∨ S = ['-'])
    (hK : IntConstant K k) :
    parseInt w (W ++ S ++ K) =
      if -2 ^ (w - 1) ≤ signedValue S k ∧ signedValue S k < 2 ^ (w - 1) then
        some ((signedValue S k).bmod (2 ^ 32))
      else none := by
  have hend : (W ++ S ++ K).length ≠ 0 ∧
      deref ((W ++ S ++ K).drop (W ++ S ++ K).length) = '\x00' := by
    obtain ⟨d, t, rfl, -⟩ := hK.head_digit
    simp
  unfold parseInt
  rw [strtol_literal w hW hS hK]
  by_cases hlo : signedValue S k < -2 ^ (w - 1)
  · rw [if_pos hlo, if_neg (by omega)]
    exact if_pos (.inr (.inr rfl))
  · by_cases hhi : 2 ^ (w - 1) - 1 < signedValue S k
    · rw [if_neg hlo, if_pos hhi, if_neg (by omega)]
      exact if_pos (.inr (.inr rfl))
    · rw [if_neg hlo, if_neg hhi, if_pos (by omega)]
      exact if_neg (by simp only [hend, ne_eq, not_true_eq_false, Bool.false_eq_true, or_self,
        not_false_eq_true])

/-! ### What `ParseInt` accepts is a literal -/

/-- The sign `strtol` reads is one of the three of a literal. -/
theorem strtolSign_eq (r : List Char) :
    ∃ S, (S = [] ∨ S = ['+'] ∨ S = ['-']) ∧ r = S ++ (strtolSign r).2.2 ∧
      (strtolSign r).2.1 = S.length := by
  unfold strtolSign
  split
  · exact ⟨['-'], .inr (.inr rfl), rfl, rfl⟩
  · exact ⟨['+'], .inr (.inl rfl), rfl, rfl⟩
  · exact ⟨[], .inl rfl, rfl, rfl⟩

/-- A string whose prefix stage leaves digits of the base only, at least one, is a constant. -/
theorem intConstant_of_strtolPrefix {s s' : List Char} {b pfx : Nat}
    (hp : strtolPrefix 0 s = (b, pfx, s')) (hne : s' ≠ [])
    (hall : ∀ c ∈ s', isDigitOf b c = true) : IntConstant s (ofDigits b s') := by
  unfold strtolPrefix at hp
  simp only [true_or, true_and, if_true] at hp
  by_cases hx : deref s = '0' ∧ (deref s.tail).toUpper = 'X'
  · rw [if_pos hx, Prod.mk.injEq, Prod.mk.injEq] at hp
    obtain ⟨rfl, rfl, rfl⟩ := hp
    obtain ⟨h0, hX⟩ := hx
    rcases s with _ | ⟨c, _ | ⟨x, t⟩⟩
    · exact absurd h0 (by decide)
    · exact absurd hX (by simp only [List.tail_cons, deref_nil]; decide)
    · obtain rfl : c = '0' := h0
      exact .hex (toUpper_eq_X hX) hne hall
  · rw [if_neg hx] at hp
    by_cases h0 : deref s = '0'
    · rw [if_pos h0, Prod.mk.injEq, Prod.mk.injEq] at hp
      obtain ⟨rfl, rfl, rfl⟩ := hp
      rw [eq_cons_of_deref_eq (show '0' ≠ '\x00' by decide) h0] at hall ⊢
      rw [ofDigits_cons_zero]
      exact .octal fun c hc => hall c (List.mem_cons_of_mem _ hc)
    · rw [if_neg h0, Prod.mk.injEq, Prod.mk.injEq] at hp
      obtain ⟨rfl, rfl, rfl⟩ := hp
      obtain ⟨d, t, rfl⟩ := List.exists_cons_of_ne_nil hne
      exact .decimal h0 hall

/-- **What `ParseInt` accepts.** A NUL-free string it accepts is blanks, a sign and a constant
with nothing after. -/
theorem literal_of_parseInt {w : Nat} {v : List Char} {n : Int} (hv : '\x00' ∉ v)
    (h : parseInt w v = some n) :
    ∃ W S K k, v = W ++ S ++ K ∧ (∀ c ∈ W, isspace c = true) ∧
      (S = [] ∨ S = ['+'] ∨ S = ['-']) ∧ IntConstant K k := by
  obtain ⟨hne0, hnil⟩ := parseInt_endp h hv
  -- the stages of `strtol`: blanks `W`, sign `S`, prefix `P`, then the digits of `s'`
  have hWs : ∀ c ∈ v.takeWhile isspace, isspace c = true :=
    List.all_eq_true.mp List.all_takeWhile
  have hv' := List.takeWhile_append_dropWhile isspace v
  unfold strtol at hne0 hnil
  dsimp only at hne0 hnil
  generalize v.takeWhile isspace = W at hWs hv' hne0 hnil
  generalize v.dropWhile isspace = r at hv'
  subst hv'
  rw [List.drop_left] at hne0 hnil
  obtain ⟨S, hS, hrS, hsgn⟩ := strtolSign_eq r
  generalize strtolSign r = sg at hrS hsgn hne0 hnil
  obtain ⟨neg, sgn, s⟩ := sg
  dsimp only at hrS hsgn hne0 hnil
  subst hrS hsgn
  obtain ⟨P, hsP, hPl, -, -⟩ := strtolPrefix_split (Nat.zero_le 16) s
  generalize hp : strtolPrefix 0 s = pf at hsP hPl hne0 hnil
  obtain ⟨b, pfx, s'⟩ := pf
  dsimp only at hsP hPl hne0 hnil
  simp only [apply_ite (fun r : Int × Nat × Bool => r.2.1), ite_self] at hne0 hnil
  by_cases hds : s'.takeWhile (isDigitOf b) = []
  · -- no digit: `endptr` is the start, or the `x` of a bare `0x`, which is not the end
    rw [if_pos hds] at hne0 hnil
    split_ifs at hne0 hnil with h2
    · have := congrArg List.length hnil
      simp only [hsP, List.length_drop, List.length_append, List.length_nil] at this
      omega
    · exact absurd rfl hne0
  · -- digits to the end: the prefix stage read a constant
    rw [if_neg hds] at hnil
    have hdecomp : W ++ (S ++ s) = (W ++ S ++ P ++ s'.takeWhile (isDigitOf b)) ++
        s'.dropWhile (isDigitOf b) := by
      conv_lhs => rw [hsP, ← List.takeWhile_append_dropWhile (isDigitOf b) s']
      simp only [List.append_assoc]
    rw [hdecomp, List.drop_left' (by simp only [List.length_append]; omega)] at hnil
    refine ⟨W, S, s, _, (List.append_assoc _ _ _).symm, hWs, hS,
      intConstant_of_strtolPrefix hp (fun h => hds (by rw [h]; rfl))
        (List.dropWhile_eq_nil_iff.mp hnil)⟩

/-! ### The law -/

theorem parseInt_eq_some_iff {w : Nat} {v : List Char} (hv : '\x00' ∉ v) {n : Int} :
    parseInt w v = some n ↔
      ∃ m, IsIntLiteral v m ∧ -2 ^ (w - 1) ≤ m ∧ m < 2 ^ (w - 1) ∧ n = m.bmod (2 ^ 32) := by
  constructor
  · intro h
    obtain ⟨W, S, K, k, rfl, hW, hS, hK⟩ := literal_of_parseInt hv h
    rw [parseInt_literal w hW hS hK] at h
    split_ifs at h with hr
    exact ⟨_, ⟨W, S, K, k, rfl, hW, hS, hK, rfl⟩, hr.1, hr.2, (Option.some.inj h).symm⟩
  · rintro ⟨m, ⟨W, S, K, k, rfl, hW, hS, hK, rfl⟩, hlo, hhi, rfl⟩
    rw [parseInt_literal w hW hS hK, if_pos ⟨hlo, hhi⟩]

/-- With a 64-bit `long`, `"2147483648"` fits, so it is accepted and stored as `INT_MIN`. -/
theorem parseInt_eq_some_iff_2147483648 :
    parseInt 64 ['2', '1', '4', '7', '4', '8', '3', '6', '4', '8'] = some (-2147483648) :=
  (parseInt_eq_some_iff (by decide)).mpr
    ⟨2147483648, ⟨[], [], _, _, rfl, by simp, .inl rfl, .decimal (by decide) (by decide),
      by decide⟩, by norm_num, by norm_num, by decide⟩

theorem bmod_two_pow_32_of_range {m : Int} (hlo : -2 ^ 31 ≤ m) (hhi : m < 2 ^ 31) :
    m.bmod (2 ^ 32) = m := by
  rw [Int.bmod_def]
  norm_num at hlo hhi ⊢
  split_ifs <;> omega

/-- With a 32-bit `long` the cast is the identity on what `strtol` returns without `ERANGE`:
`ParseInt` accepts exactly the literals whose value is an `int`, and stores that value. -/
theorem parseInt_long32_iff {v : List Char} (hv : '\x00' ∉ v) {n : Int} :
    parseInt 32 v = some n ↔ IsIntLiteral v n ∧ -2 ^ 31 ≤ n ∧ n < 2 ^ 31 := by
  constructor
  · intro h
    obtain ⟨W, S, K, k, rfl, hW, hS, hK⟩ := literal_of_parseInt hv h
    rw [parseInt_literal 32 hW hS hK] at h
    split_ifs at h with hr
    rw [← Option.some.inj h, bmod_two_pow_32_of_range hr.1 hr.2]
    exact ⟨⟨W, S, K, k, rfl, hW, hS, hK, rfl⟩, hr⟩
  · rintro ⟨⟨W, S, K, k, rfl, hW, hS, hK, rfl⟩, hlo, hhi⟩
    rw [parseInt_literal 32 hW hS hK, if_pos ⟨hlo, hhi⟩, bmod_two_pow_32_of_range hlo hhi]

end PmLogDaemon
