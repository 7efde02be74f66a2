import PmLogDaemon.Config.Basic
import PmLogDaemon.Util.Number

/-!
# The rule parser of `config.c`: `GetTokenToSep` and `ParseContextData`

Model of the parser of a `RuleN` value, `<facility>[.[!]<level>[.<program>]],[-]<output>`
(`config.c:146-176` and `config.c:380-471`).

* `getTokenToSep s n T` returns the token stored in the `n`-byte buffer, the terminator
  `*terminatorP` and the rest `*sP`. `ParseContextData` calls it with the 32-byte `token` and the
  terminators `.,`, so every token is cut to 31 characters.
* `ParseRuleFacility` and `ParseRuleLevel` are not among the sources; they are modelled from the
  spec's token lists, `*` for any (-1) and the syslog names.
* The body of `ParseContextData` writes the rule slot `parseContextP->rules[numRules]` field by
  field as it goes (`parseRule`); only a value that parses to the end moves `numRules` on.

The grammar (`RuleText`): a value is `F ( "" | "." ["!"] L ( "" | "." P ) ) "," ["-"] O`
with `F`, `L`, `P`, `O` free of `.`, `,` and NUL. Two things of the code shape what it accepts:
every token goes through the 32-byte `token` buffer, so only its first 31 characters are read
(`RuleText.rule`); and a `!` or `-` after its separator is always the flag (`RuleText.Greedy`).

Results:
* `getTokenToSep_append`: on a token free of terminators followed by a terminator (or the end),
  the call stores the first `n - 1` characters of the token and steps over the terminator.
* One lemma per stage of the body (`parseRuleOutput_eq_true_iff`,
  `parseRuleProgram_eq_true_iff`, `parseRuleLevelPart_eq_true_iff`), and from them
  `parseRule_eq_true_iff`: on a NUL-free value the body succeeds iff the value renders a
  `RuleText` of tokens with greedy flags whose rule exists, and the slot then holds that rule.
* `parseContextData_grammar`: `ParseContextData` accepts exactly those values; accepting, it
  writes the rule in slot `numRules` and counts it; rejecting, `numRules` and the rules below it
  stay. `parseContextDataWhole_false`: read with whole tokens the law fails on every platform,
  since a 32-character program is stored cut to 31 characters.
-/

namespace PmLogDaemon

/-! ## `GetTokenToSep` -/

/-- The loop of `GetTokenToSep`: `token` holds what was stored; the rest of the input starts at
the terminator, or is empty at the end of the string. -/
def getTokenLoop (tokenBuffSize : Nat) (terminators : List Char) (token : List Char) :
    List Char → List Char × List Char
  | [] => (token, [])
  | c :: s =>
    if c = '\x00' ∨ c ∈ terminators then (token, c :: s)
    else if token.length + 1 ≥ tokenBuffSize then getTokenLoop tokenBuffSize terminators token s
    else getTokenLoop tokenBuffSize terminators (token ++ [c]) s

/-- `if (*s != 0) s++`: the step over a terminator. -/
def skipTerminator (s : List Char) : List Char := if deref s ≠ '\x00' then s.tail else s

/-- `GetTokenToSep(&s, token, tokenBuffSize, terminators, &terminator)` (`config.c:146-176`): the
token stored, the terminator, and `s` after the call. -/
def getTokenToSep (s : List Char) (tokenBuffSize : Nat) (terminators : List Char) :
    List Char × Char × List Char :=
  let (token, s) := getTokenLoop tokenBuffSize terminators [] s
  (token, deref s, skipTerminator s)

/-- `c` ends a token: NUL or one of the terminators. -/
def IsStop (terminators : List Char) (c : Char) : Prop := c = '\x00' ∨ c ∈ terminators

instance (terminators : List Char) (c : Char) : Decidable (IsStop terminators c) :=
  inferInstanceAs (Decidable (_ ∨ _))

/-- The rest after a token: empty, or starting with a stop character. -/
def StopsAt (terminators : List Char) (rest : List Char) : Prop :=
  rest = [] ∨ IsStop terminators (deref rest)

theorem getTokenLoop_append {n : Nat} {T u rest : List Char} (hu : ∀ c ∈ u, ¬ IsStop T c)
    (hr : StopsAt T rest) (acc : List Char) :
    getTokenLoop n T acc (u ++ rest) = (acc ++ u.take (n - 1 - acc.length), rest) := by
  induction u generalizing acc with
  | nil =>
    rcases hr with rfl | hr
    · simp [getTokenLoop]
    · cases rest with
      | nil => simp [getTokenLoop]
      | cons c rest => rw [List.nil_append, getTokenLoop, if_pos (show c = '\x00' ∨ c ∈ T from hr)]; simp
  | cons c u ih =>
    have hc : ¬ (c = '\x00' ∨ c ∈ T) := hu c (List.mem_cons_self c u)
    have ih := ih fun c hc => hu c (List.mem_cons_of_mem _ hc)
    rw [List.cons_append, getTokenLoop, if_neg hc]
    split
    · rw [ih, show n - 1 - acc.length = 0 by omega]; simp
    · rw [ih, show n - 1 - acc.length = n - 1 - (acc ++ [c]).length + 1 by simp; omega]
      simp

/-- **`GetTokenToSep` on a token followed by a stop.** -/
theorem getTokenToSep_append {n : Nat} {T u rest : List Char} (hu : ∀ c ∈ u, ¬ IsStop T c)
    (hr : StopsAt T rest) :
    getTokenToSep (u ++ rest) n T =
      (u.take (n - 1), deref rest, skipTerminator rest) := by
  simp [getTokenToSep, getTokenLoop_append hu hr]

/-! ## `ParseContextData` -/

/-- The syslog facilities by name, with their codes (`LOG_KERN >> 3` to `LOG_LOCAL7 >> 3`). -/
def facilityNames : List (List Char × Int) :=
  [("kern".toList, 0), ("user".toList, 1), ("mail".toList, 2), ("daemon".toList, 3),
   ("auth".toList, 4), ("syslog".toList, 5), ("lpr".toList, 6), ("news".toList, 7),
   ("uucp".toList, 8), ("cron".toList, 9), ("authpriv".toList, 10), ("ftp".toList, 11),
   ("local0".toList, 16), ("local1".toList, 17), ("local2".toList, 18), ("local3".toList, 19),
   ("local4".toList, 20), ("local5".toList, 21), ("local6".toList, 22), ("local7".toList, 23)]

/-- Modelled from the spec: `ParseRuleFacility(token, &facility)`, not among the sources: `*`
is any facility (-1), otherwise a syslog facility name; `none` when it returns false. -/
def parseRuleFacility (s : List Char) : Option Int :=
  if s = "*".toList then some (-1) else facilityNames.lookup s

/-- Modelled from the spec: `ParseRuleLevel(token, &level)`, not among the sources: `*` is any
level (-1), otherwise a severity name; `none` when it returns false. -/
def parseRuleLevel (s : List Char) : Option Int :=
  if s = "*".toList then some (-1) else levelNames.lookup s

/-- `PmLogParseRule_t` (`config.c:305-323`); `program` is the string in its buffer. -/
structure PmLogParseRule where
  facility : Int
  level : Int
  levelInvert : Bool
  program : List Char
  outputIndex : Int
  omitOutput : Bool
  deriving DecidableEq, Repr

/-- A rule slot cleared by `memset`. -/
def PmLogParseRule.zero : PmLogParseRule := ⟨0, 0, false, [], 0, false⟩

/-- `PmLogParseContext_t` (`config.c:326-334`): `rules` holds every slot of the array. -/
structure PmLogParseContext where
  name : List Char
  numRules : Nat
  bufferSize : Int
  flushLevel : Int
  rules : List PmLogParseRule
  deriving DecidableEq, Repr

/-- The terminators of every token of a rule, `".,"`. -/
def ruleSeps : List Char := ".,".toList

/-- `if (*s == c) { flag = true; s++; }`: a one-character flag, and `s` after it. -/
def readFlag (c : Char) (s : List Char) : Bool × List Char :=
  if deref s = c then (true, s.tail) else (false, s)

section Parse

variable (H : Platform) (outputs : List PmLogFile)

/-- The end of `ParseContextData` (`config.c:441-470`): the `','`, the optional `-` and the
output name, which must be the last token. -/
def parseRuleOutput (r : PmLogParseRule) (sep : Char) (s : List Char) : Bool × PmLogParseRule :=
  if sep ≠ ',' then (false, r)
  else
    let (omitOutput, s) := readFlag '-' s
    let (token, sep, _) := getTokenToSep s 32 ruleSeps
    match findOutputByName outputs token with
    | none => (false, { r with omitOutput, outputIndex := -1 })
    | some i => (decide (sep = '\x00'), { r with omitOutput, outputIndex := i })

/-- The optional program of `ParseContextData` (`config.c:430-439`). -/
def parseRuleProgram (r : PmLogParseRule) (sep : Char) (s : List Char) : Bool × PmLogParseRule :=
  if sep = '.' then
    let (token, sep, s) := getTokenToSep s 32 ruleSeps
    parseRuleOutput outputs
      { r with program := mystrcpy r.program (H.pmlogProgramMaxNameLength + 1) token } sep s
  else parseRuleOutput outputs { r with program := [] } sep s

/-- The optional level of `ParseContextData` (`config.c:407-428`). -/
def parseRuleLevelPart (r : PmLogParseRule) (sep : Char) (s : List Char) :
    Bool × PmLogParseRule :=
  if sep = '.' then
    let (levelInvert, s) := readFlag '!' s
    let r := { r with levelInvert }
    let (token, sep, s) := getTokenToSep s 32 ruleSeps
    match parseRuleLevel token with
    | none => (false, r)
    | some level => parseRuleProgram H outputs { r with level } sep s
  else parseRuleProgram H outputs { r with levelInvert := false, level := -1 } sep s

/-- The body of `ParseContextData` on its slot `*parseRuleP` (`config.c:397-466`): whether the
value parsed, and the slot as the body leaves it. -/
def parseRule (r : PmLogParseRule) (val : List Char) : Bool × PmLogParseRule :=
  let (token, sep, s) := getTokenToSep val 32 ruleSeps
  match parseRuleFacility token with
  | none => (false, r)
  | some facility => parseRuleLevelPart H outputs { r with facility } sep s

/-- `ParseContextData(parseContextP, key, val)` (`config.c:380-471`): the body on the slot
`rules[numRules]`, then `numRules++` when the value parsed (`key` is only printed). -/
def parseContextData (pc : PmLogParseContext) (val : List Char) : Bool × PmLogParseContext :=
  let (ok, r) := parseRule H outputs (pc.rules.getD pc.numRules PmLogParseRule.zero) val
  (ok, { pc with rules := pc.rules.set pc.numRules r,
                 numRules := if ok then pc.numRules + 1 else pc.numRules })

theorem take_set_self {α : Type} (l : List α) (n : Nat) (a : α) : (l.set n a).take n = l.take n := by
  rw [List.set_take, List.set_eq_of_length_le (List.length_take_le n l)]

theorem take_succ_set_self {α : Type} {l : List α} {n : Nat} (h : n < l.length) (a : α) :
    (l.set n a).take (n + 1) = l.take n ++ [a] := by
  rw [List.take_succ, take_set_self, List.getElem?_set_self (by simpa using h)]
  rfl

theorem parseContextData_fst (pc : PmLogParseContext) (val : List Char) :
    (parseContextData H outputs pc val).1 =
      (parseRule H outputs (pc.rules.getD pc.numRules PmLogParseRule.zero) val).1 := rfl

theorem parseContextData_numRules (pc : PmLogParseContext) (val : List Char) :
    (parseContextData H outputs pc val).2.numRules =
      if (parseContextData H outputs pc val).1 then pc.numRules + 1 else pc.numRules := rfl

theorem parseContextData_rules (pc : PmLogParseContext) (val : List Char) :
    (parseContextData H outputs pc val).2.rules = pc.rules.set pc.numRules
      (parseRule H outputs (pc.rules.getD pc.numRules PmLogParseRule.zero) val).2 := rfl

@[simp] theorem parseContextData_name (pc : PmLogParseContext) (val : List Char) :
    (parseContextData H outputs pc val).2.name = pc.name := rfl

@[simp] theorem parseContextData_bufferSize (pc : PmLogParseContext) (val : List Char) :
    (parseContextData H outputs pc val).2.bufferSize = pc.bufferSize := rfl

@[simp] theorem parseContextData_flushLevel (pc : PmLogParseContext) (val : List Char) :
    (parseContextData H outputs pc val).2.flushLevel = pc.flushLevel := rfl

@[simp] theorem parseContextData_rules_length (pc : PmLogParseContext) (val : List Char) :
    (parseContextData H outputs pc val).2.rules.length = pc.rules.length :=
  List.length_set ..

end Parse

/-! ## The grammar of a rule value -/

/-- A token of a rule value: no `.`, `,` or NUL in it. -/
def IsToken (u : List Char) : Prop := ∀ c ∈ u, ¬ IsStop ruleSeps c

/-- `[c]` when the flag is set. -/
def flag (b : Bool) (c : Char) : List Char := if b then [c] else []

/-- The optional `"." P` of a rule value. -/
def programText : Option (List Char) → List Char
  | none => []
  | some p => '.' :: p

/-- The optional `"." ["!"] L ( "" | "." P )` of a rule value. -/
def levelText : Option (Bool × List Char × Option (List Char)) → List Char
  | none => []
  | some (inv, l, p) => '.' :: (flag inv '!' ++ l ++ programText p)

theorem token_split (T s : List Char) :
    ∃ u rest, s = u ++ rest ∧ (∀ c ∈ u, ¬ IsStop T c) ∧ StopsAt T rest := by
  induction s with
  | nil => exact ⟨[], [], rfl, by simp, Or.inl rfl⟩
  | cons c s ih =>
    by_cases hc : IsStop T c
    · exact ⟨[], c :: s, rfl, by simp, Or.inr hc⟩
    · obtain ⟨u, rest, rfl, hu, hr⟩ := ih
      exact ⟨c :: u, rest, rfl, by simpa [hc] using hu, hr⟩

theorem readFlag_eq_iff {c : Char} (hc : c ≠ '\x00') {s s' : List Char} {b : Bool} :
    readFlag c s = (b, s') ↔ s = flag b c ++ s' ∧ (b = false → deref s' ≠ c) := by
  unfold readFlag flag
  by_cases h : deref s = c
  · obtain ⟨t, rfl⟩ : ∃ t, s = c :: t := ⟨_, eq_cons_of_deref_eq hc h⟩
    cases b
    · simp only [deref_cons, if_true, Prod.mk.injEq, Bool.true_eq_false, false_and, false_iff]
      rintro ⟨rfl, h'⟩; exact h' trivial rfl
    · simp [eq_comm]
  · rw [if_neg h]
    cases b
    · simp only [Prod.mk.injEq, true_and, if_false, List.nil_append, forall_const]
      constructor
      · rintro rfl; exact ⟨rfl, h⟩
      · rintro ⟨rfl, -⟩; rfl
    · simp only [Prod.mk.injEq, Bool.false_eq_true, false_and, false_iff, not_and]
      rintro rfl; exact absurd rfl h

theorem skipTerminator_cons {c : Char} (h : c ≠ '\x00') (s : List Char) :
    skipTerminator (c :: s) = s := by
  simp [skipTerminator, h]

theorem not_mem_of_cons {c : Char} {s : List Char} (h : '\x00' ∉ c :: s) : c ≠ '\x00' ∧ '\x00' ∉ s :=
  ⟨fun hc => h (hc ▸ List.mem_cons_self c s), fun hm => h (List.mem_cons_of_mem c hm)⟩

theorem stopsAt_sep {c : Char} (hc : c ∈ ruleSeps) (s : List Char) : StopsAt ruleSeps (c :: s) :=
  Or.inr (Or.inr hc)

/-- `GetTokenToSep` as `ParseContextData` calls it, on a token followed by a stop. -/
theorem getTokenToSep_token {u rest : List Char} (hu : IsToken u) (hr : StopsAt ruleSeps rest) :
    getTokenToSep (u ++ rest) 32 ruleSeps = (u.take 31, deref rest, skipTerminator rest) :=
  getTokenToSep_append hu hr

section Grammar

variable (H : Platform) (outputs : List PmLogFile)

theorem parseRuleOutput_eq_true_iff {r r' : PmLogParseRule} {rest : List Char}
    (hr : '\x00' ∉ rest) :
    parseRuleOutput outputs r (deref rest) (skipTerminator rest) = (true, r') ↔
      ∃ om o i, rest = ',' :: (flag om '-' ++ o) ∧ IsToken o ∧
        (om = false → deref o ≠ '-') ∧ findOutputByName outputs (o.take 31) = some i ∧
        r' = { r with omitOutput := om, outputIndex := i } := by
  constructor
  · intro h
    cases rest with
    | nil => simp [parseRuleOutput] at h
    | cons c s =>
      obtain ⟨hc, hs⟩ := not_mem_of_cons hr
      rw [deref_cons, skipTerminator_cons hc] at h
      unfold parseRuleOutput at h
      split at h
      · simp at h
      rename_i hcomma
      rcases hf : readFlag '-' s with ⟨om, s'⟩
      obtain ⟨hs', hg⟩ := (readFlag_eq_iff (by decide)).mp hf
      obtain ⟨o, rest4, rfl, ho, hr4⟩ := token_split ruleSeps s'
      simp only [hf, getTokenToSep_append ho hr4] at h
      cases hi : findOutputByName outputs (o.take 31) with
      | none => simp [hi] at h
      | some i =>
        simp only [hi, Prod.mk.injEq, decide_eq_true_eq] at h
        obtain ⟨h1, rfl⟩ := h
        have : rest4 = [] := (deref_eq_nul_iff fun hm => hs (by simp [hs', hm])).mp h1
        subst this
        refine ⟨om, o, i, ?_, ho, fun hb => ?_, hi, rfl⟩
        · simp only [List.append_nil] at hs'; rw [hs']; simpa using hcomma
        · simpa [deref] using hg hb
  · rintro ⟨om, o, i, rfl, ho, hg, hi, rfl⟩
    have hno : '\x00' ∉ flag om '-' ++ o := (not_mem_of_cons hr).2
    rw [deref_cons, skipTerminator_cons (by decide)]
    have hf : readFlag '-' (flag om '-' ++ o) = (om, o) := 
      (readFlag_eq_iff (by decide)).mpr ⟨rfl, hg⟩
    have ht := getTokenToSep_append (n := 32) ho (Or.inl (rfl : ([] : List Char) = []))
    rw [List.append_nil] at ht
    simp [parseRuleOutput, hf, ht, hi]

/-- The program `ParseContextData` stores for an optional program token: the token cut to the
31 characters of `token`, then by `mystrcpy` to `PMLOG_PROGRAM_MAX_NAME_LENGTH`. -/
def storedProgram : Option (List Char) → List Char
  | none => []
  | some p => (p.take 31).take H.pmlogProgramMaxNameLength

theorem parseRuleProgram_eq_true_iff {r r' : PmLogParseRule} {rest : List Char}
    (hr : '\x00' ∉ rest) :
    parseRuleProgram H outputs r (deref rest) (skipTerminator rest) = (true, r') ↔
      ∃ p om o i, rest = programText p ++ ',' :: (flag om '-' ++ o) ∧
        (∀ q, p = some q → IsToken q) ∧ IsToken o ∧ (om = false → deref o ≠ '-') ∧
        findOutputByName outputs (o.take 31) = some i ∧
        r' = { r with program := storedProgram H p, omitOutput := om, outputIndex := i } := by
  constructor
  · intro h
    by_cases hd : deref rest = '.'
    · obtain ⟨s, rfl⟩ : ∃ s, rest = '.' :: s := ⟨_, eq_cons_of_deref_eq (by decide) hd⟩
      have hs := (not_mem_of_cons hr).2
      obtain ⟨q, rest3, rfl, hq, hr3⟩ := token_split ruleSeps s
      rw [deref_cons, skipTerminator_cons (by decide)] at h
      simp only [parseRuleProgram, if_true, getTokenToSep_token hq hr3] at h
      obtain ⟨om, o, i, rfl, ho, hg, hi, rfl⟩ :=
        (parseRuleOutput_eq_true_iff outputs fun hm => hs (List.mem_append_right _ hm)).mp h
      refine ⟨some q, om, o, i, rfl, by simpa using hq, ho, hg, hi, ?_⟩
      simp [storedProgram, mystrcpy_eq _ (Nat.le_add_left 1 _)]
    · simp only [parseRuleProgram, if_neg hd] at h
      obtain ⟨om, o, i, rfl, ho, hg, hi, rfl⟩ := (parseRuleOutput_eq_true_iff outputs hr).mp h
      exact ⟨none, om, o, i, rfl, by simp, ho, hg, hi, rfl⟩
  · rintro ⟨p, om, o, i, rfl, hp, ho, hg, hi, rfl⟩
    cases p with
    | none =>
      have := (parseRuleOutput_eq_true_iff outputs (r := { r with program := [] }) hr).mpr
        ⟨om, o, i, rfl, ho, hg, hi, rfl⟩
      simpa [parseRuleProgram, programText, storedProgram] using this
    | some q =>
      have hr' : '\x00' ∉ ',' :: (flag om '-' ++ o) := fun hm => hr (List.mem_append_right _ hm)
      have ho' := (parseRuleOutput_eq_true_iff outputs
        (r := { r with program := mystrcpy r.program (H.pmlogProgramMaxNameLength + 1) (q.take 31) })
        hr').mpr ⟨om, o, i, rfl, ho, hg, hi, rfl⟩
      rw [programText, List.cons_append, deref_cons, skipTerminator_cons (by decide), parseRuleProgram,
        if_pos rfl, getTokenToSep_token (hp q rfl) (stopsAt_sep (by decide) _)]
      dsimp only
      rw [ho']
      simp [storedProgram, mystrcpy_eq _ (Nat.le_add_left 1 _)]

/-- The level part is made of tokens. -/
def LevelTokens (lvl : Option (Bool × List Char × Option (List Char))) : Prop :=
  ∀ inv l p, lvl = some (inv, l, p) → IsToken l ∧ ∀ q, p = some q → IsToken q

/-- With no `!`, the level token does not start with `!`. -/
def LevelGreedy (lvl : Option (Bool × List Char × Option (List Char))) : Prop :=
  ∀ l p, lvl = some (false, l, p) → deref l ≠ '!'

/-- `levelInvert`, `level` and the program the level part gives, when its level token parses. -/
def levelRule : Option (Bool × List Char × Option (List Char)) → Option (Bool × Int × List Char)
  | none => some (false, -1, [])
  | some (inv, l, p) => (parseRuleLevel (l.take 31)).map fun level => (inv, level, storedProgram H p)

theorem deref_ne_bang_of_sep {l rest : List Char} (hl : l = [] → deref rest ∈ ruleSeps)
    (hd : deref l ≠ '!') : deref (l ++ rest) ≠ '!' := by
  cases l with
  | nil =>
    intro h
    have := hl rfl
    rw [List.nil_append] at h
    rw [h] at this
    exact absurd this (by decide)
  | cons c l => exact hd

theorem deref_programText_mem (p : Option (List Char)) (s : List Char) :
    deref (programText p ++ ',' :: s) ∈ ruleSeps := by
  cases p
  · show ',' ∈ ruleSeps; decide
  · show '.' ∈ ruleSeps; decide

theorem stopsAt_programText (p : Option (List Char)) (s : List Char) :
    StopsAt ruleSeps (programText p ++ ',' :: s) :=
  Or.inr (Or.inr (deref_programText_mem p s))

theorem parseRuleLevelPart_eq_true_iff {r r' : PmLogParseRule} {rest : List Char}
    (hr : '\x00' ∉ rest) :
    parseRuleLevelPart H outputs r (deref rest) (skipTerminator rest) = (true, r') ↔
      ∃ lvl om o inv lv prog i, rest = levelText lvl ++ ',' :: (flag om '-' ++ o) ∧
        LevelTokens lvl ∧ LevelGreedy lvl ∧ IsToken o ∧ (om = false → deref o ≠ '-') ∧
        levelRule H lvl = some (inv, lv, prog) ∧ findOutputByName outputs (o.take 31) = some i ∧
        r' = { r with levelInvert := inv, level := lv, program := prog, omitOutput := om,
                      outputIndex := i } := by
  constructor
  · intro h
    by_cases hd : deref rest = '.'
    · obtain ⟨s1, rfl⟩ : ∃ s1, rest = '.' :: s1 := ⟨_, eq_cons_of_deref_eq (by decide) hd⟩
      have hs1 := (not_mem_of_cons hr).2
      rw [deref_cons, skipTerminator_cons (by decide), parseRuleLevelPart, if_pos rfl] at h
      rcases hfl : readFlag '!' s1 with ⟨inv, s1'⟩
      obtain ⟨rfl, hg1⟩ := (readFlag_eq_iff (by decide)).mp hfl
      obtain ⟨u2, rest2, rfl, hu2, hr2⟩ := token_split ruleSeps s1'
      have hv2 : '\x00' ∉ rest2 := fun hm => hs1 (by simp [hm])
      rw [hfl] at h
      dsimp only at h
      rw [getTokenToSep_token hu2 hr2] at h
      dsimp only at h
      cases hl : parseRuleLevel (u2.take 31) with
      | none => rw [hl] at h; simp at h
      | some lv =>
        rw [hl] at h
        dsimp only at h
        obtain ⟨p, om, o, i, rfl, hp, ho, hg, hi, rfl⟩ :=
          (parseRuleProgram_eq_true_iff H outputs hv2).mp h
        refine ⟨some (inv, u2, p), om, o, inv, lv, storedProgram H p, i, by simp [levelText], ?_,
          ?_, ho, hg, by simp [levelRule, hl], hi, rfl⟩
        · rintro inv' l' p' ⟨rfl, rfl, rfl⟩; exact ⟨hu2, hp⟩
        · rintro l' p' ⟨rfl, rfl, rfl⟩
          cases u2 with
          | nil => decide
          | cons c u2 => exact hg1 rfl
    · rw [parseRuleLevelPart, if_neg hd] at h
      obtain ⟨p, om, o, i, rfl, hp, ho, hg, hi, rfl⟩ :=
        (parseRuleProgram_eq_true_iff H outputs hr).mp h
      cases p with
      | some q => simp [programText] at hd
      | none =>
        exact ⟨none, om, o, false, -1, [], i, rfl, by simp [LevelTokens], by simp [LevelGreedy], ho,
          hg, rfl, hi, rfl⟩
  · rintro ⟨lvl, om, o, inv, lv, prog, i, rfl, hlt, hlg, ho, hg, hlr, hi, rfl⟩
    cases lvl with
    | none =>
      cases hlr
      have := (parseRuleProgram_eq_true_iff H outputs (r := { r with levelInvert := false, level := -1 })
        hr).mpr ⟨none, om, o, i, rfl, by simp, ho, hg, hi, rfl⟩
      rw [parseRuleLevelPart, if_neg (by simp [levelText])]
      simpa [storedProgram] using this
    | some x =>
      obtain ⟨inv', l, p⟩ := x
      obtain ⟨hl, hp⟩ := hlt inv' l p rfl
      cases hll : parseRuleLevel (l.take 31) with
      | none => simp [levelRule, hll] at hlr
      | some lv' =>
        simp only [levelRule, hll, Option.map_some', Option.some.injEq, Prod.mk.injEq] at hlr
        obtain ⟨rfl, rfl, rfl⟩ := hlr
        have hrest : '\x00' ∉ programText p ++ ',' :: (flag om '-' ++ o) :=
          fun hm => hr (by
            simp only [levelText, List.cons_append, List.append_assoc]
            exact List.mem_cons_of_mem _ (List.mem_append_right _ (List.mem_append_right _ hm)))
        have hf : readFlag '!' (flag inv' '!' ++ (l ++ (programText p ++ ',' :: (flag om '-' ++ o)))) =
            (inv', l ++ (programText p ++ ',' :: (flag om '-' ++ o))) :=
          (readFlag_eq_iff (by decide)).mpr ⟨rfl, fun hb => deref_ne_bang_of_sep
            (fun _ => deref_programText_mem p _) (hlg l p (by rw [hb]))⟩
        have := (parseRuleProgram_eq_true_iff H outputs (r := { r with levelInvert := inv', level := lv' })
          hrest).mpr ⟨p, om, o, i, rfl, hp, ho, hg, hi, rfl⟩
        simp only [levelText, List.cons_append, List.append_assoc, deref_cons,
          skipTerminator_cons (by decide : '.' ≠ '\x00'), parseRuleLevelPart, ↓reduceIte, hf,
          getTokenToSep_token hl (stopsAt_programText p _), hll, this]

/-- A rule value as the grammar `F ( "" | "." ["!"] L ( "" | "." P ) ) "," ["-"] O` reads it:
the facility token, the optional level part (the `!`, the level token and the optional program
token), the `-` and the output name. -/
structure RuleText where
  facility : List Char
  level : Option (Bool × List Char × Option (List Char))
  omitOutput : Bool
  output : List Char

/-- The string of a `RuleText`. -/
def RuleText.render (t : RuleText) : List Char :=
  t.facility ++ levelText t.level ++ ',' :: (flag t.omitOutput '-' ++ t.output)

/-- Every piece of `t` is a token. -/
def RuleText.Tokens (t : RuleText) : Prop :=
  IsToken t.facility ∧ LevelTokens t.level ∧ IsToken t.output

/-- The flags are read greedily: with no `!` the level token does not start with `!`, and with
no `-` the output name does not start with `-`. -/
def RuleText.Greedy (t : RuleText) : Prop :=
  LevelGreedy t.level ∧ (t.omitOutput = false → deref t.output ≠ '-')

/-- The rule `ParseContextData` stores for `t`: each token is cut to the 31 characters of the
`token` buffer before it is read, and the program further by `mystrcpy`. -/
def RuleText.rule (t : RuleText) : Option PmLogParseRule := do
  let facility ← parseRuleFacility (t.facility.take 31)
  let (levelInvert, level, program) ← levelRule H t.level
  let i ← findOutputByName outputs (t.output.take 31)
  return ⟨facility, level, levelInvert, program, i, t.omitOutput⟩

theorem RuleText.rule_eq_some_iff {t : RuleText} {r : PmLogParseRule} :
    t.rule H outputs = some r ↔ ∃ f inv lv prog i, parseRuleFacility (t.facility.take 31) = some f ∧
      levelRule H t.level = some (inv, lv, prog) ∧ findOutputByName outputs (t.output.take 31) = some i ∧
      r = ⟨f, lv, inv, prog, i, t.omitOutput⟩ := by
  simp only [RuleText.rule, Option.bind_eq_bind, Option.bind_eq_some, Prod.exists]
  constructor
  · rintro ⟨f, hf, inv, lv, prog, hl, i, hi, h⟩
    exact ⟨f, inv, lv, prog, i, hf, hl, hi, (Option.some.inj h).symm⟩
  · rintro ⟨f, inv, lv, prog, i, hf, hl, hi, rfl⟩
    exact ⟨f, hf, inv, lv, prog, hl, i, hi, rfl⟩

theorem stopsAt_levelText (lvl : Option (Bool × List Char × Option (List Char))) (s : List Char) :
    StopsAt ruleSeps (levelText lvl ++ ',' :: s) := by
  cases lvl
  · exact stopsAt_sep (by decide) _
  · exact stopsAt_sep (by decide) _

/-- **The rule parser reads exactly the grammar.** On a value with no NUL, the body of
`ParseContextData` succeeds iff the value renders a `RuleText` of tokens with greedy flags whose
rule exists, and the slot then holds that rule, whatever it held before. -/
theorem parseRule_eq_true_iff {r r' : PmLogParseRule} {v : List Char} (hv : '\x00' ∉ v) :
    parseRule H outputs r v = (true, r') ↔
      ∃ t : RuleText, v = t.render ∧ t.Tokens ∧ t.Greedy ∧ t.rule H outputs = some r' := by
  constructor
  · intro h
    obtain ⟨u1, rest1, rfl, hu1, hr1⟩ := token_split ruleSeps v
    have hv1 : '\x00' ∉ rest1 := fun hm => hv (List.mem_append_right _ hm)
    rw [parseRule, getTokenToSep_token hu1 hr1] at h
    dsimp only at h
    cases hf : parseRuleFacility (u1.take 31) with
    | none => rw [hf] at h; simp at h
    | some f =>
      rw [hf] at h
      dsimp only at h
      obtain ⟨lvl, om, o, inv, lv, prog, i, rfl, hlt, hlg, ho, hg, hl, hi, rfl⟩ :=
        (parseRuleLevelPart_eq_true_iff H outputs hv1).mp h
      exact ⟨⟨u1, lvl, om, o⟩, by simp [RuleText.render], ⟨hu1, hlt, ho⟩, ⟨hlg, hg⟩,
        (RuleText.rule_eq_some_iff H outputs).mpr ⟨f, inv, lv, prog, i, hf, hl, hi, rfl⟩⟩
  · rintro ⟨⟨F, lvl, om, o⟩, rfl, ⟨hF, hlt, ho⟩, ⟨hlg, hg⟩, hrule⟩
    obtain ⟨f, inv, lv, prog, i, hf, hl, hi, rfl⟩ := (RuleText.rule_eq_some_iff H outputs).mp hrule
    have hv1 : '\x00' ∉ levelText lvl ++ ',' :: (flag om '-' ++ o) :=
      fun hm => hv (by simp only [RuleText.render, List.append_assoc]; exact List.mem_append_right _ hm)
    have := (parseRuleLevelPart_eq_true_iff H outputs (r := { r with facility := f }) hv1).mpr
      ⟨lvl, om, o, inv, lv, prog, i, rfl, hlt, hlg, ho, hg, hl, hi, rfl⟩
    simp only [RuleText.render, List.append_assoc]
    rw [parseRule, getTokenToSep_token hF (stopsAt_levelText lvl _)]
    dsimp only
    rw [hf]
    exact this

/-- What `ParseContextData` does with one value: it accepts exactly the rendered `RuleText`s
of tokens with greedy flags whose rule exists; accepting, it writes that rule in slot `numRules`
and counts it; rejecting, it leaves `numRules` and the rules below it as they were. -/
def ParseContextDataGrammar (pc : PmLogParseContext) (v : List Char) : Prop :=
  ((parseContextData H outputs pc v).1 = true ↔
      ∃ t : RuleText, v = t.render ∧ t.Tokens ∧ t.Greedy ∧ (t.rule H outputs).isSome) ∧
    (∀ (t : RuleText) (r : PmLogParseRule), v = t.render → t.Tokens → t.Greedy → t.rule H outputs = some r →
      parseContextData H outputs pc v =
        (true, { pc with rules := pc.rules.set pc.numRules r, numRules := pc.numRules + 1 })) ∧
    ((parseContextData H outputs pc v).1 = false →
      (parseContextData H outputs pc v).2.numRules = pc.numRules ∧
        (parseContextData H outputs pc v).2.rules.take pc.numRules = pc.rules.take pc.numRules)

/-- **`ParseContextData` parses the rule grammar**, with every token read through the 31
characters of the `token` buffer and a leading `!` or `-` always read as the flag. -/
theorem parseContextData_grammar (pc : PmLogParseContext) (v : List Char) (hv : '\x00' ∉ v) :
    ParseContextDataGrammar H outputs pc v := by
  unfold ParseContextDataGrammar parseContextData
  rcases hp : parseRule H outputs (pc.rules.getD pc.numRules PmLogParseRule.zero) v with ⟨ok, r'⟩
  dsimp only
  refine ⟨?_, fun t r ht hT hG hr => ?_, fun hok => ?_⟩
  · cases ok
    · refine iff_of_false (by simp) ?_
      rintro ⟨t, ht, hT, hG, hsome⟩
      obtain ⟨r, hr⟩ := Option.isSome_iff_exists.mp hsome
      have := (parseRule_eq_true_iff H outputs
        (r := pc.rules.getD pc.numRules PmLogParseRule.zero) hv).mpr ⟨t, ht, hT, hG, hr⟩
      rw [hp] at this
      cases this
    · refine iff_of_true rfl ?_
      obtain ⟨t, ht, hT, hG, hr⟩ := (parseRule_eq_true_iff H outputs hv).mp hp
      exact ⟨t, ht, hT, hG, by rw [hr]; rfl⟩
  · rw [(parseRule_eq_true_iff H outputs hv).mpr ⟨t, ht, hT, hG, hr⟩] at hp
    cases hp
    rfl
  · subst hok
    simp only [Bool.false_eq_true, if_false, true_and]
    rw [List.set_take, List.set_eq_of_length_le (List.length_take_le _ _)]

/-- The rule of `t` read with whole tokens: `parse(F)`, `parse(L)` or -1, `!`, `P` or empty,
the index of the output named `O`, `-`. -/
def RuleText.wholeRule (t : RuleText) : Option PmLogParseRule := do
  let facility ← parseRuleFacility t.facility
  let (levelInvert, level, program) ← (match t.level with
    | none => some (false, -1, [])
    | some (inv, l, p) => (parseRuleLevel l).map fun level => (inv, level, p.getD []))
  let i ← findOutputByName outputs t.output
  return ⟨facility, level, levelInvert, program, i, t.omitOutput⟩

end Grammar

/-- The rule grammar read with whole tokens and no greedy flags, for every table, context and
value. -/
def ParseContextDataWhole (H : Platform) : Prop :=
  ∀ (outputs : List PmLogFile) (pc : PmLogParseContext) (v : List Char), '\x00' ∉ v →
    ((parseContextData H outputs pc v).1 = true ↔
        ∃ t : RuleText, v = t.render ∧ t.Tokens ∧ (t.wholeRule outputs).isSome) ∧
      (∀ (t : RuleText) (r : PmLogParseRule), v = t.render → t.Tokens → t.wholeRule outputs = some r →
        parseContextData H outputs pc v =
          (true, { pc with rules := pc.rules.set pc.numRules r, numRules := pc.numRules + 1 })) ∧
      ((parseContextData H outputs pc v).1 = false →
        (parseContextData H outputs pc v).2.numRules = pc.numRules ∧
          (parseContextData H outputs pc v).2.rules.take pc.numRules = pc.rules.take pc.numRules)

/-- A program of 32 characters, one more than the `token` buffer holds. -/
def longProgram : List Char := List.replicate 32 'a'

/-- The rule value `*.*.<longProgram>,stdlog`. -/
def longProgramRule : RuleText := ⟨"*".toList, some (false, "*".toList, some longProgram), false, pmlogOutputStdlog⟩

/-- On every platform the program of a rule is cut to the `token` buffer. -/
theorem parseContextDataWhole_false (H : Platform) : ¬ ParseContextDataWhole H := by
  intro h
  have hT : longProgramRule.Tokens := by
    refine ⟨by unfold IsToken; decide, ?_, by unfold IsToken; decide⟩
    rintro inv l p ⟨⟩
    exact ⟨by unfold IsToken; decide, by rintro q ⟨⟩; unfold IsToken; decide⟩
  have hG : longProgramRule.Greedy := ⟨by rintro l p ⟨⟩; decide, fun _ => by decide⟩
  have hcut : parseRule H [⟨pmlogOutputStdlog, defaultLogFilePath, 0, 0⟩] PmLogParseRule.zero
      longProgramRule.render = (true, ⟨-1, -1, false, storedProgram H (some longProgram), 0, false⟩) :=
    (parseRule_eq_true_iff H _ (by decide)).mpr ⟨longProgramRule, rfl, hT, hG, rfl⟩
  have hw := (h [⟨pmlogOutputStdlog, defaultLogFilePath, 0, 0⟩] ⟨[], 0, 0, 0, [PmLogParseRule.zero]⟩
    longProgramRule.render (by decide)).2.1 longProgramRule _ rfl hT rfl
  simp only [parseContextData, List.getD_cons_zero, hcut, List.set_cons_zero, if_true, Prod.mk.injEq,
    PmLogParseContext.mk.injEq, List.cons.injEq, PmLogParseRule.mk.injEq] at hw
  obtain ⟨-, -, -, -, -, ⟨-, -, -, hprog, -⟩, -⟩ := hw
  have hlen := congrArg List.length hprog
  simp only [storedProgram, longProgram, Option.getD_some, List.length_take,
    List.length_replicate] at hlen
  omega

/-- At the typical platform: `*.*.<32 a>,stdlog` is accepted with its program cut to 31
characters. -/
theorem parseContextData_cuts_program : ¬ ParseContextDataWhole Platform.typical :=
  parseContextDataWhole_false Platform.typical


/-- `*.*,stdlog` holds no NUL, so the grammar law holds of it. -/
theorem parseContextData_grammar_star :
    '\x00' ∉ "*.*,stdlog".toList ∧
      ParseContextDataGrammar Platform.typical [⟨pmlogOutputStdlog, defaultLogFilePath, 0, 0⟩]
        ⟨pmlogContextGlobal, 0, 0, 0, [PmLogParseRule.zero]⟩ "*.*,stdlog".toList :=
  ⟨by decide, parseContextData_grammar _ _ _ _ (by decide)⟩

end PmLogDaemon
