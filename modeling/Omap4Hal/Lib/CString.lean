import Mathlib.Algebra.Order.Ring.Nat
import Mathlib.Data.List.TakeWhile

/- The functions of C that take a string apart. A string is the list of its characters, without the
   zero that ends it. -/
namespace Omap4Hal.Lib

open Char (isDigit)

/-! ## Tokens -/

section Tokens

variable {delim : Char} {t : List Char}

/-- `strtok_r` with one delimiter: the token, and what is left for the next call. -/
def strtok (delim : Char) (s : List Char) : Option (List Char) × List Char :=
  let s := s.dropWhile (· == delim)
  if s = [] then (none, [])
  else (some (s.takeWhile (· != delim)), (s.dropWhile (· != delim)).drop 1)

theorem strtok_skip (delim : Char) (s : List Char) :
    strtok delim (delim :: s) = strtok delim s := by
  have hskip : (delim :: s).dropWhile (· == delim) = s.dropWhile (· == delim) :=
    List.dropWhile_cons_of_pos (beq_self_eq_true delim)
  rw [strtok, hskip, strtok]

theorem ne_delim (hdelim : delim ∉ t) : ∀ c ∈ t, (c != delim) = true := by
  intro c hc
  rw [bne_iff_ne]
  rintro rfl
  exact hdelim hc

theorem token_start (ht : t ≠ []) (hdelim : delim ∉ t) (s : List Char) :
    (t ++ s).dropWhile (· == delim) = t ++ s := by
  cases t with
  | nil => exact absurd rfl ht
  | cons c t =>
    have hc := ne_delim hdelim c List.mem_cons_self
    rw [bne_iff_ne] at hc
    exact List.dropWhile_cons_of_neg (by rwa [beq_iff_eq])

theorem strtok_append (ht : t ≠ []) (hdelim : delim ∉ t) (s : List Char) :
    strtok delim (t ++ delim :: s) = (some t, s) := by
  have hkeep := ne_delim hdelim
  rw [strtok, token_start ht hdelim, if_neg (by simp), List.takeWhile_append_of_pos hkeep,
    List.dropWhile_append_of_pos hkeep]
  simp

theorem strtok_last (ht : t ≠ []) (hdelim : delim ∉ t) : strtok delim t = (some t, []) := by
  have hkeep := ne_delim hdelim
  have hstart := token_start ht hdelim []
  rw [List.append_nil] at hstart
  rw [strtok, hstart, if_neg ht, List.takeWhile_eq_self_iff.mpr hkeep,
    List.dropWhile_eq_nil_iff.mpr hkeep]
  rfl

/-- All tokens of a string that is not longer than the fuel. -/
def strtokAll (delim : Char) : Nat → List Char → List (List Char)
  | 0, _ => []
  | fuel + 1, s =>
    match strtok delim s with
    | (none, _) => []
    | (some t, rest) => t :: strtokAll delim fuel rest

theorem strtokAll_skip (delim : Char) (fuel : Nat) (s : List Char) :
    strtokAll delim fuel (delim :: s) = strtokAll delim fuel s := by
  cases fuel with
  | zero => rfl
  | succ fuel => rw [strtokAll, strtokAll, strtok_skip]

theorem strtokAll_eq {fuel : Nat} {s : List Char} (h : s.length < fuel) :
    strtokAll delim fuel s = (s.splitOn delim).filter (· ≠ []) := by
  induction fuel generalizing s with
  | zero => cases h
  | succ fuel ih =>
    induction s with
    | nil => rfl
    | cons c s ihs =>
      by_cases hc : c = delim
      · rw [hc, strtokAll_skip, ihs (Nat.lt_of_succ_lt h),
          ← List.nil_append (delim :: s), List.splitOn_append_cons_self_of_not_mem List.not_mem_nil]
        rfl
      · by_cases hmem : delim ∈ s
        · obtain ⟨u, rest, rfl, hu⟩ := List.eq_append_cons_of_mem hmem
          have hdelim : delim ∉ c :: u := by
            rw [List.mem_cons, not_or]
            exact ⟨Ne.symm hc, hu⟩
          have hrest : rest.length < fuel := by
            rw [List.length_cons, List.length_append, List.length_cons] at h
            omega
          rw [← List.cons_append, strtokAll, strtok_append (List.cons_ne_nil c u) hdelim,
            List.splitOn_append_cons_self_of_not_mem hdelim, List.filter_cons_of_pos (by simp)]
          exact congrArg ((c :: u) :: ·) (ih hrest)
        · have hdelim : delim ∉ c :: s := by
            rw [List.mem_cons, not_or]
            exact ⟨Ne.symm hc, hmem⟩
          rw [strtokAll, strtok_last (List.cons_ne_nil c s) hdelim,
            List.splitOn_eq_singleton hdelim]
          cases fuel <;> rfl

end Tokens

/-! ## Numbers -/

/-- The value of decimal digits. -/
def decimal (s : List Char) : Nat := Nat.ofDigitChars 10 s 0

theorem decimal_append (s t : List Char) :
    decimal (s ++ t) = 10 ^ t.length * decimal s + decimal t := by
  rw [decimal, Nat.ofDigitChars_append, Nat.ofDigitChars_eq_ofDigitChars_zero, decimal, decimal]

variable {c : Char} {s cs : List Char}

theorem digit_le (hc : c.isDigit = true) : c.toNat - '0'.toNat ≤ 9 := by
  rw [Char.isDigit_iff_toNat] at hc
  exact Nat.sub_le_of_le_add hc.2

theorem decimal_lt (hs : ∀ c ∈ s, c.isDigit = true) :
    decimal s < 10 ^ s.length := by
  induction s with
  | nil => exact Nat.zero_lt_one
  | cons c s ih =>
    have hrest := ih fun d hd => hs d (List.mem_cons_of_mem c hd)
    have hc := digit_le (hs c List.mem_cons_self)
    have hfirst : decimal [c] ≤ 9 := by
      rwa [decimal, Nat.ofDigitChars_cons, Nat.ofDigitChars_nil, Nat.mul_zero, Nat.zero_add]
    calc decimal (c :: s) = 10 ^ s.length * decimal [c] + decimal s := decimal_append [c] s
      _ < 10 ^ s.length * decimal [c] + 10 ^ s.length := Nat.add_lt_add_left hrest _
      _ = 10 ^ s.length * (decimal [c] + 1) := (Nat.mul_succ _ _).symm
      _ ≤ 10 ^ s.length * 10 := Nat.mul_le_mul_left _ (Nat.succ_le_succ hfirst)
      _ = 10 ^ (c :: s).length := (Nat.pow_succ ..).symm

def isSpace (c : Char) : Bool := c.toNat = 32 || (9 ≤ c.toNat && c.toNat ≤ 13)

/-- The nearest number that an `int` can have. -/
def toInt32 (v : Int) : Int32 := Int32.ofInt (max (-2147483648) (min v 2147483647))

/-- `atoi`: white space, a sign and digits; a `long` has 32 bits, and a number that is too large
becomes the largest or the smallest one. -/
def atoi (s : List Char) : Int32 :=
  match s.dropWhile isSpace with
  | '-' :: t => toInt32 (-decimal (t.takeWhile isDigit))
  | '+' :: t => toInt32 (decimal (t.takeWhile isDigit))
  | t => toInt32 (decimal (t.takeWhile isDigit))

theorem toInt32_natCast (n : Nat) : toInt32 n = Int32.ofNat (min n 2147483647) := by
  have hclamp : max (-2147483648) (min (n : Int) 2147483647) = (min n 2147483647 : Nat) := by omega
  rw [toInt32, hclamp, Int32.ofInt_eq_ofNat]

theorem atoi_digits (hs : ∀ c ∈ s, c.isDigit = true) :
    atoi s = Int32.ofNat (min (decimal s) 2147483647) := by
  have hstart : s.dropWhile isSpace = s := by
    cases s with
    | nil => rfl
    | cons c s =>
      have hc := Char.isDigit_iff_toNat.mp (hs c List.mem_cons_self)
      apply List.dropWhile_cons_of_neg
      have hzero : '0'.toNat = 48 := rfl
      simp only [isSpace, Bool.or_eq_true, Bool.and_eq_true, decide_eq_true_eq]
      omega
  rw [← toInt32_natCast, atoi, hstart]
  split
  next t => exact absurd (hs _ List.mem_cons_self) (by decide)
  next t => exact absurd (hs _ List.mem_cons_self) (by decide)
  next => rw [List.takeWhile_eq_self_iff.mpr hs]

/-- The nearest number that a `long` can have. -/
def toLong (v : Int) : Int := max (-2147483648) (min v 2147483647)

/-- A sign, if there is one, and what is behind it. -/
def takeSign : List Char → Int × List Char
  | '-' :: t => (-1, t)
  | '+' :: t => (1, t)
  | t => (1, t)

/-- `strtol` to base ten: the number, and what is behind it. Where there are no digits nothing has
been read, white space and sign included. -/
def strtol (s : List Char) : Int × List Char :=
  let (sign, t) := takeSign (s.dropWhile isSpace)
  if t.takeWhile isDigit = [] then (0, s)
  else (toLong (sign * decimal (t.takeWhile isDigit)), t.dropWhile isDigit)

/-- White space, a sign and digits. -/
def Numeral (cs : List Char) (v : Int) : Prop :=
  ∃ ws ds sign : List Char, cs = ws ++ (sign ++ ds) ∧ (∀ c ∈ ws, isSpace c = true) ∧ ds ≠ [] ∧
    (∀ c ∈ ds, c.isDigit = true) ∧
    (sign = ['-'] ∧ v = -decimal ds ∨ (sign = [] ∨ sign = ['+']) ∧ v = decimal ds)

theorem takeSign_cases (s : List Char) :
    ∃ sign t, s = sign ++ t ∧
      (sign = ['-'] ∧ takeSign s = (-1, t) ∨ (sign = [] ∨ sign = ['+']) ∧ takeSign s = (1, t)) := by
  unfold takeSign
  split
  next t => exact ⟨['-'], t, rfl, Or.inl ⟨rfl, rfl⟩⟩
  next t => exact ⟨['+'], t, rfl, Or.inr ⟨Or.inr rfl, rfl⟩⟩
  next => exact ⟨[], s, rfl, Or.inr ⟨Or.inl rfl, rfl⟩⟩

theorem strtol_cases (s : List Char) :
    strtol s = (0, s) ∨
      ∃ cs v rest, s = cs ++ rest ∧ Numeral cs v ∧ strtol s = (toLong v, rest) := by
  obtain ⟨sign, t, ht, hsign⟩ := takeSign_cases (s.dropWhile isSpace)
  by_cases hnil : t.takeWhile isDigit = []
  · refine Or.inl ?_
    rcases hsign with ⟨-, hsign⟩ | ⟨-, hsign⟩
    · rw [strtol, hsign]
      exact if_pos hnil
    · rw [strtol, hsign]
      exact if_pos hnil
  · have hsplit : s = (s.takeWhile isSpace ++ (sign ++ t.takeWhile isDigit)) ++
        t.dropWhile isDigit := by
      rw [List.append_assoc, List.append_assoc, List.takeWhile_append_dropWhile, ← ht,
        List.takeWhile_append_dropWhile]
    have hws : ∀ c ∈ s.takeWhile isSpace, isSpace c = true := fun c hc => List.mem_takeWhile_imp hc
    have hds : ∀ c ∈ t.takeWhile isDigit, c.isDigit = true :=
      fun c hc => List.mem_takeWhile_imp hc
    refine Or.inr ?_
    rcases hsign with ⟨hminus, hsign⟩ | ⟨hplus, hsign⟩
    · refine ⟨_, _, _, hsplit, ⟨_, _, _, rfl, hws, hnil, hds, Or.inl ⟨hminus, rfl⟩⟩, ?_⟩
      rw [strtol, hsign]
      exact (if_neg hnil).trans (by rw [Int.neg_one_mul])
    · refine ⟨_, _, _, hsplit, ⟨_, _, _, rfl, hws, hnil, hds, Or.inr ⟨hplus, rfl⟩⟩, ?_⟩
      rw [strtol, hsign]
      exact (if_neg hnil).trans (by rw [Int.one_mul])

theorem isSpace_of_isDigit (hc : c.isDigit = true) : isSpace c = false := by
  have hrange := Char.isDigit_iff_toNat.mp hc
  have hzero : '0'.toNat = 48 := rfl
  rw [isSpace, Bool.or_eq_false_iff, Bool.and_eq_false_iff, decide_eq_false_iff_not,
    decide_eq_false_iff_not, decide_eq_false_iff_not]
  omega

theorem takeSign_digits {t : List Char} (hs : s = c :: t) (hc : c.isDigit = true) :
    takeSign s = (1, s) := by
  unfold takeSign
  split
  next u =>
    cases hs
    exact absurd hc (by decide)
  next u =>
    cases hs
    exact absurd hc (by decide)
  next => rfl

theorem strtol_numeral {rest : List Char} {v : Int} (h : Numeral cs v)
    (hrest : ∀ c ∈ rest.head?, c.isDigit = false) : strtol (cs ++ rest) = (toLong v, rest) := by
  obtain ⟨ws, ds, sign, rfl, hws, hds, hdigits, hsign⟩ := h
  obtain ⟨d, ds', rfl⟩ := List.exists_cons_of_ne_nil hds
  have hd := hdigits d List.mem_cons_self
  have htake : (d :: ds' ++ rest).takeWhile isDigit = d :: ds' := by
    rw [List.takeWhile_append_of_pos hdigits]
    cases rest with
    | nil => simp
    | cons c rest => rw [List.takeWhile_cons_of_neg (by simp [hrest c rfl]), List.append_nil]
  have hdrop : (d :: ds' ++ rest).dropWhile isDigit = rest := by
    rw [List.dropWhile_append_of_pos hdigits]
    cases rest with
    | nil => rfl
    | cons c rest => exact List.dropWhile_cons_of_neg (by simp [hrest c rfl])
  have hstart : (ws ++ (sign ++ d :: ds') ++ rest).dropWhile isSpace =
      sign ++ (d :: ds' ++ rest) := by
    rw [List.append_assoc, List.dropWhile_append_of_pos hws, List.append_assoc]
    rcases hsign with ⟨rfl, -⟩ | ⟨rfl | rfl, -⟩
    · rfl
    · exact List.dropWhile_cons_of_neg (by simp [isSpace_of_isDigit hd])
    · rfl
  have hread (k : Int) (hk : takeSign (sign ++ (d :: ds' ++ rest)) = (k, d :: ds' ++ rest)) :
      strtol (ws ++ (sign ++ d :: ds') ++ rest) = (toLong (k * decimal (d :: ds')), rest) := by
    rw [strtol, hstart, hk]
    simp only [htake, hdrop, if_neg hds]
  rcases hsign with ⟨rfl, rfl⟩ | ⟨rfl | rfl, rfl⟩
  · rw [hread (-1) rfl, Int.neg_one_mul]
  · rw [hread 1 (takeSign_digits rfl hd), Int.one_mul]
  · rw [hread 1 rfl, Int.one_mul]

theorem Numeral.ne_nil {v : Int} (h : Numeral cs v) : cs ≠ [] := by
  obtain ⟨ws, ds, sign, rfl, -, hds, -⟩ := h
  intro hnil
  exact hds (List.append_eq_nil_iff.mp (List.append_eq_nil_iff.mp hnil).2).2

theorem Numeral.mem {v : Int} (h : Numeral cs v) (hc : c ∈ cs) :
    isSpace c = true ∨ c.isDigit = true ∨ c = '-' ∨ c = '+' := by
  obtain ⟨ws, ds, sign, rfl, hws, -, hdigits, hsign⟩ := h
  rcases List.mem_append.mp hc with hc | hc
  · exact Or.inl (hws c hc)
  · rcases List.mem_append.mp hc with hc | hc
    · rcases hsign with ⟨rfl, -⟩ | ⟨rfl | rfl, -⟩
      · exact Or.inr (Or.inr (Or.inl (List.mem_singleton.mp hc)))
      · cases hc
      · exact Or.inr (Or.inr (Or.inr (List.mem_singleton.mp hc)))
    · exact Or.inr (Or.inl (hdigits c hc))

/-- An integer in decimal. -/
def showInt : Int → List Char
  | .ofNat n => Nat.toDigits 10 n
  | .negSucc n => '-' :: Nat.toDigits 10 (n + 1)

theorem numeral_showInt (v : Int) : Numeral (showInt v) v := by
  have hdigits : ∀ n, ∀ c ∈ Nat.toDigits 10 n, c.isDigit = true := fun n c hc =>
    Nat.isDigit_of_mem_toDigits (by decide) (by decide) hc
  have hvalue : ∀ n, decimal (Nat.toDigits 10 n) = n := fun n => Nat.ofDigitChars_ten_toDigits
  cases v with
  | ofNat n =>
    refine ⟨[], Nat.toDigits 10 n, [], rfl, by simp, Nat.toDigits_ne_nil, hdigits n, Or.inr ?_⟩
    exact ⟨Or.inl rfl, by rw [hvalue]; rfl⟩
  | negSucc n =>
    refine ⟨[], Nat.toDigits 10 (n + 1), ['-'], rfl, by simp, Nat.toDigits_ne_nil, hdigits _,
      Or.inl ⟨rfl, ?_⟩⟩
    rw [hvalue]
    rfl

end Omap4Hal.Lib
