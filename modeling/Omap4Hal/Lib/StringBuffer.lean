import Mathlib.Data.List.Range

/- The functions of C that put strings into a buffer. A buffer is its bytes by their places; a
   string is the list of its bytes without the zero that ends it (`CStr`). What a buffer should hold
   is a prefix of the string with a zero behind it (`Covers`); where the copy is bounded, that
   depends on the length of the string. -/
namespace Omap4Hal.Lib

structure CStr where
  bytes : List UInt8
  zero_not_mem : 0 ∉ bytes

/-- The bytes of a string, and zeros behind them. -/
def CStr.padded (s : CStr) (i : Nat) : UInt8 := s.bytes.getD i 0

/-- `memcpy` of `n` bytes. -/
def overwrite (mem : Nat → UInt8) (dst n : Nat) (src : Nat → UInt8) : Nat → UInt8 :=
  fun a => if dst ≤ a ∧ a < dst + n then src (a - dst) else mem a

/-- `strncpy`: the bytes behind the string are zeros. -/
def strncpy (mem : Nat → UInt8) (dst : Nat) (s : CStr) (n : Nat) : Nat → UInt8 :=
  overwrite mem dst n s.padded

/-- `snprintf`: the text is cut off, and a zero is behind it. -/
def snprintf (mem : Nat → UInt8) (dst n : Nat) (text : List UInt8) : Nat → UInt8 :=
  overwrite mem dst (min (text.length + 1) n) fun i => (text.take (n - 1)).getD i 0

/-- `strlen`, in a buffer of `size` bytes. -/
def strlen (mem : Nat → UInt8) (size p : Nat) : Option Nat :=
  (List.range (size - p)).find? fun i => mem (p + i) == 0

/-- There is a zero in the first `n` bytes, and a prefix of the string before it. -/
def Covers (content : Nat → UInt8) (n : Nat) (string : Option (List UInt8)) : Prop :=
  ∃ k < n, content k = 0 ∧ ∀ t ∈ string, ∀ i < k, t[i]? = some (content i)

section Buffer

variable {mem content : Nat → UInt8} {dst n i a : Nat} {src : Nat → UInt8} {s : CStr}

theorem overwrite_at (h : i < n) : overwrite mem dst n src (dst + i) = src i := by
  have hin : dst ≤ dst + i ∧ dst + i < dst + n := by omega
  rw [overwrite, if_pos hin, Nat.add_sub_cancel_left]

theorem overwrite_below (h : a < dst) : overwrite mem dst n src a = mem a :=
  if_neg fun hin => absurd hin.1 (Nat.not_le_of_lt h)

theorem overwrite_above (h : dst + n ≤ a) : overwrite mem dst n src a = mem a :=
  if_neg fun hin => absurd hin.2 (Nat.not_lt_of_le h)

theorem strncpy_of_lt (h : i < n) : strncpy mem 0 s n i = s.padded i := by
  have hin : 0 ≤ i ∧ i < 0 + n := by omega
  rw [strncpy, overwrite, if_pos hin, Nat.sub_zero]

theorem CStr.padded_eq_zero : s.padded i = 0 ↔ s.bytes.length ≤ i := by
  rw [CStr.padded, List.getD_eq_getElem?_getD]
  constructor
  · intro hzero
    by_contra hlt
    rw [List.getElem?_eq_getElem (Nat.lt_of_not_le hlt), Option.getD_some] at hzero
    exact s.zero_not_mem (hzero ▸ List.getElem_mem (Nat.lt_of_not_le hlt))
  · intro hle
    rw [List.getElem?_eq_none hle, Option.getD_none]

theorem CStr.getElem?_eq_padded (h : s.padded i ≠ 0) : s.bytes[i]? = some (s.padded i) := by
  have hlt : i < s.bytes.length := Nat.lt_of_not_le (mt CStr.padded_eq_zero.mpr h)
  rw [CStr.padded, List.getD_eq_getElem?_getD, List.getElem?_eq_getElem hlt, Option.getD_some]

variable {size p : Nat}

theorem strlen_eq_some {k : Nat} :
    strlen mem size p = some k ↔
      k < size - p ∧ mem (p + k) = 0 ∧ ∀ i < k, mem (p + i) ≠ 0 := by
  rw [strlen, List.find?_range_eq_some]
  simp only [List.mem_range, beq_iff_eq, Bool.not_eq_true', beq_eq_false_iff_ne]
  exact ⟨fun ⟨hzero, hk, hbefore⟩ => ⟨hk, hzero, hbefore⟩,
    fun ⟨hk, hzero, hbefore⟩ => ⟨hzero, hk, hbefore⟩⟩

theorem strlen_eq_none :
    strlen mem size p = none ↔ ∀ i < size - p, mem (p + i) ≠ 0 := by
  simp [strlen]

theorem covers_congr {content' : Nat → UInt8} {string : Option (List UInt8)}
    (h : ∀ i < n, content i = content' i) : Covers content n string ↔ Covers content' n string := by
  unfold Covers
  refine exists_congr fun k => and_congr_right fun hk => ?_
  rw [h k hk]
  refine and_congr_right fun _ => forall₂_congr fun t _ => forall₂_congr fun i hi => ?_
  rw [h i (Nat.lt_trans hi hk)]

theorem covers_none : Covers content n none ↔ ∃ k < n, content k = 0 := by
  refine exists_congr fun k => and_congr_right fun _ => and_iff_left ?_
  rintro t ⟨⟩

theorem covers_of_first {k m : Nat} (hcopy : ∀ i < m, content i = s.padded i) (hk : k ≤ m)
    (hbefore : ∀ i < k, content i ≠ 0) (hzero : content k = 0) (hn : k < n) :
    Covers content n (some s.bytes) := by
  refine ⟨k, hn, hzero, ?_⟩
  rintro t ⟨⟩ i hi
  have hsame := hcopy i (Nat.lt_of_lt_of_le hi hk)
  have hne := hbefore i hi
  rw [hsame] at hne ⊢
  exact CStr.getElem?_eq_padded hne

/-- A copy of `n` bytes has the zero where the string is shorter. -/
theorem covers_copy (hcopy : ∀ i < n, content i = s.padded i) :
    Covers content n (some s.bytes) ↔ s.bytes.length < n := by
  constructor
  · rintro ⟨k, hk, hzero, -⟩
    rw [hcopy k hk, CStr.padded_eq_zero] at hzero
    exact Nat.lt_of_le_of_lt hzero hk
  · intro hlen
    refine covers_of_first hcopy (Nat.le_of_lt hlen) ?_ ?_ hlen
    · intro i hi
      rw [hcopy i (Nat.lt_trans hi hlen)]
      exact mt CStr.padded_eq_zero.mp (Nat.not_le_of_lt hi)
    · rw [hcopy _ hlen, CStr.padded_eq_zero]

theorem covers_copy_succ (hcopy : ∀ i < n, content i = s.padded i) :
    Covers content (n + 1) (some s.bytes) ↔ s.bytes.length < n ∨ content n = 0 := by
  constructor
  · rintro ⟨k, hk, hzero, -⟩
    rcases Nat.lt_succ_iff_lt_or_eq.mp hk with hlt | rfl
    · rw [hcopy k hlt, CStr.padded_eq_zero] at hzero
      exact Or.inl (Nat.lt_of_le_of_lt hzero hlt)
    · exact Or.inr hzero
  · intro h
    by_cases hlen : s.bytes.length < n
    · obtain ⟨k, hk, hcovers⟩ := (covers_copy hcopy).mpr hlen
      exact ⟨k, Nat.lt_succ_of_lt hk, hcovers⟩
    · refine covers_of_first hcopy (Nat.le_refl n) ?_ (h.resolve_left hlen) (Nat.lt_succ_self n)
      intro i hi
      rw [hcopy i hi]
      exact mt CStr.padded_eq_zero.mp (by omega)

theorem covers_strncpy :
    Covers (strncpy mem 0 s n) (n + 1) (some s.bytes) ↔ s.bytes.length < n ∨ mem n = 0 := by
  have hend : strncpy mem 0 s n n = mem n := overwrite_above (Nat.le_of_eq (Nat.zero_add n))
  rw [covers_copy_succ fun i hi => strncpy_of_lt hi, hend]

/-- A bounded copy: `strlen` stays inside the buffer, -/
theorem strlen_copy_ne_none (hcopy : ∀ i < n, mem (p + i) = s.padded i) (hn : n < size - p)
    (h : s.bytes.length < n ∨ mem (p + n) = 0) : strlen mem size p ≠ none := by
  intro hnone
  obtain ⟨k, hk, hzero, -⟩ := (covers_copy_succ hcopy).mpr h
  exact strlen_eq_none.mp hnone k (by omega) hzero

theorem strlen_copy {len : Nat} (hcopy : ∀ i < n, mem (p + i) = s.padded i)
    (hlen : strlen mem size p = some len) :
    len + 1 ≤ n + 1 ∧ Covers (fun i => mem (p + i)) (len + 1) (some s.bytes) ↔
      s.bytes.length < n ∨ mem (p + n) = 0 := by
  obtain ⟨-, hzero, hbefore⟩ := strlen_eq_some.mp hlen
  rw [← covers_copy_succ hcopy]
  constructor
  · rintro ⟨hle, k, hk, hcovers⟩
    exact ⟨k, Nat.lt_of_lt_of_le hk hle, hcovers⟩
  · rintro ⟨k, hk, hk0, -⟩
    have hle : len ≤ k := Nat.le_of_not_lt fun hlt => hbefore k hlt hk0
    refine ⟨by omega, covers_of_first hcopy (by omega) hbefore hzero (Nat.lt_succ_self len)⟩

/-- What `snprintf` wrote is never without the zero. -/
theorem covers_snprintf {text : List UInt8} (hn : 0 < n)
    (hcontent : ∀ i < n, content i = snprintf mem dst n text (dst + i)) :
    Covers content n (some text) := by
  have hwrite : ∀ i < min (text.length + 1) n, content i = (text.take (n - 1)).getD i 0 := by
    intro i hi
    rw [hcontent i (by omega)]
    exact overwrite_at hi
  refine ⟨min text.length (n - 1), by omega, ?_, ?_⟩
  · rw [hwrite _ (by omega), List.getD_eq_getElem?_getD, List.getElem?_eq_none, Option.getD_none]
    rw [List.length_take]
    omega
  · rintro t ⟨⟩ i hi
    have hlt : i < text.length := by omega
    have htake : (text.take (n - 1))[i]? = some text[i] := by
      rw [List.getElem?_take_of_lt (by omega), List.getElem?_eq_getElem]
    rw [hwrite i (by omega), List.getD_eq_getElem?_getD, htake, Option.getD_some,
      List.getElem?_eq_getElem hlt]

end Buffer

end Omap4Hal.Lib
