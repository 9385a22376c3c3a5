import Mathlib.Logic.Relation
import Omap4Hal.Security.Manifest

/- Termination of the manifest parser. Every loop of the parser moves its pointer or
   is left, with one exception: behind a section header, a character that is neither
   a blank nor a line end holds the pointer in place for ever.

   The loop over the earlier items returns because it meets again the items that
   earlier calls have found: the positions between two calls form a chain, and the
   scanner, which looks at nothing but the bytes from its position on, follows it.
   `manifest_terminates_iff` puts the two together for `libManifest2CheckFormat` and
   for every call of `libManifest2GetNextItem`. -/
namespace Omap4Hal.Security
open Lib
open List (length_cons length_drop)

theorem badFormat_ne_success : sErrorBadFormat ≠ sSuccess := by decide
theorem itemNotFound_ne_success : sErrorItemNotFound ≠ sSuccess := by decide

/-! ## Comments and empty lines -/

variable {cs r : List UInt8} {l : Lines} {n m k o o' : Nat} {x : Scan} {ctx ctx' : Context}
  {item : Item}

theorem skipComment_length (h : skipComment cs = some r) :
    r.length ≤ cs.length := by
  induction cs with
  | nil =>
    simp only [skipComment, Option.some.injEq] at h
    simp [← h]
  | cons c cs ih =>
    rw [skipComment] at h
    split at h
    · simp only [Option.some.injEq] at h
      simp [← h]
    split at h
    · cases h
    · have hle := ih h
      simp only [length_cons]
      omega

theorem skipWhite_length (h : skipWhite cs = some r) :
    r.length ≤ cs.length := by
  induction cs with
  | nil =>
    simp only [skipWhite, Option.some.injEq] at h
    simp [← h]
  | cons c cs ih =>
    rw [skipWhite] at h
    split at h
    · simp only [Option.some.injEq] at h
      simp [← h]
    split at h
    · have hle := ih h
      simp only [length_cons]
      omega
    · cases h

theorem linesPass_next {l' : Lines} (h : linesPass l = .next l') :
    l'.rest.length < l.rest.length := by
  obtain ⟨rest, nLine, failed⟩ := l
  cases rest with
  | nil => simp [linesPass] at h
  | cons c cs =>
    simp only [linesPass] at h
    split at h
    · split at h
      next => cases h
      next r hr =>
        have hle := skipComment_length hr
        cases h
        simp only [length_cons]
        omega
    split at h
    · split at h
      next =>
        cases h
        simp
      next d ds =>
        split at h <;> cases h <;> simp only [length_cons] <;> omega
    split at h
    · cases h
      simp
    split at h
    · split at h
      next => cases h
      next r hr =>
        have hle := skipWhite_length hr
        cases h
        simp only [length_cons]
        omega
    · cases h

theorem linesPass_stop {l' : Lines} (h : linesPass l = .stop l') : l'.rest = l.rest := by
  obtain ⟨rest, nLine, failed⟩ := l
  cases rest with
  | nil =>
    simp only [linesPass, Flow.stop.injEq] at h
    rw [← h]
  | cons c cs =>
    simp only [linesPass] at h
    split at h
    · split at h <;> cases h
      rfl
    split at h
    · split at h
      · cases h
      · split at h <;> cases h
    split at h
    · cases h
    split at h
    · split at h <;> cases h
      rfl
    · cases h
      rfl

theorem skipBom_length (atStart : Bool) (rest : List UInt8) :
    (skipBom atStart rest).length ≤ rest.length := by
  rw [skipBom.eq_def]
  split
  · split
    · simp only [length_cons]
      omega
    · exact Nat.le_refl _
  · exact Nat.le_refl _

theorem skipLines_returns (nType : ManifestType) (atStart : Bool) {rest : List UInt8}
    (hn : rest.length < n) : ∃ l, skipLines n nType atStart rest = some l := by
  rw [skipLines]
  split
  · exact ⟨_, rfl⟩
  · have hle := skipBom_length atStart rest
    apply loop_terminates (μ := fun l => l.rest.length) (fun _ _ => linesPass_next)
    show (skipBom atStart rest).length < n
    omega

theorem skipLines_mono {nType : ManifestType} {atStart : Bool} {rest : List UInt8} (hnm : n ≤ m)
    (h : skipLines n nType atStart rest = some l) :
    skipLines m nType atStart rest = some l := by
  rw [skipLines] at h ⊢
  split at h
  next hc =>
    rw [if_pos hc]
    exact h
  next hc =>
    rw [if_neg hc]
    exact loop_mono hnm h

theorem skipLines_length {nType : ManifestType} {atStart : Bool} {rest : List UInt8}
    (h : skipLines n nType atStart rest = some l) : l.rest.length ≤ rest.length := by
  rw [skipLines] at h
  split at h
  · cases h
    exact Nat.le_refl _
  · apply loop_induct (I := fun l => l.rest.length ≤ rest.length) _ _ _ h
    · intro s s' hs hb
      have hlt := linesPass_next hb
      omega
    · intro s t hs hb
      rw [linesPass_stop hb]
      exact hs
    · exact skipBom_length atStart rest

/-! ## Section headers -/

/-- Behind the blanks stands a character that does not end the line. -/
def Stray (r : List UInt8) : Prop :=
  ∃ c t, r.dropWhile isBlank = c :: t ∧ isEol c = false

theorem dropWhile_blank {c : UInt8} (h : isBlank c = true) (r : List UInt8) :
    (c :: r).dropWhile isBlank = r.dropWhile isBlank := by
  rw [List.dropWhile_cons, if_pos h]

theorem dropWhile_not_blank {c : UInt8} (h : ¬ isBlank c = true) (r : List UInt8) :
    (c :: r).dropWhile isBlank = c :: r := by
  rw [List.dropWhile_cons, if_neg h]

theorem headerLoop_stray (h : Stray r) (n : Nat) :
    loop headerPass n r = none := by
  induction n generalizing r with
  | zero => rfl
  | succ n ih =>
    obtain ⟨c, t, hdrop, hc⟩ := h
    cases r with
    | nil => cases hdrop
    | cons d r =>
      by_cases hd : isBlank d = true
      · -- the stray character is still ahead
        rw [loop_next (show headerPass (d :: r) = .next r by simp [headerPass, hd])]
        apply ih
        rw [dropWhile_blank hd] at hdrop
        exact ⟨c, t, hdrop, hc⟩
      · -- it is reached, and the pass leads back to the same state
        have hdc : d = c := by
          rw [dropWhile_not_blank hd, List.cons.injEq] at hdrop
          exact hdrop.1
        have hstay : headerPass (d :: r) = .next (d :: r) := by
          simp [headerPass, hd, hdc ▸ hc]
        rw [loop_next hstay]
        exact ih ⟨c, t, hdrop, hc⟩

theorem headerLoop_returns (h : ¬ Stray r) (hn : r.length < n) :
    loop headerPass n r = some (r.dropWhile isBlank) := by
  induction r generalizing n with
  | nil =>
    obtain ⟨n, rfl⟩ : ∃ n', n = n' + 1 := ⟨n - 1, by omega⟩
    exact loop_stop rfl
  | cons d r ih =>
    obtain ⟨n, rfl⟩ : ∃ n', n = n' + 1 := ⟨n - 1, by omega⟩
    simp only [length_cons] at hn
    by_cases hd : isBlank d = true
    · rw [loop_next (show headerPass (d :: r) = .next r by simp [headerPass, hd]),
        dropWhile_blank hd]
      apply ih _ (by omega)
      intro hr
      obtain ⟨c, t, hdrop, hc⟩ := hr
      exact h ⟨c, t, by rw [dropWhile_blank hd, hdrop], hc⟩
    · have heol : isEol d = true := by
        by_contra heol
        exact h ⟨d, r, dropWhile_not_blank hd r, by simpa using heol⟩
      rw [dropWhile_not_blank hd]
      exact loop_stop (by simp [headerPass, hd, heol])

theorem headerLoop_length {r' : List UInt8} (h : loop headerPass n r = some r') :
    r'.length ≤ r.length := by
  have hns : ¬ Stray r := by
    intro hs
    rw [headerLoop_stray hs] at h
    cases h
  have hbig := loop_mono (Nat.le_max_left n (r.length + 1)) h
  rw [headerLoop_returns hns (by omega), Option.some.injEq] at hbig
  rw [← hbig]
  exact (List.dropWhile_suffix isBlank).length_le

theorem sectionName_length {name : List UInt8} (h : sectionName cs = some (name, r)) :
    r.length < cs.length := by
  induction cs generalizing name with
  | nil => cases h
  | cons c cs ih =>
    rw [sectionName] at h
    split at h
    · cases h
      simp
    split at h
    · obtain ⟨x, hx, heq⟩ := Option.map_eq_some_iff.mp h
      cases heq
      have hlt := ih hx
      simp only [length_cons]
      omega
    · cases h

/-! ## Properties -/

theorem nameLoop_length {nType : ManifestType} {cur last : Nat}
    (h : nameLoop nType cur last cs = some (k, r)) : r.length < cs.length := by
  induction cs generalizing cur last with
  | nil => cases h
  | cons c cs ih =>
    have hstep : ∀ {cur last}, nameLoop nType cur last cs = some (k, r) →
        r.length < (c :: cs).length := by
      intro cur last hrec
      have hlt := ih hrec
      simp only [length_cons]
      omega
    rw [nameLoop] at h
    split at h
    · cases h
      simp
    split at h
    · exact hstep h
    split at h
    · cases h
    split at h
    · cases h
    · exact hstep h

theorem endOfValue_length (nType : ManifestType) (c : UInt8) (cs : List UInt8) :
    (endOfValue nType c cs).1.length ≤ (c :: cs).length := by
  rw [endOfValue.eq_def]
  split
  · exact Nat.le_refl _
  split
  · split
    · simp
    · split <;> simp only [length_cons] <;> omega
  · simp

theorem valueLoop_length {nType : ManifestType} {u : Utf8State} {cur last lines : Nat}
    (h : valueLoop nType u cur last cs = some (k, r, lines)) :
    r.length ≤ cs.length := by
  induction cs generalizing u cur last with
  | nil =>
    rw [valueLoop] at h
    split at h
    · cases h
    · cases h
      exact Nat.le_refl _
  | cons c cs ih =>
    rw [valueLoop] at h
    split at h
    next => cases h
    next u' hu =>
      split at h
      · cases h
      split at h
      · cases h
        exact endOfValue_length nType c cs
      · have hle := ih h
        simp only [length_cons]
        omega

theorem scanProperty_length {nType : ManifestType} {c : UInt8}
    (h : (scanProperty nType l c cs).nResult = sSuccess) :
    (scanProperty nType l c cs).rest.length < (c :: cs).length ∧
      (scanProperty nType l c cs).value ≠ none := by
  simp only [scanProperty] at h ⊢
  split at h
  · exact absurd h badFormat_ne_success
  next hc =>
    rw [if_neg hc]
    split at h
    next => exact absurd h badFormat_ne_success
    next k r hname =>
      have hlt := nameLoop_length hname
      split at h
      next => exact absurd h badFormat_ne_success
      next k' r' lines hvalue =>
        have hle := valueLoop_length hvalue
        have hdrop := (List.dropWhile_suffix (p := isBlank) (l := r)).length_le
        refine ⟨?_, by simp⟩
        simp only [length_cons]
        omega

/-! ## Items -/

/-- Behind the comments and empty lines, a section header is followed by a stray
character. -/
def StrayHeader (nType : ManifestType) (atStart : Bool) (rest : List UInt8) : Prop :=
  nType = .sourceWithSections ∧ ∃ n l cs name r, skipLines n nType atStart rest = some l ∧
    l.failed = false ∧ l.rest = charOpenBracket :: cs ∧ sectionName cs = some (name, r) ∧ Stray r

variable {nType : ManifestType} {atStart hasSection : Bool} {rest : List UInt8}

theorem scanItem_stray (h : StrayHeader nType atStart rest) (n : Nat) :
    scanItem n nType atStart hasSection rest = none := by
  obtain ⟨rfl, m, l, cs, name, r, hl, hok, hrest, hname, hstray⟩ := h
  rw [scanItem]
  split
  next => rfl
  next l' hl' =>
    obtain rfl : l = l' := by
      have h₁ := skipLines_mono (Nat.le_max_left m n) hl
      have h₂ := skipLines_mono (Nat.le_max_right m n) hl'
      exact Option.some.inj (h₁.symm.trans h₂)
    simp only [scanLine, hok, hrest, scanSection, hname, headerLoop_stray hstray n, if_true,
      Bool.false_eq_true, if_false]

theorem scanItem_returns (h : ¬ StrayHeader nType atStart rest) (hn : rest.length < n) :
    ∃ x, scanItem n nType atStart hasSection rest = some x := by
  obtain ⟨l, hl⟩ := skipLines_returns nType atStart hn
  have hle := skipLines_length hl
  simp only [scanItem, hl, scanLine]
  split
  · exact ⟨_, rfl⟩
  next hok =>
    split
    next => exact ⟨_, rfl⟩
    next c cs hrest =>
      rw [hrest, length_cons] at hle
      split
      next htype =>
        split
        next hc =>
          rw [scanSection]
          split
          next => exact ⟨_, rfl⟩
          next name r hname =>
            have hlt := sectionName_length hname
            have hns : ¬ Stray r := by
              intro hs
              exact h ⟨htype, n, l, cs, name, r, hl, by simpa using hok, hc ▸ hrest, hname, hs⟩
            rw [headerLoop_returns hns (by omega)]
            exact ⟨_, rfl⟩
        next =>
          split <;> exact ⟨_, rfl⟩
      next => exact ⟨_, rfl⟩

theorem scanSection_mono (hnm : n ≤ m) (h : scanSection n l cs = some x) :
    scanSection m l cs = some x := by
  rw [scanSection] at h ⊢
  split at h
  next => exact h
  next name r hname =>
    cases hloop : loop headerPass n r with
    | none =>
      rw [hloop] at h
      cases h
    | some r' =>
      rw [hloop] at h
      rw [loop_mono hnm hloop]
      exact h

/-- What can come of the item behind the comments and empty lines: an error, a section
header, or a property and then, in a manifest with sections, inside a section. -/
theorem scanLine_cases (h : scanLine n nType hasSection l = some x) :
    (x.nResult ≠ sSuccess ∧ ∀ m, scanLine m nType hasSection l = some x) ∨
      (∃ cs, l.rest = charOpenBracket :: cs ∧ scanSection n l cs = some x ∧
        ∀ m b, scanLine m nType b l = scanSection m l cs) ∨
      (∃ c cs, l.rest = c :: cs ∧ x = scanProperty nType l c cs ∧
        (nType = .sourceWithSections → hasSection = true) ∧
        ∀ m, scanLine m nType true l = some x ∧ scanLine m nType hasSection l = some x) := by
  by_cases hf : l.failed = true
  · have hall : ∀ m, scanLine m nType hasSection l =
        some (.error sErrorBadFormat l.rest l.nLine) := fun m => by rw [scanLine, if_pos hf]
    rw [hall n, Option.some.injEq] at h
    rw [← h]
    exact Or.inl ⟨badFormat_ne_success, hall⟩
  cases hrest : l.rest with
  | nil =>
    have hall : ∀ m, scanLine m nType hasSection l =
        some (.error sErrorItemNotFound [] l.nLine) := fun m => by
      simp only [scanLine, hf, hrest, if_false, Bool.false_eq_true]
    rw [hall n, Option.some.injEq] at h
    rw [← h]
    exact Or.inl ⟨itemNotFound_ne_success, hall⟩
  | cons c cs =>
    by_cases htype : nType = .sourceWithSections
    · by_cases hc : c = charOpenBracket
      · have hall : ∀ m b, scanLine m nType b l = scanSection m l cs := fun m b => by
          simp only [scanLine, hf, hrest, htype, hc, if_true, if_false, Bool.false_eq_true]
        rw [hall n] at h
        exact Or.inr (Or.inl ⟨cs, by rw [hc], h, hall⟩)
      · cases hasSection with
        | false =>
          have hall : ∀ m, scanLine m nType false l =
              some (.error sErrorBadFormat l.rest l.nLine) := fun m => by
            simp only [scanLine, hf, hrest, htype, hc, if_true, if_false, Bool.false_eq_true]
          rw [hall n, Option.some.injEq] at h
          rw [← h]
          exact Or.inl ⟨badFormat_ne_success, hall⟩
        | true =>
          have hall : ∀ m, scanLine m nType true l = some (scanProperty nType l c cs) :=
            fun m => by
              simp only [scanLine, hf, hrest, htype, hc, if_true, if_false, Bool.false_eq_true,
                Bool.true_eq_false]
          rw [hall n, Option.some.injEq] at h
          subst h
          exact Or.inr (Or.inr ⟨c, cs, rfl, rfl, fun _ => rfl, fun m => ⟨hall m, hall m⟩⟩)
    · have hall : ∀ m b, scanLine m nType b l = some (scanProperty nType l c cs) :=
        fun m b => by
          simp only [scanLine, hf, hrest, if_neg htype, if_false, Bool.false_eq_true]
      rw [hall n, Option.some.injEq] at h
      subst h
      exact Or.inr (Or.inr ⟨c, cs, rfl, rfl, fun e => absurd e htype,
        fun m => ⟨hall m true, hall m hasSection⟩⟩)

theorem scanItem_eq_some (h : scanItem n nType atStart hasSection rest = some x) :
    ∃ l, skipLines n nType atStart rest = some l ∧ scanLine n nType hasSection l = some x := by
  rw [scanItem] at h
  split at h
  next => cases h
  next l hl => exact ⟨l, hl, h⟩

theorem scanItem_mono (hnm : n ≤ m) (h : scanItem n nType atStart hasSection rest = some x) :
    scanItem m nType atStart hasSection rest = some x := by
  obtain ⟨l, hl, hx⟩ := scanItem_eq_some h
  rw [scanItem, skipLines_mono hnm hl]
  rcases scanLine_cases hx with ⟨-, hall⟩ | ⟨cs, -, hsec, hall⟩ | ⟨c, cs, -, -, -, hall⟩
  · exact hall m
  · exact (hall m hasSection).trans (scanSection_mono hnm hsec)
  · exact (hall m).2

theorem scanSection_success (h : scanSection n l cs = some x) (hx : x.nResult = sSuccess) :
    x.rest.length < cs.length ∧ x.value = none := by
  rw [scanSection] at h
  split at h
  next =>
    cases h
    exact absurd hx badFormat_ne_success
  next name r hname =>
    split at h
    next => cases h
    next r' hloop =>
      have hlt := sectionName_length hname
      have hle := headerLoop_length hloop
      cases h
      exact ⟨Nat.lt_of_le_of_lt hle hlt, rfl⟩

/-- A scan that succeeds has moved the pointer, would have done so with a section open,
and has found a property only with one open. -/
theorem scanItem_success (h : scanItem n nType atStart hasSection rest = some x)
    (hx : x.nResult = sSuccess) :
    x.rest.length < rest.length ∧
      scanItem n nType atStart true rest = some x ∧
      (x.value ≠ none → nType = .sourceWithSections → hasSection = true) := by
  obtain ⟨l, hl, hline⟩ := scanItem_eq_some h
  have hle := skipLines_length hl
  rw [scanItem, hl]
  rcases scanLine_cases hline with ⟨herr, -⟩ | ⟨cs, hrest, hsec, hall⟩ |
    ⟨c, cs, hrest, rfl, htype, hall⟩
  · exact absurd hx herr
  · obtain ⟨hlt, hvalue⟩ := scanSection_success hsec hx
    rw [hrest, length_cons] at hle
    exact ⟨by omega, (hall n true).trans hsec, fun hv => absurd hvalue hv⟩
  · obtain ⟨hlt, -⟩ := scanProperty_length hx
    rw [hrest] at hle
    exact ⟨by omega, (hall n).1, fun _ => htype⟩

theorem scanItem_hasSection (h : nType = .sourceWithSections → hasSection = true) :
    scanItem n nType atStart hasSection rest = scanItem n nType atStart true rest := by
  cases hasSection with
  | true => rfl
  | false =>
    have htype : nType ≠ .sourceWithSections := fun e => absurd (h e) (by decide)
    simp only [scanItem, scanLine, if_neg htype]

/-! ## Positions -/

/-- The next item starts with a section header that is followed by a stray character. -/
def StrayAt (ctx : Context) : Prop :=
  StrayHeader ctx.nType (ctx.nOffset == 0) (ctx.content.drop ctx.nOffset)

/-- With a section open, the scanner goes from one position to another. -/
def ItemAt (nType : ManifestType) (content : List UInt8) (o o' : Nat) : Prop :=
  ∃ n x, scanItem n nType (o == 0) true (content.drop o) = some x ∧ x.nResult = sSuccess ∧
    o' = content.length - x.rest.length

variable {content : List UInt8}

theorem ItemAt.bounds (h : ItemAt nType content o o') :
    o < o' ∧ o' ≤ content.length := by
  obtain ⟨n, x, hscan, hx, rfl⟩ := h
  have hlt := (scanItem_success hscan hx).1
  rw [length_drop] at hlt
  omega

/-- The positions of the items from one position up to another. -/
def Chain (nType : ManifestType) (content : List UInt8) : Nat → Nat → Prop :=
  Relation.ReflTransGen (ItemAt nType content)

theorem Chain.le (h : Chain nType content o o') : o ≤ o' := by
  induction h with
  | refl => exact Nat.le_refl o
  | tail _ hitem ih => exact Nat.le_trans ih (Nat.le_of_lt hitem.bounds.1)

/-- What a call of the scanner leaves in the context. -/
structure Scanned (ctx : Context) (item : Item) (ctx' : Context) : Prop where
  nType : ctx'.nType = ctx.nType
  content : ctx'.content = ctx.content
  failed : item.nResult ≠ sSuccess →
    ctx'.nOffset = ctx.nOffset ∧ ctx'.nSectionStartOffset = ctx.nSectionStartOffset
  moved : item.nResult = sSuccess → ItemAt ctx.nType ctx.content ctx.nOffset ctx'.nOffset
  header : item.nResult = sSuccess → item.value = none →
    ctx'.nSectionStartOffset = ctx'.nOffset
  property : item.nResult = sSuccess → item.value ≠ none →
    ctx'.nSectionStartOffset = ctx.nSectionStartOffset ∧
      (ctx.nType = .sourceWithSections → ctx.nSectionStartOffset ≠ 0)

theorem getNextItemInternal_scanned (h : getNextItemInternal n ctx = some (item, ctx')) :
    Scanned ctx item ctx' := by
  rw [getNextItemInternal] at h
  split at h
  next => cases h
  next x hscan =>
    cases h
    by_cases hx : x.nResult = sSuccess
    · obtain ⟨-, hopen, hprop⟩ := scanItem_success hscan hx
      simp only [Context.after, if_pos hx]
      refine ⟨rfl, rfl, fun hne => absurd hx hne, fun _ => ⟨n, x, hopen, hx, rfl⟩, ?_, ?_⟩
      · intro _ hv
        exact if_pos hv
      · intro _ hv
        refine ⟨if_neg hv, ?_⟩
        intro htype
        simpa using hprop hv htype
    · simp only [Context.after, if_neg hx]
      exact ⟨rfl, rfl, fun _ => ⟨rfl, rfl⟩, fun hs => absurd hs hx, fun hs => absurd hs hx,
        fun hs => absurd hs hx⟩

/-- After a scan that has succeeded in a manifest with sections, a section is open. -/
theorem Scanned.section_open (h : Scanned ctx item ctx') (hok : item.nResult = sSuccess)
    (htype : ctx.nType = .sourceWithSections) :
    ctx'.nSectionStartOffset ≠ 0 := by
  by_cases hv : item.value = none
  · have hpos := (h.moved hok).bounds.1
    rw [h.header hok hv]
    omega
  · obtain ⟨heq, hopen⟩ := h.property hok hv
    rw [heq]
    exact hopen htype

theorem getNextItemInternal_of_scan
    (hscan : scanItem m ctx.nType (ctx.nOffset == 0) true (ctx.content.drop ctx.nOffset) = some x)
    (hsec : ctx.nType = .sourceWithSections → ctx.nSectionStartOffset ≠ 0)
    (hn : ctx.content.length < n) :
    getNextItemInternal n ctx = some (⟨x.nResult, x.name, x.value⟩, ctx.after x) := by
  -- an item that was found once is not followed by a stray character
  have hns : ¬ StrayHeader ctx.nType (ctx.nOffset == 0) (ctx.content.drop ctx.nOffset) := by
    intro hs
    rw [scanItem_stray hs] at hscan
    cases hscan
  have hlen : (ctx.content.drop ctx.nOffset).length < n := by
    rw [length_drop]
    omega
  obtain ⟨y, hy⟩ : ∃ y, scanItem n ctx.nType (ctx.nOffset == 0) true
      (ctx.content.drop ctx.nOffset) = some y := scanItem_returns hns hlen
  obtain rfl : x = y := by
    have h₁ := scanItem_mono (Nat.le_max_left m n) hscan
    have h₂ := scanItem_mono (Nat.le_max_right m n) hy
    exact Option.some.inj (h₁.symm.trans h₂)
  have hsame : scanItem n ctx.nType (ctx.nOffset == 0) (ctx.nSectionStartOffset != 0)
      (ctx.content.drop ctx.nOffset) = some x := by
    rw [scanItem_hasSection, hy]
    intro htype
    simpa using hsec htype
  rw [getNextItemInternal, hsame]

theorem getNextItemInternal_at (hitem : ItemAt ctx.nType ctx.content ctx.nOffset o')
    (hsec : ctx.nType = .sourceWithSections → ctx.nSectionStartOffset ≠ 0)
    (hn : ctx.content.length < n) :
    ∃ item ctx', getNextItemInternal n ctx = some (item, ctx') ∧ item.nResult = sSuccess ∧
      ctx'.nOffset = o' := by
  obtain ⟨m, x, hscan, hx, rfl⟩ := hitem
  refine ⟨⟨x.nResult, x.name, x.value⟩, ctx.after x,
    getNextItemInternal_of_scan hscan hsec hn, hx, ?_⟩
  simp only [Context.after, if_pos hx]

/-! ## The loop over the earlier items -/

/-- The context is where a chain of items leads from the start of the manifest, and
from the start of the current section. -/
structure OnTrack (ctx : Context) : Prop where
  fromStart : Chain ctx.nType ctx.content 0 ctx.nOffset
  fromSection : ctx.nType = .sourceWithSections → ctx.nSectionStartOffset ≠ 0 →
    Chain ctx.nType ctx.content ctx.nSectionStartOffset ctx.nOffset

theorem duplicateLoop_returns {orig : Nat} (hchain : Chain ctx.nType ctx.content ctx.nOffset orig)
    (hsec : ctx.nType = .sourceWithSections → ctx.nSectionStartOffset ≠ 0)
    (horig : orig ≤ ctx.content.length) (hn : ctx.content.length < n) (flag : Bool) :
    ∃ s, loopM (duplicatePass n orig item) n (ctx, flag) = some s := by
  apply loopM_terminates
    (I := fun s => s.1.nType = ctx.nType ∧ s.1.content = ctx.content ∧
      Chain ctx.nType ctx.content s.1.nOffset orig ∧
      (ctx.nType = .sourceWithSections → s.1.nSectionStartOffset ≠ 0))
    (μ := fun s => orig - s.1.nOffset) _ ⟨rfl, rfl, hchain, hsec⟩
  · show orig - ctx.nOffset < n
    omega
  · intro s hs
    obtain ⟨htype, hcontent, hch, hopen⟩ := hs
    rw [← htype, ← hcontent] at hch
    by_cases hlt : s.1.nOffset < orig
    · -- before its end the chain has an item here, and the scanner goes where it goes
      obtain heq | ⟨o', hitem, hrest⟩ := Relation.ReflTransGen.cases_head hch
      · omega
      · obtain ⟨dup, ctx', hcall, hok, rfl⟩ := getNextItemInternal_at hitem
          (fun e => hopen (htype ▸ e)) (hcontent ▸ hn)
        have hscanned := getNextItemInternal_scanned hcall
        simp only [duplicatePass, if_pos hlt, hcall]
        split
        · exact Or.inl ⟨_, rfl⟩
        · refine Or.inr ⟨_, rfl, ⟨hscanned.nType.trans htype, hscanned.content.trans hcontent,
            ?_, ?_⟩, ?_⟩
          · rw [← htype, ← hcontent]
            exact hrest
          · intro htype'
            exact hscanned.section_open hok (htype.trans htype')
          · have hpos := hitem.bounds.1
            show orig - ctx'.nOffset < orig - s.1.nOffset
            omega
    · exact Or.inl ⟨s, by rw [duplicatePass, if_neg hlt]⟩

/-! ## Calls -/

theorem Chain.le_length (h : Chain nType content o o') (ho : o ≤ content.length) :
    o' ≤ content.length := by
  induction h with
  | refl => exact ho
  | tail _ hitem _ => exact hitem.bounds.2

theorem getNextItem_internal (h : getNextItem n ctx = some (item, ctx')) :
    ∃ item₀, getNextItemInternal n ctx = some (item₀, ctx') ∧
      (item.nResult = sSuccess → item₀.nResult = sSuccess) := by
  rw [getNextItem] at h
  split at h
  next => cases h
  next item₀ ctx₀ hcall =>
    split at h
    · cases h
      exact ⟨_, hcall, fun hs => hs⟩
    split at h
    · cases h
      exact ⟨_, hcall, fun hs => hs⟩
    split at h
    · cases h
      exact ⟨_, hcall, fun hs => absurd hs badFormat_ne_success⟩
    split at h
    · cases h
    · cases h
      exact ⟨_, hcall, fun hs => absurd hs badFormat_ne_success⟩
    · cases h
      exact ⟨_, hcall, fun hs => hs⟩

theorem getNextItem_stray (h : StrayAt ctx) (n : Nat) :
    getNextItem n ctx = none := by
  rw [getNextItem, getNextItemInternal, scanItem_stray h]

theorem Scanned.rescan_chain (h : Scanned ctx item ctx') (hok : item.nResult = sSuccess)
    (ht : OnTrack ctx) (hcompiled : ctx.nType ≠ .compiled) :
    Chain ctx'.nType ctx'.content (rescanOffset ctx' item) ctx.nOffset := by
  rw [rescanOffset, h.nType, h.content]
  split
  · exact ht.fromStart
  next hsource =>
    split
    · exact ht.fromStart
    next hv =>
      obtain ⟨heq, hopen⟩ := h.property hok hv
      have htype : ctx.nType = .sourceWithSections := by
        cases hc : ctx.nType with
        | compiled => exact absurd hc hcompiled
        | source => exact absurd hc hsource
        | sourceWithSections => rfl
      rw [heq]
      exact ht.fromSection htype (hopen htype)

theorem getNextItem_returns (ht : OnTrack ctx) (hs : ¬ StrayAt ctx) (hn : ctx.content.length < n) :
    ∃ r, getNextItem n ctx = some r := by
  have hlen : (ctx.content.drop ctx.nOffset).length < n := by
    rw [length_drop]
    omega
  obtain ⟨x, hx⟩ : ∃ x, scanItem n ctx.nType (ctx.nOffset == 0) (ctx.nSectionStartOffset != 0)
      (ctx.content.drop ctx.nOffset) = some x := scanItem_returns hs hlen
  obtain ⟨item, ctx', hcall⟩ : ∃ item ctx', getNextItemInternal n ctx = some (item, ctx') :=
    ⟨_, _, by rw [getNextItemInternal, hx]⟩
  have hscanned := getNextItemInternal_scanned hcall
  simp only [getNextItem, hcall]
  split
  · exact ⟨_, rfl⟩
  next hcompiled =>
    split
    · exact ⟨_, rfl⟩
    next hok =>
      have hok' : item.nResult = sSuccess := by simpa using hok
      split
      · exact ⟨_, rfl⟩
      next =>
        have hloop : ∃ s, loopM (duplicatePass n ctx.nOffset item) n
            ({ ctx' with nOffset := rescanOffset ctx' item }, false) = some s := by
          apply duplicateLoop_returns
          · exact hscanned.rescan_chain hok' ht hcompiled
          · intro htype
            exact hscanned.section_open hok' (hscanned.nType ▸ htype)
          · show ctx.nOffset ≤ ctx'.content.length
            rw [hscanned.content]
            exact ht.fromStart.le_length (Nat.zero_le _)
          · show ctx'.content.length < n
            rw [hscanned.content]
            exact hn
        obtain ⟨⟨_, flag⟩, hs'⟩ := hloop
        rw [hs']
        cases flag with
        | true => exact ⟨_, rfl⟩
        | false => exact ⟨_, rfl⟩

theorem getNextItem_onTrack (ht : OnTrack ctx) (h : getNextItem n ctx = some (item, ctx')) :
    OnTrack ctx' := by
  obtain ⟨item₀, hcall, -⟩ := getNextItem_internal h
  have hscanned := getNextItemInternal_scanned hcall
  by_cases hok : item₀.nResult = sSuccess
  · have hmoved := hscanned.moved hok
    constructor
    · rw [hscanned.nType, hscanned.content]
      exact ht.fromStart.tail hmoved
    · intro htype hne
      rw [hscanned.nType] at htype
      rw [hscanned.nType, hscanned.content]
      by_cases hv : item₀.value = none
      · rw [hscanned.header hok hv]
        exact Relation.ReflTransGen.refl
      · rw [(hscanned.property hok hv).1] at hne ⊢
        exact (ht.fromSection htype hne).tail hmoved
  · obtain ⟨hoff, hsec⟩ := hscanned.failed hok
    constructor
    · rw [hscanned.nType, hscanned.content, hoff]
      exact ht.fromStart
    · rw [hscanned.nType, hscanned.content, hoff, hsec]
      exact ht.fromSection

theorem getNextItemInternal_mono (hnm : n ≤ m) {r : Item × Context}
    (h : getNextItemInternal n ctx = some r) : getNextItemInternal m ctx = some r := by
  rw [getNextItemInternal] at h ⊢
  split at h
  next => cases h
  next x hx =>
    rw [scanItem_mono hnm hx]
    exact h

theorem duplicatePass_mono {orig : Nat} (hnm : n ≤ m) (s : Context × Bool)
    (x : Flow (Context × Bool)) (h : duplicatePass n orig item s = some x) :
    duplicatePass m orig item s = some x := by
  rw [duplicatePass] at h ⊢
  by_cases hlt : s.1.nOffset < orig
  · rw [if_pos hlt] at h ⊢
    cases hcall : getNextItemInternal n s.1 with
    | none =>
      rw [hcall] at h
      cases h
    | some r =>
      rw [hcall] at h
      rw [getNextItemInternal_mono hnm hcall]
      exact h
  · rw [if_neg hlt] at h ⊢
    exact h

theorem getNextItem_mono (hnm : n ≤ m) {r : Item × Context} (h : getNextItem n ctx = some r) :
    getNextItem m ctx = some r := by
  rw [getNextItem] at h ⊢
  cases hcall : getNextItemInternal n ctx with
  | none =>
    rw [hcall] at h
    cases h
  | some r₀ =>
    obtain ⟨item, ctx'⟩ := r₀
    rw [hcall] at h
    rw [getNextItemInternal_mono hnm hcall]
    simp only at h ⊢
    split at h
    next hc => rwa [if_pos hc]
    next hc =>
      rw [if_neg hc]
      split at h
      next he => rwa [if_pos he]
      next he =>
        rw [if_neg he]
        split at h
        next hp => rwa [if_pos hp]
        next hp =>
          rw [if_neg hp]
          cases hloop : loopM (duplicatePass n ctx.nOffset item) n
              ({ ctx' with nOffset := rescanOffset ctx' item }, false) with
          | none =>
            rw [hloop] at h
            cases h
          | some s =>
            rw [hloop] at h
            rw [loopM_mono (duplicatePass_mono hnm) hnm hloop]
            exact h

/-- The contexts of a manifest: after `libManifest2InitContext`, and after any call that
returns. -/
inductive Reached (nType : ManifestType) (content : List UInt8) : Context → Prop where
  | init : Reached nType content (.init nType content)
  | call {n : Nat} {ctx ctx' : Context} {item : Item} (h : Reached nType content ctx)
      (hcall : getNextItem n ctx = some (item, ctx')) : Reached nType content ctx'

/-- The contexts in which `libManifest2CheckFormat` makes its calls: every one before has
succeeded. -/
inductive Visited (nType : ManifestType) (content : List UInt8) : Context → Prop where
  | init : Visited nType content (.init nType content)
  | call {n : Nat} {ctx ctx' : Context} {item : Item} (h : Visited nType content ctx)
      (hcall : getNextItem n ctx = some (item, ctx')) (hok : item.nResult = sSuccess) :
      Visited nType content ctx'

theorem Visited.reached (h : Visited nType content ctx) :
    Reached nType content ctx := by
  induction h with
  | init => exact .init
  | call _ hcall _ ih => exact .call ih hcall

theorem Reached.onTrack (h : Reached nType content ctx) :
    ctx.nType = nType ∧ ctx.content = content ∧ OnTrack ctx := by
  induction h with
  | init =>
    refine ⟨rfl, rfl, Relation.ReflTransGen.refl, ?_⟩
    intro _ hne
    exact absurd rfl hne
  | call _ hcall ih =>
    obtain ⟨htype, hcontent, ht⟩ := ih
    obtain ⟨item₀, hint, -⟩ := getNextItem_internal hcall
    have hscanned := getNextItemInternal_scanned hint
    exact ⟨hscanned.nType.trans htype, hscanned.content.trans hcontent,
      getNextItem_onTrack ht hcall⟩

theorem getNextItem_progress (h : getNextItem n ctx = some (item, ctx'))
    (hok : item.nResult = sSuccess) :
    ctx.nOffset < ctx'.nOffset ∧ ctx'.nOffset ≤ ctx.content.length := by
  obtain ⟨item₀, hint, hsuccess⟩ := getNextItem_internal h
  exact ((getNextItemInternal_scanned hint).moved (hsuccess hok)).bounds

/-! ## All items -/

theorem checkPass_mono (hnm : n ≤ m) (s : Check) (x : Flow Check) (h : checkPass n s = some x) :
    checkPass m s = some x := by
  rw [checkPass] at h ⊢
  cases hcall : getNextItem n s.ctx with
  | none =>
    rw [hcall] at h
    cases h
  | some r =>
    rw [hcall] at h
    rw [getNextItem_mono hnm hcall]
    exact h

theorem checkPass_success {s : Check} (h : getNextItem n s.ctx = some (item, ctx'))
    (hok : item.nResult = sSuccess) :
    checkPass n s =
      some (.next { s with ctx := ctx', nPropertyCount := s.nPropertyCount + 1 }) := by
  have hne : ¬ sSuccess = sErrorItemNotFound := fun e => itemNotFound_ne_success e.symm
  simp only [checkPass, h, hok, if_neg hne, ne_eq, not_true_eq_false, if_false]

theorem checkLoop_visited {t : Check} (hv : Visited nType content ctx)
    (h : loopM (checkPass n) k ⟨.init nType content, 0, sSuccess⟩ = some t) :
    ∃ n' k' count, loopM (checkPass n') k' ⟨ctx, count, sSuccess⟩ = some t := by
  induction hv with
  | init => exact ⟨n, k, 0, h⟩
  | @call m ctx ctx' item _ hcall hok ih =>
    obtain ⟨n', k', count, hloop⟩ := ih
    -- with the passes of both, the loop makes this call and goes on from its context
    have hbig := loopM_mono (checkPass_mono (Nat.le_max_left n' m)) (Nat.le_refl k') hloop
    have hpass := checkPass_success (s := ⟨ctx, count, sSuccess⟩)
      (getNextItem_mono (Nat.le_max_right n' m) hcall) hok
    obtain ⟨j, -, hstop | ⟨s', hnext, hrest⟩⟩ := loopM_eq_some hbig
    · rw [hpass] at hstop
      cases hstop
    · rw [hpass] at hnext
      cases hnext
      exact ⟨max n' m, j, count + 1, hrest⟩

theorem checkFormat_returns_iff (nType : ManifestType) (content : List UInt8) :
    (∃ r, Returns (fun n => checkFormat n nType content) r) ↔
      ∀ ctx, Visited nType content ctx → ¬ StrayAt ctx := by
  constructor
  · intro h ctx hv hs
    obtain ⟨r, n, hr⟩ := h
    obtain ⟨n', k', count, hloop⟩ := checkLoop_visited hv hr
    obtain ⟨j, -, hstop | ⟨s', hnext, -⟩⟩ := loopM_eq_some hloop
    · simp only [checkPass, getNextItem_stray hs] at hstop
      cases hstop
    · simp only [checkPass, getNextItem_stray hs] at hnext
      cases hnext
  · intro hgood
    have hloop : ∃ t, loopM (checkPass (content.length + 1)) (content.length + 1)
        ⟨.init nType content, 0, sSuccess⟩ = some t := by
      apply loopM_terminates (I := fun s : Check => Visited nType content s.ctx)
        (μ := fun s => content.length - s.ctx.nOffset) _ Visited.init
      · show content.length - 0 < content.length + 1
        omega
      · intro s hv
        obtain ⟨-, hcontent, ht⟩ := hv.reached.onTrack
        have hlen : s.ctx.content.length < content.length + 1 := by
          rw [hcontent]
          omega
        obtain ⟨⟨item, ctx'⟩, hcall⟩ := getNextItem_returns ht (hgood s.ctx hv) hlen
        by_cases hok : item.nResult = sSuccess
        · have hpos := getNextItem_progress hcall hok
          rw [hcontent] at hpos
          refine Or.inr ⟨_, checkPass_success hcall hok, .call hv hcall hok, ?_⟩
          show content.length - ctx'.nOffset < content.length - s.ctx.nOffset
          omega
        · left
          simp only [checkPass, hcall]
          split
          · exact ⟨_, rfl⟩
          · exact ⟨_, rfl⟩
    obtain ⟨t, ht⟩ := hloop
    exact ⟨t, content.length + 1, ht⟩

/-- For every manifest: checking its format returns exactly when none of the calls that
this makes stands before a section header with a stray character behind it; and every
call, in any context that calls lead to, returns, with the offset moved on inside the
manifest if it succeeds, exactly when it does not stand before one. -/
theorem manifest_terminates_iff (nType : ManifestType) (content : List UInt8) :
    ((∃ r, Returns (fun n => checkFormat n nType content) r) ↔
      ∀ ctx, Visited nType content ctx → ¬ StrayAt ctx) ∧
    ∀ ctx, Reached nType content ctx →
      ((∃ item ctx', Returns (fun n => getNextItem n ctx) (item, ctx') ∧
          (item.nResult = sSuccess →
            ctx.nOffset < ctx'.nOffset ∧ ctx'.nOffset ≤ content.length)) ↔
        ¬ StrayAt ctx) := by
  refine ⟨checkFormat_returns_iff nType content, ?_⟩
  intro ctx hreached
  obtain ⟨-, hcontent, ht⟩ := hreached.onTrack
  constructor
  · intro h hs
    obtain ⟨item, ctx', ⟨n, hcall⟩, -⟩ := h
    simp only [getNextItem_stray hs] at hcall
    cases hcall
  · intro hs
    obtain ⟨⟨item, ctx'⟩, hcall⟩ := getNextItem_returns ht hs (Nat.lt_succ_self _)
    refine ⟨item, ctx', ⟨_, hcall⟩, ?_⟩
    intro hok
    rw [← hcontent]
    exact getNextItem_progress hcall hok

/-- `[a]`, a line end and `b:c`. -/
def sectionAndProperty : List UInt8 := [0x5B, 0x61, 0x5D, 0x0A, 0x62, 0x3A, 0x63]

theorem manifest_terminates_first_item :
    ∃ item ctx', Returns
        (fun n => getNextItem n (.init .sourceWithSections sectionAndProperty)) (item, ctx') ∧
      (item.nResult = sSuccess → 0 < ctx'.nOffset ∧ ctx'.nOffset ≤ 7) := by
  refine ((manifest_terminates_iff .sourceWithSections sectionAndProperty).2 _ .init).mpr ?_
  intro hs
  exact absurd (getNextItem_stray hs 8) (by decide)

/-- `[a]x`. -/
def headerAndLetter : List UInt8 := [0x5B, 0x61, 0x5D, 0x78]

theorem headerAndLetter_stray : StrayAt (.init .sourceWithSections headerAndLetter) :=
  ⟨rfl, 5, ⟨headerAndLetter, 0, false⟩, [0x61, 0x5D, 0x78], [0x61], [0x78], rfl, rfl, rfl, rfl,
    0x78, [], rfl, rfl⟩

/-- On `[a]x` neither the check nor the first call ever returns. -/
theorem manifest_hangs :
    (¬ ∃ r, Returns (fun n => checkFormat n .sourceWithSections headerAndLetter) r) ∧
      ¬ ∃ r, Returns (fun n => getNextItem n (.init .sourceWithSections headerAndLetter)) r := by
  refine ⟨?_, ?_⟩
  · intro h
    exact (checkFormat_returns_iff _ _).mp h _ .init headerAndLetter_stray
  · intro h
    obtain ⟨r, n, hr⟩ := h
    simp only [getNextItem_stray headerAndLetter_stray n] at hr
    cases hr

end Omap4Hal.Security
