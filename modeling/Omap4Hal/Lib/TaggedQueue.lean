import Mathlib.Data.List.Perm.Basic

/- Several first-in first-out queues kept in one list. Each entry carries the tag
   of its queue; entries are added at the end, and taking from a queue removes
   the first entry with its tag.

   The same with a test in place of the tag. `TakesOldest` says what taking should do;
   `takesOldest_iff` says when a wider test takes the right entry. -/
namespace Omap4Hal.Lib

variable {ι α : Type} [DecidableEq ι]

/-- The first entry of queue `t`, and the rest of the list. -/
def takeTag (t : ι) : List (ι × α) → Option (α × List (ι × α))
  | [] => none
  | e :: q => if e.1 = t then some (e.2, q) else (takeTag t q).map fun r => (r.1, e :: r.2)

/-- Taking an entry splits the list around it, and nothing of its queue was
before it. -/
theorem takeTag_eq_some {t : ι} {q : List (ι × α)} {x : α} {q' : List (ι × α)}
    (h : takeTag t q = some (x, q')) :
    ∃ l r, q = l ++ (t, x) :: r ∧ q' = l ++ r ∧ ∀ e ∈ l, e.1 ≠ t := by
  induction q generalizing q' with
  | nil => cases h
  | cons e q ih =>
    simp only [takeTag] at h
    split at h
    · next he =>
      simp only [Option.some.injEq, Prod.mk.injEq] at h
      refine ⟨[], q, ?_, h.2.symm, fun _ hm => by cases hm⟩
      rw [← he, ← h.1]
      rfl
    · next he =>
      simp only [Option.map_eq_some_iff] at h
      obtain ⟨⟨y, q''⟩, hy, heq⟩ := h
      simp only [Prod.mk.injEq] at heq
      obtain ⟨l, r, hq, hq'', hl⟩ := ih (heq.1 ▸ hy)
      refine ⟨e :: l, r, by rw [hq]; rfl, by rw [← heq.2, hq'']; rfl, ?_⟩
      intro f hf
      rcases List.mem_cons.mp hf with hf | hf
      · rw [hf]
        exact he
      · exact hl f hf

theorem takeTag_perm {t : ι} {q : List (ι × α)} {x : α} {q' : List (ι × α)}
    (h : takeTag t q = some (x, q')) : q.Perm ((t, x) :: q') := by
  obtain ⟨l, r, hq, hq', _⟩ := takeTag_eq_some h
  rw [hq, hq']
  exact List.perm_middle

/-! ## A test in place of the tag -/

section Test

variable {p : α → Bool} {P : α → Prop} {q q' : List α}

/-- The first entry that passes the test, and the rest of the list. -/
def takeFirst (p : α → Bool) : List α → Option (α × List α)
  | [] => none
  | x :: q => if p x then some (x, q) else (takeFirst p q).map fun r => (r.1, x :: r.2)

theorem takeFirst_eq_none (h : takeFirst p q = none) : ∀ x ∈ q, p x = false := by
  induction q with
  | nil => simp
  | cons y q ih =>
    rw [takeFirst] at h
    split at h
    · cases h
    · next hy =>
      intro x hx
      rcases List.mem_cons.mp hx with rfl | hx
      · exact Bool.of_not_eq_true hy
      · exact ih (Option.map_eq_none_iff.mp h) x hx

theorem takeFirst_eq_some {x : α} (h : takeFirst p q = some (x, q')) :
    ∃ as bs, q = as ++ x :: bs ∧ q' = as ++ bs ∧ p x = true ∧ ∀ a ∈ as, p a = false := by
  induction q generalizing q' with
  | nil => cases h
  | cons y q ih =>
    rw [takeFirst] at h
    split at h
    · next hy =>
      cases Option.some.inj h
      exact ⟨[], q, rfl, rfl, hy, by simp⟩
    · next hy =>
      obtain ⟨⟨z, r⟩, hz, heq⟩ := Option.map_eq_some_iff.mp h
      cases heq
      obtain ⟨as, bs, rfl, rfl, hx, has⟩ := ih hz
      refine ⟨y :: as, bs, rfl, rfl, hx, ?_⟩
      intro a ha
      rcases List.mem_cons.mp ha with rfl | ha
      · exact Bool.of_not_eq_true hy
      · exact has a ha

/-- The oldest entry with the property is taken, or there is none. -/
def TakesOldest (P : α → Prop) (q q' : List α) : Option α → Prop
  | none => q' = q ∧ ∀ x ∈ q, ¬ P x
  | some x => ∃ as bs, q = as ++ x :: bs ∧ q' = as ++ bs ∧ P x ∧ ∀ a ∈ as, ¬ P a

theorem TakesOldest.unique {a b : Option α} (ha : TakesOldest P q q' a)
    (hb : q.Perm (b.toList ++ q')) : a = b := by
  have hperm : q.Perm (a.toList ++ q') := by
    cases a with
    | none =>
      rw [ha.1]
      exact .refl _
    | some x =>
      obtain ⟨as, bs, rfl, rfl, -⟩ := ha
      exact List.perm_middle
  have hlist := (List.perm_append_right_iff q').mp (hperm.symm.trans hb)
  cases a with
  | none => cases b with
    | none => rfl
    | some y => exact absurd hlist.length_eq (by simp)
  | some x => cases b with
    | none => exact absurd hlist.length_eq (by simp)
    | some y => exact congrArg some (List.singleton_perm_singleton.mp hlist)

theorem takeFirst_perm (p : α → Bool) (q : List α) :
    q.Perm (((takeFirst p q).map Prod.fst).toList ++ (takeFirst p q).elim q Prod.snd) := by
  cases htake : takeFirst p q with
  | none => exact .refl _
  | some r =>
    obtain ⟨x, q'⟩ := r
    obtain ⟨as, bs, rfl, rfl, -⟩ := takeFirst_eq_some htake
    exact List.perm_middle

theorem perm_of_takeFirst {x : α} (h : takeFirst p q = some (x, q')) : q.Perm (x :: q') := by
  obtain ⟨as, bs, rfl, rfl, -⟩ := takeFirst_eq_some h
  exact List.perm_middle

/-- What a test takes that all entries with the property pass: the right entry, if every other
entry that passes stands behind one with the property. -/
theorem takesOldest_iff (hp : ∀ x, P x → p x = true) :
    TakesOldest P q ((takeFirst p q).elim q Prod.snd) ((takeFirst p q).map Prod.fst) ↔
      ∀ as x bs, q = as ++ x :: bs → p x = true → ¬ P x → ∃ a ∈ as, P a := by
  constructor
  · intro h as x bs hq hx hnot
    by_contra hno
    cases htake : takeFirst p q with
    | none =>
      have hfalse := takeFirst_eq_none htake x (by simp [hq])
      rw [hx] at hfalse
      cases hfalse
    | some r =>
      obtain ⟨y, q'⟩ := r
      obtain ⟨cs, ds, hq', -, hy, hcs⟩ := takeFirst_eq_some htake
      rw [htake] at h
      obtain ⟨-, -, -, -, hPy, -⟩ := h
      rw [hq] at hq'
      -- `y` is the first that passes, so it is not behind `x`
      rcases List.append_eq_append_iff.mp hq' with ⟨es, hcs', hes⟩ | ⟨es, has, hes⟩
      · cases es with
        | nil =>
          obtain rfl : x = y := (List.cons.inj hes).1
          exact hnot hPy
        | cons e es =>
          obtain rfl : x = e := (List.cons.inj hes).1
          have hfalse := hcs x (by simp [hcs'])
          rw [hx] at hfalse
          cases hfalse
      · cases es with
        | nil =>
          obtain rfl : y = x := (List.cons.inj hes).1
          exact hnot hPy
        | cons e es =>
          obtain rfl : y = e := (List.cons.inj hes).1
          exact hno ⟨y, by simp [has], hPy⟩
  · intro h
    cases htake : takeFirst p q with
    | none =>
      refine ⟨rfl, ?_⟩
      intro x hx hPx
      have hfalse := takeFirst_eq_none htake x hx
      rw [hp x hPx] at hfalse
      cases hfalse
    | some r =>
      obtain ⟨x, q'⟩ := r
      obtain ⟨as, bs, hq, hq', hx, has⟩ := takeFirst_eq_some htake
      have hnone : ∀ a ∈ as, ¬ P a := by
        intro a ha hPa
        have hfalse := has a ha
        rw [hp a hPa] at hfalse
        cases hfalse
      refine ⟨as, bs, hq, hq', ?_, hnone⟩
      by_contra hnot
      obtain ⟨a, ha, hPa⟩ := h as x bs hq hx hnot
      exact hnone a ha hPa

end Test

end Omap4Hal.Lib
