import Mathlib.Data.List.Basic

/- Binary search trees without balancing. A descent is steered by a comparison `c` of
   what is sought with the element at a node: `.gt` leads to the right, `.lt` to the
   left. `find` returns the element where it ends, `insert` puts a new leaf there.

   `Attached` says where the new leaf is: below which element, and on which side. In
   the list of the elements it then stands next to that element. -/
namespace Omap4Hal.Lib

inductive BinTree (α : Type) where
  | leaf
  | node (l : BinTree α) (a : α) (r : BinTree α)
  deriving DecidableEq, Repr

namespace BinTree

variable {α : Type}

/-- The elements from left to right. -/
def toList : BinTree α → List α
  | leaf => []
  | node l a r => l.toList ++ a :: r.toList

/-- `R` holds from left to right, at every node. -/
def Ordered (R : α → α → Prop) : BinTree α → Prop
  | leaf => True
  | node l a r => l.Ordered R ∧ r.Ordered R ∧ (∀ x ∈ l.toList, R x a) ∧ ∀ x ∈ r.toList, R a x

def find (c : α → Ordering) : BinTree α → Option α
  | leaf => none
  | node l a r =>
    match c a with
    | .gt => r.find c
    | .lt => l.find c
    | .eq => some a

/-- `none` where the element is there already. -/
def insert (c : α → Ordering) (x : α) : BinTree α → Option (BinTree α)
  | leaf => some (node leaf x leaf)
  | node l a r =>
    match c a with
    | .gt => (r.insert c x).map fun r' => node l a r'
    | .lt => (l.insert c x).map fun l' => node l' a r
    | .eq => none

variable {x a b : α} {R : α → α → Prop} {t t' : BinTree α} {c : α → Ordering}

@[simp] theorem mem_toList_node {l r : BinTree α} :
    x ∈ (node l a r).toList ↔ x ∈ l.toList ∨ x = a ∨ x ∈ r.toList := by
  simp [toList]

/-! ## Order -/

theorem Ordered.pairwise (htrans : ∀ x y z, R x y → R y z → R x z) (h : t.Ordered R) :
    t.toList.Pairwise R := by
  induction t with
  | leaf => exact List.Pairwise.nil
  | node l a r ihl ihr =>
    obtain ⟨hl, hr, hla, har⟩ := h
    rw [toList, List.pairwise_append]
    refine ⟨ihl hl, List.pairwise_cons.mpr ⟨har, ihr hr⟩, ?_⟩
    intro x hx y hy
    rcases List.mem_cons.mp hy with rfl | hy
    · exact hla x hx
    · exact htrans x a y (hla x hx) (har y hy)

/-! ## Descents -/

theorem find_eq_some (h : t.find c = some a) :
    a ∈ t.toList ∧ c a = .eq := by
  induction t with
  | leaf => cases h
  | node l b r ihl ihr =>
    rw [find] at h
    rw [mem_toList_node]
    cases hc : c b with
    | gt =>
      rw [hc] at h
      obtain ⟨hmem, heq⟩ := ihr h
      exact ⟨Or.inr (Or.inr hmem), heq⟩
    | lt =>
      rw [hc] at h
      obtain ⟨hmem, heq⟩ := ihl h
      exact ⟨Or.inl hmem, heq⟩
    | eq =>
      rw [hc, Option.some.injEq] at h
      subst h
      exact ⟨Or.inr (Or.inl rfl), hc⟩

/-- In an ordered tree the descent reaches an element that compares equal. -/
theorem find_of_mem (h : t.Ordered R) (hlt : ∀ b, R a b → c b = .lt) (hgt : ∀ b, R b a → c b = .gt)
    (hmem : a ∈ t.toList) (heq : c a = .eq) : t.find c = some a := by
  induction t with
  | leaf => cases hmem
  | node l b r ihl ihr =>
    obtain ⟨hl, hr, hlb, hbr⟩ := h
    rw [find]
    rcases mem_toList_node.mp hmem with hmem | rfl | hmem
    · rw [hlt b (hlb a hmem)]
      exact ihl hl hmem
    · rw [heq]
    · rw [hgt b (hbr a hmem)]
      exact ihr hr hmem

/-- The descent by `c` in a tree that `d` has ordered: at every element it passes, if
anything from there on compares equal, something does that `d` puts on the side to which
the descent turns. -/
def Agrees (c : α → Ordering) (d : α → α → Ordering) : BinTree α → Prop
  | leaf => True
  | node l a r =>
    ((∃ x ∈ (node l a r).toList, c x = .eq) →
      ∃ x ∈ (node l a r).toList, c x = .eq ∧ d x a = c a) ∧
    match c a with
    | .gt => r.Agrees c d
    | .lt => l.Agrees c d
    | .eq => True

/-- One turn of a descent, into the subtree `s` of `t`, in which are the elements of `t`
that satisfy `D`. -/
theorem turn_iff {s : BinTree α} {D : α → Prop} {A : Prop}
    (hsub : ∀ x ∈ s.toList, x ∈ t.toList ∧ D x) (hD : ∀ x ∈ t.toList, D x → x ∈ s.toList)
    (ih : ((∃ a, s.find c = some a) ↔ ∃ x ∈ s.toList, c x = .eq) ↔ A) :
    ((∃ a, s.find c = some a) ↔ ∃ x ∈ t.toList, c x = .eq) ↔
      ((∃ x ∈ t.toList, c x = .eq) → ∃ x ∈ t.toList, c x = .eq ∧ D x) ∧ A := by
  have hfound : (∃ a, s.find c = some a) → ∃ x ∈ s.toList, c x = .eq := by
    rintro ⟨a, ha⟩
    exact ⟨a, find_eq_some ha⟩
  have hup : (∃ x ∈ s.toList, c x = .eq) → ∃ x ∈ t.toList, c x = .eq ∧ D x := by
    rintro ⟨x, hx, hcx⟩
    exact ⟨x, (hsub x hx).1, hcx, (hsub x hx).2⟩
  have hdown : (∃ x ∈ t.toList, c x = .eq ∧ D x) → ∃ x ∈ s.toList, c x = .eq := by
    rintro ⟨x, hx, hcx, hDx⟩
    exact ⟨x, hD x hx hDx, hcx⟩
  have hdrop : (∃ x ∈ t.toList, c x = .eq ∧ D x) → ∃ x ∈ t.toList, c x = .eq := by
    rintro ⟨x, hx, hcx, -⟩
    exact ⟨x, hx, hcx⟩
  rw [← ih]
  constructor
  · intro h
    exact ⟨fun hex => hup (hfound (h.mpr hex)),
      hfound, fun hex => h.mpr (hdrop (hup hex))⟩
  · rintro ⟨hturn, h⟩
    exact ⟨fun hf => hdrop (hup (hfound hf)), fun hex => h.mpr (hdown (hturn hex))⟩

/-- A descent finds something whenever there is something that compares equal, exactly if
on its way the two comparisons agree. -/
theorem find_complete_iff {d : α → α → Ordering} (h : t.Ordered R)
    (hlt : ∀ x y, R x y → d x y = .lt) (hgt : ∀ x y, R x y → d y x = .gt)
    (heq : ∀ x ∈ t.toList, d x x = .eq) :
    ((∃ a, t.find c = some a) ↔ ∃ x ∈ t.toList, c x = .eq) ↔ t.Agrees c d := by
  induction t with
  | leaf => simp [find, toList, Agrees]
  | node l a r ihl ihr =>
    obtain ⟨hl, hr, hla, har⟩ := h
    simp only [mem_toList_node] at heq
    have hself : d a a = .eq := heq a (Or.inr (Or.inl rfl))
    rw [find, Agrees]
    cases hc : c a with
    | eq =>
      refine iff_of_true (iff_of_true ⟨a, rfl⟩ ⟨a, by simp, hc⟩) ⟨?_, trivial⟩
      intro _
      exact ⟨a, by simp, hc, hself⟩
    | gt =>
      apply turn_iff _ _ (ihr hr fun x hx => heq x (Or.inr (Or.inr hx)))
      · intro x hx
        exact ⟨by simp [hx], hgt a x (har x hx)⟩
      · intro x hx hdx
        rcases mem_toList_node.mp hx with hx | rfl | hx
        · cases (hlt x a (hla x hx)).symm.trans hdx
        · cases hself.symm.trans hdx
        · exact hx
    | lt =>
      apply turn_iff _ _ (ihl hl fun x hx => heq x (Or.inl hx))
      · intro x hx
        exact ⟨by simp [hx], hlt x a (hla x hx)⟩
      · intro x hx hdx
        rcases mem_toList_node.mp hx with hx | rfl | hx
        · exact hx
        · cases hself.symm.trans hdx
        · cases (hgt a x (har x hx)).symm.trans hdx

theorem insert_eq_none :
    t.insert c x = none ↔ ∃ a, t.find c = some a := by
  induction t with
  | leaf => simp [insert, find]
  | node l b r ihl ihr =>
    rw [insert, find]
    cases hc : c b with
    | gt => simp only [Option.map_eq_none_iff, ihr]
    | lt => simp only [Option.map_eq_none_iff, ihl]
    | eq => simp

theorem mem_insert {y : α} (h : t.insert c x = some t') :
    y ∈ t'.toList ↔ y = x ∨ y ∈ t.toList := by
  induction t generalizing t' with
  | leaf =>
    simp only [insert, Option.some.injEq] at h
    subst h
    simp [toList]
  | node l b r ihl ihr =>
    rw [insert] at h
    cases hc : c b with
    | gt =>
      rw [hc] at h
      obtain ⟨r', hr', rfl⟩ := Option.map_eq_some_iff.mp h
      simp only [mem_toList_node, ihr hr']
      tauto
    | lt =>
      rw [hc] at h
      obtain ⟨l', hl', rfl⟩ := Option.map_eq_some_iff.mp h
      simp only [mem_toList_node, ihl hl']
      tauto
    | eq =>
      rw [hc] at h
      cases h

theorem length_insert (h : t.insert c x = some t') :
    t'.toList.length = t.toList.length + 1 := by
  induction t generalizing t' with
  | leaf =>
    simp only [insert, Option.some.injEq] at h
    subst h
    rfl
  | node l b r ihl ihr =>
    rw [insert] at h
    cases hc : c b with
    | gt =>
      rw [hc] at h
      obtain ⟨r', hr', rfl⟩ := Option.map_eq_some_iff.mp h
      simp only [toList, List.length_append, List.length_cons, ihr hr']
      omega
    | lt =>
      rw [hc] at h
      obtain ⟨l', hl', rfl⟩ := Option.map_eq_some_iff.mp h
      simp only [toList, List.length_append, List.length_cons, ihl hl']
      omega
    | eq =>
      rw [hc] at h
      cases h

theorem Ordered.insert (h : t.Ordered R) (hlt : ∀ b, c b = .lt → R x b)
    (hgt : ∀ b, c b = .gt → R b x) (hins : t.insert c x = some t') : t'.Ordered R := by
  induction t generalizing t' with
  | leaf =>
    simp only [BinTree.insert, Option.some.injEq] at hins
    subst hins
    simp [Ordered, toList]
  | node l b r ihl ihr =>
    obtain ⟨hl, hr, hlb, hbr⟩ := h
    rw [BinTree.insert] at hins
    cases hc : c b with
    | gt =>
      rw [hc] at hins
      obtain ⟨r', hr', rfl⟩ := Option.map_eq_some_iff.mp hins
      refine ⟨hl, ihr hr hr', hlb, ?_⟩
      intro y hy
      rcases (mem_insert hr').mp hy with rfl | hy
      · exact hgt b hc
      · exact hbr y hy
    | lt =>
      rw [hc] at hins
      obtain ⟨l', hl', rfl⟩ := Option.map_eq_some_iff.mp hins
      refine ⟨ihl hl hl', hr, ?_, hbr⟩
      intro y hy
      rcases (mem_insert hl').mp hy with rfl | hy
      · exact hlt b hc
      · exact hlb y hy
    | eq =>
      rw [hc] at hins
      cases hins

/-! ## Where the new leaf is -/

/-- The two sides below an element. -/
inductive Side where
  | left
  | right
  deriving DecidableEq, Repr

/-- The second tree is the first with a leaf for `x` below `b`, on a side that was
empty. -/
inductive Attached (x b : α) : Side → BinTree α → BinTree α → Prop where
  | here_right {l : BinTree α} : Attached x b .right (node l b leaf) (node l b (node leaf x leaf))
  | here_left {r : BinTree α} : Attached x b .left (node leaf b r) (node (node leaf x leaf) b r)
  | in_right {s : Side} {l r r' : BinTree α} {a : α} (h : Attached x b s r r') :
      Attached x b s (node l a r) (node l a r')
  | in_left {s : Side} {l l' r : BinTree α} {a : α} (h : Attached x b s l l') :
      Attached x b s (node l a r) (node l' a r)

theorem Attached.mem {s : Side} (h : Attached x b s t t') :
    b ∈ t.toList := by
  induction h with
  | here_right => simp
  | here_left => simp
  | in_right _ ih => simp [ih]
  | in_left _ ih => simp [ih]

/-- A leaf on the right comes right behind the element it is below, and one on the left
right before it. -/
theorem Attached.toList_eq {s : Side} (h : Attached x b s t t') :
    ∃ as bs, t.toList = as ++ b :: bs ∧
      t'.toList = match s with
        | .right => as ++ b :: x :: bs
        | .left => as ++ x :: b :: bs := by
  induction h with
  | @here_right l => exact ⟨l.toList, [], rfl, rfl⟩
  | @here_left r => exact ⟨[], r.toList, rfl, rfl⟩
  | @in_right s l r r' a _ ih =>
    obtain ⟨as, bs, hr, hr'⟩ := ih
    refine ⟨l.toList ++ a :: as, bs, by simp [toList, hr], ?_⟩
    cases s with
    | left => simp [toList, hr']
    | right => simp [toList, hr']
  | @in_left s l l' r a _ ih =>
    obtain ⟨as, bs, hl, hl'⟩ := ih
    refine ⟨as, bs ++ a :: r.toList, by simp [toList, hl], ?_⟩
    cases s with
    | left => simp [toList, hl']
    | right => simp [toList, hl']

/-- The new element has one place in the list, and the others stay in order. -/
theorem Attached.split {s : Side} (h : Attached x b s t t') :
    ∃ as bs, t.toList = as ++ bs ∧ t'.toList = as ++ x :: bs := by
  obtain ⟨as, bs, ht, ht'⟩ := h.toList_eq
  cases s with
  | right => exact ⟨as ++ [b], bs, by simp [ht], by simp [ht']⟩
  | left => exact ⟨as, b :: bs, ht, ht'⟩

end BinTree

end Omap4Hal.Lib
