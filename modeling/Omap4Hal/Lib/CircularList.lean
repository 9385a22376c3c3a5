import Mathlib.Data.List.Nodup

/- Doubly linked lists that run in a circle. `Path` says that the pointers in both directions lead
   from one node through a list to another; a circle is a path from its head to its head. The two
   rules put a node between two neighbours, and take one out. Seen from the other side a path is a
   path in the reversed list, so that what is shown of one direction holds of the other. -/
namespace Omap4Hal.Lib

open List (mem_append mem_append_left mem_cons mem_cons_of_mem mem_cons_self nodup_cons)

variable {α : Type}

/-- The pointers of the nodes. -/
structure Links (α : Type) where
  next : α → α
  last : α → α

/-- The same nodes from the other side. -/
def Links.swap (m : Links α) : Links α := { next := m.last, last := m.next }

def Path (m : Links α) : α → List α → α → Prop
  | a, [], b => m.next a = b ∧ m.last b = a
  | a, x :: xs, b => m.next a = x ∧ m.last x = a ∧ Path m x xs b

/-- The nodes from the head around to the head, each of them once. -/
structure Circular (m : Links α) (head : α) (xs : List α) : Prop where
  path : Path m head xs head
  nodup : (head :: xs).Nodup

variable {m m' : Links α} {a b x : α} {xs ys : List α}

theorem path_append : Path m a (xs ++ x :: ys) b ↔ Path m a xs x ∧ Path m x ys b := by
  induction xs generalizing a with
  | nil => exact and_assoc.symm
  | cons y xs ih =>
    rw [List.cons_append, Path, Path, ih]
    tauto

/-- A path depends on the pointers forward of all but its end, and back of all but its start. -/
theorem Path.congr (hn : ∀ y ∈ a :: xs, m'.next y = m.next y)
    (hl : ∀ y ∈ xs ++ [b], m'.last y = m.last y) (h : Path m a xs b) : Path m' a xs b := by
  induction xs generalizing a with
  | nil =>
    refine ⟨?_, ?_⟩
    · rw [hn a mem_cons_self, h.1]
    · rw [hl b mem_cons_self, h.2]
  | cons y xs ih =>
    obtain ⟨hnext, hlast, hrest⟩ := h
    refine ⟨?_, ?_, ih ?_ ?_ hrest⟩
    · rw [hn a mem_cons_self, hnext]
    · rw [hl y mem_cons_self, hlast]
    · exact fun z hz => hn z (mem_cons_of_mem _ hz)
    · exact fun z hz => hl z (mem_cons_of_mem _ hz)

theorem Path.swap (h : Path m a xs b) : Path m.swap b xs.reverse a := by
  induction xs generalizing a with
  | nil => exact h.symm
  | cons y xs ih =>
    obtain ⟨hnext, hlast, hrest⟩ := h
    rw [List.reverse_cons, path_append]
    exact ⟨ih hrest, hlast, hnext⟩

variable {head : α}

theorem Circular.swap (h : Circular m head xs) : Circular m.swap head xs.reverse where
  path := h.path.swap
  nodup := by
    obtain ⟨hhead, hxs⟩ := nodup_cons.mp h.nodup
    exact nodup_cons.mpr ⟨by simpa using hhead, List.nodup_reverse.mpr hxs⟩

theorem Circular.swap_back (h : Circular m head xs.reverse) :
    Circular m.swap head xs := by
  have hback := h.swap
  rwa [List.reverse_reverse] at hback

theorem Path.ends (h : Path m a xs b) :
    m.next a = xs.head?.getD b ∧ m.last b = xs.getLast?.getD a := by
  induction xs generalizing a with
  | nil => exact h
  | cons y xs ih =>
    obtain ⟨hnext, -, hrest⟩ := h
    refine ⟨hnext, (ih hrest).2.trans ?_⟩
    cases xs with
    | nil => rfl
    | cons z zs => simp [List.getLast?_cons]

theorem Circular.neighbours {us vs : List α} (h : Circular m head (us ++ x :: vs)) :
    m.last x = us.getLast?.getD head ∧ m.next x = vs.head?.getD head := by
  obtain ⟨hus, hvs⟩ := path_append.mp h.path
  exact ⟨hus.ends.2, hvs.ends.1⟩

theorem nodup_rotate (h : (head :: xs).Nodup) : (xs ++ [head]).Nodup := by
  rw [List.nodup_append_comm]
  exact h

/-! ## Putting a node in and taking one out -/

variable [DecidableEq α] {us vs : List α} {p n : α}

theorem Path.enter (hx : x ∉ a :: vs) (hstart : (a :: vs).Nodup) (hend : (vs ++ [b]).Nodup)
    (hn : ∀ y, m'.next y = if y = x then vs.head?.getD b else if y = a then x else m.next y)
    (hl : ∀ y ∈ vs ++ [b], m'.last y = if y = vs.head?.getD b then x else m.last y)
    (h : Path m a vs b) : Path m' x vs b := by
  cases vs with
  | nil => exact ⟨(hn x).trans (if_pos rfl), (hl b mem_cons_self).trans (if_pos rfl)⟩
  | cons v vs =>
    obtain ⟨-, -, hrest⟩ := h
    refine ⟨(hn x).trans (if_pos rfl), (hl v mem_cons_self).trans (if_pos rfl), ?_⟩
    apply hrest.congr
    · intro y hy
      have hyx : y ≠ x := by
        rintro rfl
        exact hx (mem_cons_of_mem _ hy)
      have hya : y ≠ a := by
        rintro rfl
        exact (nodup_cons.mp hstart).1 hy
      rw [hn, if_neg hyx, if_neg hya]
    · intro y hy
      have hyv : y ≠ v := by
        rintro rfl
        exact (nodup_cons.mp hend).1 hy
      rw [hl y (mem_cons_of_mem _ hy)]
      exact if_neg hyv

theorem Path.insert (h : Path m a (us ++ vs) b) (hx : x ∉ a :: (us ++ vs))
    (hstart : (a :: (us ++ vs)).Nodup) (hend : (us ++ vs ++ [b]).Nodup)
    (hp : p = us.getLast?.getD a) (hnv : n = vs.head?.getD b)
    (hn : ∀ y, m'.next y = if y = x then n else if y = p then x else m.next y)
    (hl : ∀ y, m'.last y = if y = x then p else if y = n then x else m.last y) (hxb : x ≠ b) :
    Path m' a (us ++ x :: vs) b := by
  induction us generalizing a with
  | nil =>
    obtain rfl : p = a := hp
    have hxp : p ≠ x := fun heq => hx (heq ▸ mem_cons_self)
    refine ⟨?_, (hl x).trans (if_pos rfl), ?_⟩
    · rw [hn, if_neg hxp, if_pos rfl]
    · subst hnv
      refine Path.enter hx hstart hend hn (fun y (hy : y ∈ vs ++ [b]) => ?_) h
      have hyx : y ≠ x := by
        rintro rfl
        rcases mem_append.mp hy with hy | hy
        · exact hx (mem_cons_of_mem _ hy)
        · exact hxb (List.mem_singleton.mp hy)
      rw [hl, if_neg hyx]
  | cons u us ih =>
    obtain ⟨hnext, hlast, hrest⟩ := h
    obtain ⟨ha, hstart⟩ := nodup_cons.mp hstart
    obtain ⟨hu, hend⟩ := nodup_cons.mp hend
    obtain ⟨hxa, hx⟩ := not_or.mp (mt mem_cons.mpr hx)
    have hp' : p = us.getLast?.getD u := by
      rw [hp]
      cases us with
      | nil => rfl
      | cons w ws => simp [List.getLast?_cons]
    have hpmem : p ∈ u :: (us ++ vs) := by
      rw [hp']
      cases hlast : us.getLast? with
      | none => exact mem_cons_self
      | some w =>
        exact mem_cons_of_mem _ (mem_append_left _ (List.mem_of_getLast? hlast))
    have hnmem : n ∈ us ++ vs ++ [b] := by
      rw [hnv]
      cases vs with
      | nil => simp
      | cons v vs => simp
    have hap : a ≠ p := by
      rintro rfl
      exact ha hpmem
    have hun : u ≠ n := by
      rintro rfl
      exact hu hnmem
    refine ⟨?_, ?_, ih hrest hx hstart hend hp'⟩
    · rw [hn, if_neg (Ne.symm hxa), if_neg hap, hnext]
    · have hux : u ≠ x := fun heq => hx (heq ▸ mem_cons_self)
      rw [hl, if_neg hux, if_neg hun, hlast]

/-- What follows a node that is taken out is reached from the node before it. -/
theorem Path.leave (hstart : (a :: x :: vs).Nodup) (hend : (x :: vs ++ [b]).Nodup)
    (hn : ∀ y ∈ a :: vs, m'.next y = if y = a then vs.head?.getD b else m.next y)
    (hl : ∀ y ∈ vs ++ [b], m'.last y = if y = vs.head?.getD b then a else m.last y)
    (h : Path m x vs b) : Path m' a vs b := by
  obtain ⟨ha, hstart⟩ := nodup_cons.mp hstart
  cases vs with
  | nil => exact ⟨(hn a mem_cons_self).trans (if_pos rfl),
      (hl b mem_cons_self).trans (if_pos rfl)⟩
  | cons v vs =>
    obtain ⟨-, -, hrest⟩ := h
    refine ⟨(hn a mem_cons_self).trans (if_pos rfl),
      (hl v mem_cons_self).trans (if_pos rfl), ?_⟩
    apply hrest.congr
    · intro y hy
      have hya : y ≠ a := by
        rintro rfl
        exact ha (mem_cons_of_mem _ hy)
      rw [hn y (mem_cons_of_mem _ hy), if_neg hya]
    · intro y hy
      have hyv : y ≠ v := by
        rintro rfl
        exact (nodup_cons.mp (nodup_cons.mp hend).2).1 hy
      rw [hl y (mem_cons_of_mem _ hy)]
      exact if_neg hyv

theorem Path.remove (h : Path m a (us ++ x :: vs) b) (hstart : (a :: (us ++ x :: vs)).Nodup)
    (hend : (us ++ x :: vs ++ [b]).Nodup)
    (hn : ∀ y, m'.next y = if y = m.last x then m.next x else m.next y)
    (hl : ∀ y, m'.last y = if y = m.next x then m.last x else m.last y) :
    Path m' a (us ++ vs) b := by
  induction us generalizing a with
  | nil =>
    obtain ⟨-, hlast, hrest⟩ := h
    have hnext := hrest.ends.1
    refine hrest.leave hstart hend (fun y _ => (hn y).trans ?_) (fun y _ => (hl y).trans ?_)
    · rw [hlast, hnext]
      rfl
    · rw [hlast, hnext]
      rfl
  | cons u us ih =>
    obtain ⟨hnext, hlast, hrest⟩ := h
    obtain ⟨ha, hstart⟩ := nodup_cons.mp hstart
    obtain ⟨hu, hend⟩ := nodup_cons.mp hend
    obtain ⟨hus, hvs⟩ := path_append.mp hrest
    have hpmem : m.last x ∈ u :: (us ++ x :: vs) := by
      rw [hus.ends.2]
      cases hgetLast : us.getLast? with
      | none => exact mem_cons_self
      | some w =>
        exact mem_cons_of_mem _ (mem_append_left _ (List.mem_of_getLast? hgetLast))
    have hnmem : m.next x ∈ us ++ x :: vs ++ [b] := by
      rw [hvs.ends.1]
      cases vs with
      | nil => simp
      | cons v vs => simp
    have hap : a ≠ m.last x := by
      intro heq
      exact ha (heq ▸ hpmem)
    have hun : u ≠ m.next x := by
      intro heq
      exact hu (heq ▸ hnmem)
    refine ⟨?_, ?_, ih hrest hstart hend⟩
    · rw [hn, if_neg hap, hnext]
    · rw [hl, if_neg hun, hlast]

section Circle
variable {head : α}

theorem Circular.insert (h : Circular m head (us ++ vs)) (hx : x ∉ head :: (us ++ vs))
    (hn : ∀ y, m'.next y = if y = x then vs.head?.getD head else
      if y = us.getLast?.getD head then x else m.next y)
    (hl : ∀ y, m'.last y = if y = x then us.getLast?.getD head else
      if y = vs.head?.getD head then x else m.last y) : Circular m' head (us ++ x :: vs) where
  path := h.path.insert hx h.nodup (nodup_rotate h.nodup) rfl rfl hn hl fun heq =>
    hx (heq ▸ mem_cons_self)
  nodup := by
    obtain ⟨hhead, hnodup⟩ := nodup_cons.mp h.nodup
    obtain ⟨hxhead, hxs⟩ := not_or.mp (mt mem_cons.mpr hx)
    refine nodup_cons.mpr ⟨?_, List.nodup_middle.mpr (nodup_cons.mpr ⟨hxs, hnodup⟩)⟩
    rw [mem_append, mem_cons]
    rintro (hus | rfl | hvs)
    · exact hhead (mem_append_left _ hus)
    · exact hxhead rfl
    · exact hhead (List.mem_append_right _ hvs)

theorem Circular.remove (h : Circular m head (us ++ x :: vs))
    (hn : ∀ y, m'.next y = if y = m.last x then m.next x else m.next y)
    (hl : ∀ y, m'.last y = if y = m.next x then m.last x else m.last y) :
    Circular m' head (us ++ vs) where
  path := h.path.remove h.nodup (nodup_rotate h.nodup) hn hl
  nodup := by
    obtain ⟨hhead, hnodup⟩ := nodup_cons.mp h.nodup
    refine nodup_cons.mpr ⟨?_, (nodup_cons.mp (List.nodup_middle.mp hnodup)).2⟩
    rw [mem_append]
    rintro (hus | hvs)
    · exact hhead (mem_append_left _ hus)
    · exact hhead (List.mem_append_right _ (mem_cons_of_mem _ hvs))

end Circle

end Omap4Hal.Lib
