import Mathlib.Data.List.Perm.Basic

/- Books about things that are taken and given back. What was taken is, each thing once,
   what was given back and what is still held; when nothing is held, everything was given
   back exactly as often as it was taken. The order does not matter.

   In a history of entries that switch something on or off, `LastIs covers on` says that there is
   an entry that covers what is asked for, and that the last such entry switches it on. -/
namespace Omap4Hal.Lib

open List (append_assoc lookup_cons mem_cons range)

variable {α β : Type}

def Balanced (taken returned held : List α) : Prop := taken.Perm (returned ++ held)

theorem balanced_nil : Balanced ([] : List α) [] [] := List.Perm.refl _

variable {taken returned held : List α}

theorem Balanced.takeAll (h : Balanced taken returned held) (more : List α) :
    Balanced (taken ++ more) returned (held ++ more) := by
  rw [Balanced, ← append_assoc]
  exact h.append_right more

theorem Balanced.take (h : Balanced taken returned held) (a : α) :
    Balanced (taken ++ [a]) returned (held ++ [a]) :=
  h.takeAll [a]

theorem Balanced.giveAll {some rest : List α} (h : Balanced taken returned held)
    (hheld : held.Perm (some ++ rest)) :
    Balanced taken (returned ++ some) rest := by
  rw [Balanced, append_assoc]
  exact h.trans (hheld.append_left returned)

theorem Balanced.give {rest : List α} {a : α} (h : Balanced taken returned held)
    (hheld : held.Perm (a :: rest)) :
    Balanced taken (returned ++ [a]) rest :=
  h.giveAll hheld

theorem Balanced.append {taken' returned' held' : List α} (h : Balanced taken returned held)
    (h' : Balanced taken' returned' held') :
    Balanced (taken ++ taken') (returned ++ returned') (held ++ held') := by
  refine (List.Perm.append h h').trans ?_
  rw [append_assoc, append_assoc]
  refine List.Perm.append_left returned ?_
  rw [← append_assoc, ← append_assoc]
  exact List.Perm.append_right held' List.perm_append_comm

theorem Balanced.congr {held' : List α} (h : Balanced taken returned held)
    (hheld : held.Perm held') :
    Balanced taken returned held' :=
  h.trans (hheld.append_left returned)

theorem Balanced.length_eq (h : Balanced taken returned held) :
    taken.length = returned.length + held.length := by
  rw [← List.length_append]
  exact List.Perm.length_eq h

theorem Balanced.pass (h : Balanced taken returned held) (a : α) :
    Balanced (taken ++ [a]) (returned ++ [a]) held :=
  (h.take a).give (List.perm_append_singleton _ _)

theorem balanced_iff_count [BEq α] [LawfulBEq α] :
    Balanced taken returned held ↔ ∀ a, taken.count a = returned.count a + held.count a := by
  simp only [Balanced, List.perm_iff_count, List.count_append]

theorem flatMap_range_fill {f g : Nat → List α} {k n : Nat} (hk : k < n) (hempty : f k = [])
    (hothers : ∀ i, i ≠ k → g i = f i) :
    ((range n).flatMap g).Perm ((range n).flatMap f ++ g k) := by
  induction n with
  | zero => omega
  | succ n ih =>
    rw [List.range_succ, List.flatMap_append, List.flatMap_append, List.flatMap_singleton,
      List.flatMap_singleton]
    by_cases hn : k = n
    · subst hn
      have hbelow : (range k).flatMap g = (range k).flatMap f := by
        apply List.flatMap_congr
        intro i hi
        exact hothers i (Nat.ne_of_lt (List.mem_range.mp hi))
      rw [hbelow, hempty, List.append_nil]
    · rw [hothers n (Ne.symm hn)]
      refine ((ih (by omega)).append_right (f n)).trans ?_
      rw [append_assoc, append_assoc]
      exact List.perm_append_comm.append_left _

/-- The slots from `m` on hold nothing. -/
theorem flatMap_range_of_le {f : Nat → List α} {m n : Nat} (hmn : m ≤ n)
    (hempty : ∀ i, m ≤ i → f i = []) : (range n).flatMap f = (range m).flatMap f := by
  induction hmn with
  | refl => rfl
  | step hmn ih =>
    rw [List.range_succ, List.flatMap_append, List.flatMap_singleton, ih, hempty _ hmn,
      List.append_nil]

theorem perm_cons_filter_key [DecidableEq α] {l : List (α × β)} (hkeys : (l.map Prod.fst).Nodup)
    {a : α} {b : β} (hmem : (a, b) ∈ l) :
    l.Perm ((a, b) :: l.filter fun p => p.1 ≠ a) := by
  induction l with
  | nil => cases hmem
  | cons q l ih =>
    obtain ⟨hq, hl⟩ := List.nodup_cons.mp hkeys
    rcases mem_cons.mp hmem with rfl | hmem
    · rw [List.filter_cons_of_neg (by simp), List.filter_eq_self.mpr]
      intro p hp
      have hne : p.1 ≠ a := fun heq => hq (List.mem_map.mpr ⟨p, hp, heq⟩)
      simpa using hne
    · have hne : q.1 ≠ a := fun heq => hq (heq ▸ List.mem_map_of_mem (f := Prod.fst) hmem)
      rw [List.filter_cons_of_pos (by simpa using hne)]
      exact ((ih hl hmem).cons q).trans (List.Perm.swap _ _ _)

theorem lookup_of_mem [DecidableEq α] {l : List (α × β)} (hkeys : (l.map Prod.fst).Nodup) {a : α}
    {b : β} (hmem : (a, b) ∈ l) : l.lookup a = some b := by
  induction l with
  | nil => cases hmem
  | cons q l ih =>
    obtain ⟨hq, hl⟩ := List.nodup_cons.mp hkeys
    rcases mem_cons.mp hmem with rfl | hmem
    · exact List.lookup_cons_self
    · have hne : a ≠ q.1 := fun heq => hq (heq ▸ List.mem_map_of_mem (f := Prod.fst) hmem)
      rw [lookup_cons, beq_eq_false_iff_ne.mpr hne]
      exact ih hl hmem

theorem lookup_filter_key [DecidableEq α] (l : List (α × β)) (a c : α) :
    (l.filter fun p => p.1 ≠ a).lookup c = if c = a then none else l.lookup c := by
  induction l with
  | nil => simp
  | cons q l ih =>
    by_cases hq : q.1 = a
    · rw [List.filter_cons_of_neg (by simpa using hq), ih, lookup_cons, hq]
      by_cases hc : c = a
      · rw [if_pos hc, if_pos hc]
      · rw [beq_eq_false_iff_ne.mpr hc]
    · rw [List.filter_cons_of_pos (by simpa using hq), lookup_cons, lookup_cons, ih]
      by_cases hc : c = a
      · rw [beq_eq_false_iff_ne.mpr fun heq => hq (heq.symm.trans hc), if_pos hc]
      · rw [if_neg hc, if_neg hc]

/-! ## The last entry -/

section LastEntry

variable {α : Type} {covers on : α → Prop}

def LastIs (covers on : α → Prop) (h : List α) : Prop :=
  ∃ as c bs, h = as ++ c :: bs ∧ covers c ∧ on c ∧ ∀ d ∈ bs, ¬ covers d

theorem not_lastIs_nil : ¬ LastIs covers on [] := by
  rintro ⟨as, c, bs, h, -⟩
  simp at h

theorem lastIs_concat {h : List α} {c : α} :
    LastIs covers on (h ++ [c]) ↔ covers c ∧ on c ∨ ¬ covers c ∧ LastIs covers on h := by
  constructor
  · rintro ⟨as, d, bs, heq, hd, hon, hbs⟩
    rcases List.eq_nil_or_concat' bs with rfl | ⟨bs, e, rfl⟩
    · obtain ⟨-, hlast⟩ := List.append_inj' heq rfl
      obtain rfl := (List.cons.inj hlast).1
      exact .inl ⟨hd, hon⟩
    · have hsplit : h ++ [c] = (as ++ d :: bs) ++ [e] := by rw [heq]; simp
      obtain ⟨rfl, hlast⟩ := List.append_inj' hsplit rfl
      obtain rfl := (List.cons.inj hlast).1
      refine .inr ⟨hbs _ (by simp), as, d, bs, rfl, hd, hon, ?_⟩
      exact fun x hx => hbs x (List.mem_append_left _ hx)
  · rintro (⟨hc, hon⟩ | ⟨hc, as, d, bs, rfl, hd, hon, hbs⟩)
    · exact ⟨h, c, [], rfl, hc, hon, by simp⟩
    · refine ⟨as, d, bs ++ [c], by simp, hd, hon, ?_⟩
      intro x hx
      rcases List.mem_append.mp hx with hx | hx
      · exact hbs x hx
      · exact List.mem_singleton.mp hx ▸ hc

end LastEntry

end Omap4Hal.Lib
