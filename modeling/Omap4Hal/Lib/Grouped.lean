import Mathlib.Data.List.Perm.Basic

/- Lists in which what belongs together stands together. The elements of a kind (`p`) are a group
   if nothing else is between them; two groups without a common element are one after the other
   (`Grouped.before_or_after`). Where the kinds exclude each other, a list that is gone through
   kind by kind is the list without what is of no kind (`flatMap_filter_perm`). -/
namespace Omap4Hal.Lib

variable {ι σ : Type}

/-- The elements of the kind `p` are those of `mid`. -/
structure Grouped (p : ι → Bool) (l pre mid post : List ι) : Prop where
  eq : l = pre ++ mid ++ post
  pre_not : ∀ r ∈ pre, p r = false
  mid_all : ∀ r ∈ mid, p r = true
  post_not : ∀ r ∈ post, p r = false

/-- The elements of the kind `p` stand together. -/
def Contiguous (p : ι → Bool) (l : List ι) : Prop := ∃ pre mid post, Grouped p l pre mid post

namespace Grouped
variable {p q : ι → Bool} {l pre mid post pre' mid' post' : List ι}

theorem filter_eq (h : Grouped p l pre mid post) : l.filter p = mid := by
  have hpre : pre.filter p = [] := List.filter_eq_nil_iff.mpr fun r hr => by simp [h.pre_not r hr]
  have hpost : post.filter p = [] :=
    List.filter_eq_nil_iff.mpr fun r hr => by simp [h.post_not r hr]
  rw [h.eq, List.filter_append, List.filter_append, hpre, hpost,
    List.filter_eq_self.mpr h.mid_all, List.nil_append, List.append_nil]

theorem length_eq (h : Grouped p l pre mid post) :
    l.length = pre.length + mid.length + post.length := by
  rw [h.eq, List.length_append, List.length_append]

theorem mem_iff (h : Grouped p l pre mid post) : (∃ r ∈ l, p r = true) ↔ mid ≠ [] := by
  rw [← h.filter_eq, ne_eq, List.filter_eq_nil_iff]
  push Not
  rfl

theorem index_iff (h : Grouped p l pre mid post) {i : Nat} {r : ι} (hr : l[i]? = some r) :
    p r = true ↔ pre.length ≤ i ∧ i < pre.length + mid.length := by
  rw [h.eq, List.append_assoc] at hr
  rcases Nat.lt_or_ge i pre.length with hlo | hlo
  · rw [List.getElem?_append_left hlo] at hr
    have hnot := h.pre_not r (List.mem_of_getElem? hr)
    rw [hnot]
    exact ⟨nofun, fun hin => absurd hin.1 (by omega)⟩
  · rw [List.getElem?_append_right hlo] at hr
    rcases Nat.lt_or_ge (i - pre.length) mid.length with hhi | hhi
    · rw [List.getElem?_append_left hhi] at hr
      exact ⟨fun _ => ⟨hlo, by omega⟩, fun _ => h.mid_all r (List.mem_of_getElem? hr)⟩
    · rw [List.getElem?_append_right hhi] at hr
      have hnot := h.post_not r (List.mem_of_getElem? hr)
      rw [hnot]
      exact ⟨nofun, fun hin => absurd hin.2 (by omega)⟩

theorem findIdx_eq (h : Grouped p l pre mid post) (hmid : mid ≠ []) : l.findIdx p = pre.length := by
  obtain ⟨r, mid, rfl⟩ := List.exists_cons_of_ne_nil hmid
  have hr := h.mid_all r List.mem_cons_self
  have hpre : List.findIdx p pre = pre.length :=
    List.findIdx_eq_length_of_false fun s hs => by simp [h.pre_not s hs]
  rw [h.eq, List.append_assoc, List.findIdx_append, if_neg (by omega), List.cons_append,
    List.findIdx_cons, hr]
  simp

theorem getLast_iff (h : Grouped p l pre mid post) :
    (∃ r, l.getLast? = some r ∧ p r = true) ↔ mid ≠ [] ∧ post = [] := by
  constructor
  · intro hlast
    obtain ⟨r, hr, hp⟩ := hlast
    have hmid := h.mem_iff.mp ⟨r, List.mem_of_getLast? hr, hp⟩
    refine ⟨hmid, ?_⟩
    by_contra hpost
    rw [h.eq, List.getLast?_append_of_ne_nil _ hpost] at hr
    have hnot := h.post_not r (List.mem_of_getLast? hr)
    rw [hnot] at hp
    exact Bool.false_ne_true hp
  · intro hend
    obtain ⟨hmid, rfl⟩ := hend
    have hlast : l.getLast? = some (mid.getLast hmid) := by
      rw [h.eq, List.append_nil, List.getLast?_append_of_ne_nil _ hmid,
        List.getLast?_eq_getLast_of_ne_nil hmid]
    exact ⟨_, hlast, h.mid_all _ (List.getLast_mem hmid)⟩

theorem before_or_after (h : Grouped p l pre mid post) (h' : Grouped q l pre' mid' post')
    (hdisjoint : ∀ r ∈ l, ¬ (p r = true ∧ q r = true)) (hmid : mid ≠ []) (hmid' : mid' ≠ []) :
    pre.length + mid.length ≤ pre'.length ∨ pre'.length + mid'.length ≤ pre.length := by
  have hlen := h.length_eq
  have hlen' := h'.length_eq
  have hpos := List.length_pos_iff.mpr hmid
  have hpos' := List.length_pos_iff.mpr hmid'
  by_contra hboth
  -- the later one of the two starts is in both groups
  have hin : max pre.length pre'.length < l.length := by omega
  have hget := List.getElem?_eq_getElem hin
  apply hdisjoint _ (List.getElem_mem hin)
  exact ⟨(h.index_iff hget).mpr (by omega), (h'.index_iff hget).mpr (by omega)⟩

end Grouped

/-! ## Kind by kind -/

theorem flatMap_single {p : σ → ι → Bool} {segs : List σ} {r : ι}
    (hdisjoint : segs.Pairwise fun a b => ¬ (p a r = true ∧ p b r = true)) :
    (segs.flatMap fun s => if p s r then [(s, r)] else []) =
      ((segs.find? (p · r)).map fun s => (s, r)).toList := by
  induction segs with
  | nil => rfl
  | cons s segs ih =>
    obtain ⟨hs, hrest⟩ := List.pairwise_cons.mp hdisjoint
    rw [List.flatMap_cons]
    cases hp : p s r with
    | true =>
      have hnone : (segs.flatMap fun s => if p s r then [(s, r)] else []) = [] := by
        rw [List.flatMap_eq_nil_iff]
        intro t ht
        rw [if_neg fun h => hs t ht ⟨hp, h⟩]
      rw [List.find?_cons_of_pos (p := (p · r)) hp, hnone]
      rfl
    | false =>
      rw [List.find?_cons_of_neg (p := (p · r)) (by simp [hp]), ← ih hrest]
      rfl

theorem flatMap_filter_perm {p : σ → ι → Bool} {segs : List σ} (l : List ι)
    (hdisjoint : ∀ r, segs.Pairwise fun a b => ¬ (p a r = true ∧ p b r = true)) :
    (segs.flatMap fun s => (l.filter (p s)).map (Prod.mk s)).Perm
      (l.filterMap fun r => (segs.find? (p · r)).map fun s => (s, r)) := by
  induction l with
  | nil =>
    have hnil : (segs.flatMap fun s => (([] : List ι).filter (p s)).map (Prod.mk s)) = [] :=
      List.flatMap_eq_nil_iff.mpr fun _ _ => rfl
    rw [hnil]
    exact List.Perm.refl _
  | cons r l ih =>
    have hcons : ∀ s, ((r :: l).filter (p s)).map (Prod.mk s) =
        (if p s r then [(s, r)] else []) ++ (l.filter (p s)).map (Prod.mk s) := by
      intro s
      cases hp : p s r <;> simp [hp]
    have hhead := flatMap_single (hdisjoint r)
    have hsplit := (List.flatMap_append_perm segs (fun s => if p s r then [(s, r)] else [])
      fun s => (l.filter (p s)).map (Prod.mk s)).symm
    simp only [hcons]
    apply hsplit.trans
    rw [hhead, List.filterMap_cons]
    cases hfind : segs.find? (p · r) with
    | none => exact ih
    | some s => exact ih.cons _

end Omap4Hal.Lib
