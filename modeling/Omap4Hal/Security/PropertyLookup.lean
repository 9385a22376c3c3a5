import Omap4Hal.Security.PropertyList

/- Searches that do not look at the case (`SMCPropListFindElement` with
   `bIsCaseSensitive` false). They descend by `strcasecmp` through a tree that
   `static_listSortedAddNode` has ordered by `strcmp`, and may pass by the names that
   they are after. `caseInsensitive_complete_iff` says when they do not. -/
namespace Omap4Hal.Security
open Lib

/-- How the names of two nodes compare for the tree. -/
def nodeCompare (m : Memory) (a b : Nat) : Ordering :=
  match m.pName a with
  | some x => nameCompare m true x b
  | none => .eq

/-- At every node that the search for `x` passes, if a name from there on is `x` but for
its case, then such a name is ordered, with its case, on the side to which the search turns. -/
def CaseAgrees (m : Memory) (x : CString) (t : BinTree Nat) : Prop :=
  t.Agrees (nameCompare m false x) (nodeCompare m)

theorem nodeCompare_eq {m : Memory} {a b : Nat} {x y : CString} (hx : m.pName a = some x)
    (hy : m.pName b = some y) : nodeCompare m a b = strcmp x y := by
  simp only [nodeCompare, hx, nameCompare, hy, compareNames, if_true]

theorem NameLt.nodeCompare {m : Memory} {a b : Nat} (h : NameLt m a b) :
    nodeCompare m a b = .lt ∧ nodeCompare m b a = .gt := by
  obtain ⟨x, y, hx, hy, hlt⟩ := h
  rw [nodeCompare_eq hx hy, nodeCompare_eq hy hx, ← strcmp_swap x y, hlt]
  exact ⟨rfl, rfl⟩

theorem Added.exists_name {m₀ : Memory} {done : List Nat} {s : ListState} {t : BinTree Nat}
    (h : Added m₀ done s t) (P : CString → Prop) :
    (∃ p ∈ done, ∃ y, m₀.pName p = some y ∧ P y) ↔
      ∃ a ∈ t.toList, ∃ y, s.mem.pName a = some y ∧ P y := by
  rw [h.names]
  constructor
  · rintro ⟨p, hp, y, hy, hP⟩
    have hfind : (done.find? fun q => m₀.pName q = some y).isSome := by
      rw [List.find?_isSome]
      exact ⟨p, hp, by simpa using hy⟩
    obtain ⟨a, ha⟩ := Option.isSome_iff_exists.mp hfind
    have hname : m₀.pName a = some y := by simpa using List.find?_some ha
    exact ⟨a, (h.mem a).mpr ⟨y, hname, ha⟩, y, hname, hP⟩
  · rintro ⟨a, ha, y, hy, hP⟩
    obtain ⟨z, -, hfind⟩ := (h.mem a).mp ha
    exact ⟨a, List.mem_of_find?_eq_some hfind, y, hy, hP⟩

/-- Whatever nodes are added to the empty list: a search for `x` that does not look at
the case returns, and it returns a node whenever a name that was added is `x` but for its
case, and only then, exactly if the comparisons agree on its way. -/
theorem caseInsensitive_complete_iff (m₀ : Memory) (calls : List Nat) (n : Nat) (x : CString)
    (hfresh : ∀ p ∈ calls, Fresh m₀ p) (hn : calls.length < n) :
    ∃ s t r, addAll n calls { mem := m₀, list := {} } = some s ∧ Shape s.mem t s.list.pRoot ∧
      smcPropListFindElement n s x false = some r ∧
      (((∃ a, r = some a) ↔ ∃ p ∈ calls, ∃ y, m₀.pName p = some y ∧ strcasecmp x y = .eq) ↔
        CaseAgrees s.mem x t) := by
  obtain ⟨s, t, hall, h⟩ := added_all (Added.empty m₀) (Nat.le_of_lt hn) hfresh
  rw [List.nil_append] at h
  have hlen : t.toList.length < n := Nat.lt_of_le_of_lt h.length hn
  refine ⟨s, t, _, hall, h.represents.shape,
    smcPropListFindElement_eq h.represents hlen x false, ?_⟩
  have hmatch : (∃ p ∈ calls, ∃ y, m₀.pName p = some y ∧ strcasecmp x y = .eq) ↔
      ∃ a ∈ t.toList, nameCompare s.mem false x a = .eq := by
    rw [h.exists_name]
    apply exists_congr
    intro a
    apply and_congr_right
    intro ha
    obtain ⟨y, hy⟩ := h.represents.named a ha
    simp [nameCompare, hy, compareNames]
  rw [hmatch]
  apply BinTree.find_complete_iff h.represents.ordered
  · intro a b hab
    exact hab.nodeCompare.1
  · intro a b hab
    exact hab.nodeCompare.2
  · intro a ha
    obtain ⟨y, hy⟩ := h.represents.named a ha
    rw [nodeCompare_eq hy hy]
    exact strcmp_eq_iff.mpr rfl

/-- Two nodes, named `B` and `a`. -/
def mixedNodes : Memory where
  pLeft _ := none
  pRight _ := none
  pNext _ := none
  pPrevious _ := none
  pName p := if p = 0 then some (letter 0x42 (by decide)) else some (letter 0x61 zero_notMem_a)

/-- The search for `b` ends at the root, where the comparisons agree. -/
theorem caseInsensitive_finds_b :
    ∃ s t, addAll 3 [0, 1] { mem := mixedNodes, list := {} } = some s ∧
      Shape s.mem t s.list.pRoot ∧ CaseAgrees s.mem (letter 0x62 (by decide)) t := by
  obtain ⟨s, t, r, hall, hshape, hfind, hiff⟩ := caseInsensitive_complete_iff mixedNodes [0, 1] 3
    (letter 0x62 (by decide)) (fun _ _ => ⟨rfl, rfl, rfl, rfl⟩) (by decide)
  refine ⟨s, t, hall, hshape, hiff.mp (iff_of_true ?_ ?_)⟩
  · cases hall
    cases hfind
    exact ⟨0, by decide⟩
  · exact ⟨0, by decide, letter 0x42 (by decide), rfl, by decide⟩

/-- `a` stands on the right of `B`, and `A` is sought on its left. -/
theorem caseInsensitive_misses :
    ∃ s, addAll 3 [0, 1] { mem := mixedNodes, list := {} } = some s ∧
      smcPropListFindElement 3 s (letter 0x41 (by decide)) false = some none ∧
      mixedNodes.pName 1 = some (letter 0x61 (by decide)) ∧
      strcasecmp (letter 0x41 (by decide)) (letter 0x61 (by decide)) = .eq := by
  exact ⟨_, rfl, by decide, rfl, by decide⟩

end Omap4Hal.Security
