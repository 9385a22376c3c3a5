import Omap4Hal.Lib.LinkedList
import Omap4Hal.Lib.SearchTree
import Omap4Hal.Security.ManifestFormat

/- The sorted lists of the configuration parser (`smc_properties_parser.c`):
   `static_listFindNodeElement`, `static_listSortedAddNode`, `SMCPropListSortedAdd` and
   `SMCPropListFindElement`.

   A node is a cell of the memory with two kinds of pointers in it, those of a search
   tree and those of a doubly linked list. `ListRepresents` says which tree of cells the
   pointers make up: the tree is ordered by `strcmp`, and the list is its elements from
   left to right. An addition then is `BinTree.insert`, and a search `BinTree.find`.

   The descents through the tree carry a number of passes; `none` stands for too few of
   them, and for `strcmp` on a node without a name. -/
namespace Omap4Hal.Security
open Lib
open Function (update update_apply update_of_ne update_self)
open BinTree
open List (find?_append length_append length_cons mem_cons_of_mem mem_cons_self nodup_append
  nodup_cons)

/-! ## Strings -/

/-- A string that ends at its first zero byte. -/
structure CString where
  bytes : List UInt8
  noNul : 0 ∉ bytes
  deriving DecidableEq, Repr

/-- The sign of the result: the bytes compare as unsigned characters. -/
def strcmp (a b : CString) : Ordering := compare a.bytes b.bytes

def strcasecmp (a b : CString) : Ordering :=
  compare (a.bytes.map lowerCase) (b.bytes.map lowerCase)

theorem strcmp_eq_iff {a b : CString} : strcmp a b = .eq ↔ a = b := by
  obtain ⟨as, ha⟩ := a
  obtain ⟨bs, hb⟩ := b
  simp [strcmp]

theorem strcmp_swap (a b : CString) : (strcmp a b).swap = strcmp b a :=
  Std.OrientedOrd.eq_swap.symm

theorem strcmp_trans {a b c : CString} (hab : strcmp a b = .lt) (hbc : strcmp b c = .lt) :
    strcmp a c = .lt := by
  rw [strcmp] at hab hbc ⊢
  exact Std.TransCmp.lt_trans hab hbc

/-- The fields of the nodes, each by the address of the node. -/
structure Memory where
  pLeft : Nat → Option Nat
  pRight : Nat → Option Nat
  pNext : Nat → Option Nat
  pPrevious : Nat → Option Nat
  pName : Nat → Option CString

structure NodeList where
  pRoot : Option Nat := none
  pFirst : Option Nat := none

structure ListState where
  mem : Memory
  list : NodeList

/-! ## The functions of the parser -/

def compareNames (bIsCaseSensitive : Bool) : CString → CString → Ordering :=
  if bIsCaseSensitive then strcmp else strcasecmp

def listFindNodeElement (m : Memory) (pName : CString) (bIsCaseSensitive : Bool) :
    Nat → Option Nat → Option (Option Nat)
  | 0, _ => none
  | _ + 1, none => some none
  | n + 1, some pList =>
    match m.pName pList with
    | none => none
    | some name =>
      match compareNames bIsCaseSensitive pName name with
      | .gt => listFindNodeElement m pName bIsCaseSensitive n (m.pRight pList)
      | .lt => listFindNodeElement m pName bIsCaseSensitive n (m.pLeft pList)
      | .eq => some (some pList)

/-- The writes of `static_listSortedAddNode` where `pList` has nothing on its right. -/
def addRight (m : Memory) (pList pNode : Nat) : Memory :=
  let m := { m with pRight := update m.pRight pList (some pNode) }
  let m := { m with pPrevious := update m.pPrevious pNode (some pList) }
  let m := { m with pNext := update m.pNext pNode (m.pNext pList) }
  let m := match m.pNext pList with
    | some q => { m with pPrevious := update m.pPrevious q (some pNode) }
    | none => m
  { m with pNext := update m.pNext pList (some pNode) }

/-- The writes where `pList` has nothing on its left. -/
def addLeft (m : Memory) (pList pNode : Nat) : Memory :=
  let m := { m with pLeft := update m.pLeft pList (some pNode) }
  let m := { m with pNext := update m.pNext pNode (some pList) }
  let m := { m with pPrevious := update m.pPrevious pNode (m.pPrevious pList) }
  let m := match m.pPrevious pList with
    | some q => { m with pNext := update m.pNext q (some pNode) }
    | none => m
  { m with pPrevious := update m.pPrevious pList (some pNode) }

def listSortedAddNode (m : Memory) (pNode : Nat) : Nat → Nat → Option (UInt32 × Memory)
  | 0, _ => none
  | n + 1, pList =>
    match m.pName pNode, m.pName pList with
    | some x, some y =>
      match strcmp x y with
      | .gt =>
        match m.pRight pList with
        | some q => listSortedAddNode m pNode n q
        | none => some (sSuccess, addRight m pList pNode)
      | .lt =>
        match m.pLeft pList with
        | some q => listSortedAddNode m pNode n q
        | none => some (sSuccess, addLeft m pList pNode)
      | .eq => some (sErrorItemExists, m)
    | _, _ => none

def smcPropListSortedAdd (n : Nat) (s : ListState) (pNode : Nat) : Option (UInt32 × ListState) :=
  if s.mem.pName pNode = none then some (sErrorBadParameters, s)
  else
    match s.list.pRoot with
    | none => some (sSuccess, { s with list := { pRoot := some pNode, pFirst := some pNode } })
    | some root =>
      match listSortedAddNode s.mem pNode n root with
      | none => none
      | some (nResult, m) =>
        -- the first node of the linked list
        if nResult = sSuccess ∧ m.pPrevious pNode = none then
          some (nResult, { mem := m, list := { s.list with pFirst := some pNode } })
        else some (nResult, { s with mem := m })

def smcPropListFindElement (n : Nat) (s : ListState) (pName : CString) (bIsCaseSensitive : Bool) :
    Option (Option Nat) :=
  match s.list.pRoot with
  | some root => listFindNodeElement s.mem pName bIsCaseSensitive n (some root)
  | none => some none

/-- Calls of `SMCPropListSortedAdd`, one node after the other. -/
def addAll (n : Nat) : List Nat → ListState → Option ListState
  | [], s => some s
  | p :: ps, s =>
    match smcPropListSortedAdd n s p with
    | none => none
    | some (_, s') => addAll n ps s'

/-! ## The tree and the list in the memory -/

/-- The pointers from `p` on make up the tree. -/
def Shape (m : Memory) : BinTree Nat → Option Nat → Prop
  | .leaf, p => p = none
  | .node l a r, p => p = some a ∧ Shape m l (m.pLeft a) ∧ Shape m r (m.pRight a)

def NameLt (m : Memory) (a b : Nat) : Prop :=
  ∃ x y, m.pName a = some x ∧ m.pName b = some y ∧ strcmp x y = .lt

structure ListRepresents (s : ListState) (t : BinTree Nat) : Prop where
  shape : Shape s.mem t s.list.pRoot
  named : ∀ a ∈ t.toList, ∃ x, s.mem.pName a = some x
  ordered : t.Ordered (NameLt s.mem)
  linked : Linked s.mem.pNext s.mem.pPrevious none t.toList none
  first : s.list.pFirst = t.toList.head?

variable {m m₀ : Memory} {a b n y : Nat} {s : ListState} {t t' : BinTree Nat} {x : CString}
  {p : Option Nat} {side : BinTree.Side} {done : List Nat}

theorem NameLt.trans {c : Nat} (hab : NameLt m a b) (hbc : NameLt m b c) :
    NameLt m a c := by
  obtain ⟨x, y, hx, hy, hxy⟩ := hab
  obtain ⟨y', z, hy', hz, hyz⟩ := hbc
  cases hy.symm.trans hy'
  exact ⟨x, z, hx, hz, strcmp_trans hxy hyz⟩

theorem NameLt.ne (h : NameLt m a b) : a ≠ b := by
  intro heq
  subst heq
  obtain ⟨x, y, hx, hy, hlt⟩ := h
  cases hx.symm.trans hy
  rw [strcmp_eq_iff.mpr rfl] at hlt
  cases hlt

theorem ListRepresents.sorted (h : ListRepresents s t) :
    t.toList.Pairwise (NameLt s.mem) :=
  h.ordered.pairwise (fun _ _ _ hab hbc => hab.trans hbc)

theorem ListRepresents.nodup (h : ListRepresents s t) :
    t.toList.Nodup :=
  h.sorted.imp NameLt.ne

/-- How what is sought compares with the name of a node. -/
def nameCompare (m : Memory) (bIsCaseSensitive : Bool) (x : CString) (a : Nat) : Ordering :=
  match m.pName a with
  | some y => compareNames bIsCaseSensitive x y
  | none => .eq

theorem nameCompare_eq {b : Bool} {y : CString} (h : m.pName a = some y) :
    nameCompare m b x a = compareNames b x y := by
  rw [nameCompare, h]

/-! ## Descents -/

theorem listFindNodeElement_eq {b : Bool} (hshape : Shape m t p)
    (hnamed : ∀ a ∈ t.toList, ∃ y, m.pName a = some y) (hn : t.toList.length < n) :
    listFindNodeElement m x b n p = some (t.find (nameCompare m b x)) := by
  induction t generalizing p n with
  | leaf =>
    obtain ⟨n, rfl⟩ : ∃ k, n = k + 1 := ⟨n - 1, by omega⟩
    rw [hshape]
    rfl
  | node l a r ihl ihr =>
    obtain ⟨n, rfl⟩ : ∃ k, n = k + 1 := ⟨n - 1, by omega⟩
    obtain ⟨rfl, hl, hr⟩ := hshape
    simp only [BinTree.toList, length_append, length_cons] at hn
    obtain ⟨y, hy⟩ := hnamed a (by simp)
    rw [listFindNodeElement, BinTree.find, nameCompare_eq hy]
    simp only [hy]
    cases compareNames b x y with
    | gt => exact ihr hr (fun a ha => hnamed a (by simp [ha])) (by omega)
    | lt => exact ihl hl (fun a ha => hnamed a (by simp [ha])) (by omega)
    | eq => rfl

/-- The writes on either side. -/
def attach (m : Memory) (pList pNode : Nat) : BinTree.Side → Memory
  | .right => addRight m pList pNode
  | .left => addLeft m pList pNode

/-- The descent of an addition ends where the tree has room for the new leaf, or at a
node with the same name. -/
theorem listSortedAddNode_eq {p pNode : Nat} (hshape : Shape m t (some p))
    (hnamed : ∀ a ∈ t.toList, ∃ y, m.pName a = some y) (hx : m.pName pNode = some x)
    (hn : t.toList.length ≤ n) :
    match t.insert (nameCompare m true x) pNode with
    | none => listSortedAddNode m pNode n p = some (sErrorItemExists, m)
    | some t' => ∃ b side, BinTree.Attached pNode b side t t' ∧
        listSortedAddNode m pNode n p = some (sSuccess, attach m b pNode side) := by
  induction t generalizing p n with
  | leaf => cases hshape
  | node l a r ihl ihr =>
    obtain ⟨hp, hl, hr⟩ := hshape
    obtain rfl : p = a := Option.some.inj hp
    simp only [BinTree.toList, length_append, length_cons] at hn
    obtain ⟨n, rfl⟩ : ∃ k, n = k + 1 := ⟨n - 1, by omega⟩
    obtain ⟨y, hy⟩ := hnamed p (by simp)
    rw [listSortedAddNode, BinTree.insert, nameCompare_eq hy]
    simp only [hx, hy, compareNames, if_true]
    cases strcmp x y with
    | gt =>
      cases hright : m.pRight p with
      | none =>
        rw [hright] at hr
        cases r with
        | leaf => exact ⟨p, .right, .here_right, rfl⟩
        | node l' c r' => cases hr.1
      | some q =>
        rw [hright] at hr
        have hrest := ihr hr (fun a ha => hnamed a (by simp [ha])) (n := n) (by omega)
        cases hins : r.insert (nameCompare m true x) pNode with
        | none =>
          rw [hins] at hrest
          exact hrest
        | some r' =>
          rw [hins] at hrest
          obtain ⟨b, side, hatt, hadd⟩ := hrest
          exact ⟨b, side, .in_right hatt, hadd⟩
    | lt =>
      cases hleft : m.pLeft p with
      | none =>
        rw [hleft] at hl
        cases l with
        | leaf => exact ⟨p, .left, .here_left, rfl⟩
        | node l' c r' => cases hl.1
      | some q =>
        rw [hleft] at hl
        have hrest := ihl hl (fun a ha => hnamed a (by simp [ha])) (n := n) (by omega)
        cases hins : l.insert (nameCompare m true x) pNode with
        | none =>
          rw [hins] at hrest
          exact hrest
        | some l' =>
          rw [hins] at hrest
          obtain ⟨b, side, hatt, hadd⟩ := hrest
          exact ⟨b, side, .in_left hatt, hadd⟩
    | eq => rfl

/-! ## The writes of an addition -/

theorem attach_pName (m : Memory) (b y : Nat) (side : BinTree.Side) :
    (attach m b y side).pName = m.pName := by
  cases side with
  | right =>
    rw [attach, addRight]
    split <;> rfl
  | left =>
    rw [attach, addLeft]
    split <;> rfl

theorem attach_pRight (m : Memory) (b y : Nat) (side : BinTree.Side) :
    (attach m b y side).pRight =
        if side = .right then update m.pRight b (some y) else m.pRight := by
  cases side with
  | right =>
    rw [attach, addRight]
    split <;> rfl
  | left =>
    rw [attach, addLeft]
    split <;> rfl

theorem attach_pLeft (m : Memory) (b y : Nat) (side : BinTree.Side) :
    (attach m b y side).pLeft = if side = .left then update m.pLeft b (some y) else m.pLeft := by
  cases side with
  | right =>
    rw [attach, addRight]
    split <;> rfl
  | left =>
    rw [attach, addLeft]
    split <;> rfl

theorem addRight_pNext (m : Memory) (b y x : Nat) : (addRight m b y).pNext x =
    if x = b then some y else if x = y then m.pNext b else m.pNext x := by
  rw [addRight]
  split <;> simp [update_apply]

theorem addRight_pPrevious (hyb : y ≠ b) (x : Nat) :
    (addRight m b y).pPrevious x =
      if m.pNext b = some x then some y else if x = y then some b else m.pPrevious x := by
  rw [addRight]
  cases hq : m.pNext b with
  | none => simp [hq, hyb.symm, update_apply]
  | some q => simp [hq, hyb.symm, update_apply, eq_comm]

theorem addLeft_pPrevious (m : Memory) (b y x : Nat) : (addLeft m b y).pPrevious x =
    if x = b then some y else if x = y then m.pPrevious b else m.pPrevious x := by
  rw [addLeft]
  split <;> simp [update_apply]

theorem addLeft_pNext (hyb : y ≠ b) (x : Nat) :
    (addLeft m b y).pNext x =
      if m.pPrevious b = some x then some y else if x = y then some b else m.pNext x := by
  rw [addLeft]
  cases hq : m.pPrevious b with
  | none => simp [hq, hyb.symm, update_apply]
  | some q => simp [hq, hyb.symm, update_apply, eq_comm]

theorem attach_of_ne {c : Nat} (hc : c ≠ b) (y : Nat) (side : BinTree.Side) :
    (attach m b y side).pLeft c = m.pLeft c ∧ (attach m b y side).pRight c = m.pRight c := by
  rw [attach_pLeft, attach_pRight]
  refine ⟨?_, ?_⟩
  · split
    · rw [update_of_ne hc]
    · rfl
  · split
    · rw [update_of_ne hc]
    · rfl

theorem Shape.congr {m' : Memory} (h : Shape m t p) (hl : ∀ a ∈ t.toList, m'.pLeft a = m.pLeft a)
    (hr : ∀ a ∈ t.toList, m'.pRight a = m.pRight a) :
    Shape m' t p := by
  induction t generalizing p with
  | leaf => exact h
  | node l a r ihl ihr =>
    obtain ⟨hp, hshl, hshr⟩ := h
    simp only [mem_toList_node] at hl hr
    refine ⟨hp, ?_, ?_⟩
    · rw [hl a (Or.inr (Or.inl rfl))]
      exact ihl hshl (fun c hc => hl c (Or.inl hc)) fun c hc => hr c (Or.inl hc)
    · rw [hr a (Or.inr (Or.inl rfl))]
      exact ihr hshr (fun c hc => hl c (Or.inr (Or.inr hc))) fun c hc => hr c (Or.inr (Or.inr hc))

theorem Shape.beside (h : Shape m t p) (hb : b ∉ t.toList) (y : Nat) (side : BinTree.Side) :
    Shape (attach m b y side) t p := by
  have hne : ∀ c ∈ t.toList, c ≠ b := fun c hc hcb => hb (hcb ▸ hc)
  apply h.congr
  · intro c hc
    exact (attach_of_ne (hne c hc) y side).1
  · intro c hc
    exact (attach_of_ne (hne c hc) y side).2

theorem Shape.attach (h : Shape m t p) (hatt : BinTree.Attached y b side t t')
    (hnd : t.toList.Nodup) (hyb : y ≠ b) (hyl : m.pLeft y = none) (hyr : m.pRight y = none) :
    Shape (attach m b y side) t' p := by
  have hleaf : Shape (Security.attach m b y side) (.node .leaf y .leaf) (some y) := by
    refine ⟨rfl, ?_, ?_⟩
    · exact (attach_of_ne hyb y side).1.trans hyl
    · exact (attach_of_ne hyb y side).2.trans hyr
  induction hatt generalizing p with
  | @here_right l =>
    obtain ⟨hp, hl, hr⟩ := h
    simp only [BinTree.toList, nodup_append] at hnd
    have hb : b ∉ l.toList := fun hb => hnd.2.2 b hb b (mem_cons_self ..) rfl
    refine ⟨hp, ?_, ?_⟩
    · rw [attach_pLeft, if_neg (by decide)]
      exact hl.beside hb y .right
    · rw [attach_pRight, if_pos rfl, update_self]
      exact hleaf
  | @here_left r =>
    obtain ⟨hp, hl, hr⟩ := h
    simp only [BinTree.toList, List.nil_append, nodup_cons] at hnd
    refine ⟨hp, ?_, ?_⟩
    · rw [attach_pLeft, if_pos rfl, update_self]
      exact hleaf
    · rw [attach_pRight, if_neg (by decide)]
      exact hr.beside hnd.1 y .left
  | @in_right s l r r' a hatt ih =>
    obtain ⟨hp, hl, hr⟩ := h
    simp only [BinTree.toList, nodup_append, nodup_cons] at hnd
    obtain ⟨-, ⟨har, hndr⟩, hdisj⟩ := hnd
    have hab : a ≠ b := fun hab => har (hab ▸ hatt.mem)
    obtain ⟨hal, har'⟩ := attach_of_ne (m := m) hab y s
    refine ⟨hp, ?_, ?_⟩
    · rw [hal]
      apply hl.beside
      intro hb
      exact hdisj b hb b (mem_cons_of_mem _ hatt.mem) rfl
    · rw [har']
      exact ih hr hndr hleaf
  | @in_left s l l' r a hatt ih =>
    obtain ⟨hp, hl, hr⟩ := h
    simp only [BinTree.toList, nodup_append, nodup_cons] at hnd
    obtain ⟨hndl, -, hdisj⟩ := hnd
    have hab : a ≠ b := fun hab => hdisj b hatt.mem a (mem_cons_self ..) hab.symm
    obtain ⟨hal, har⟩ := attach_of_ne (m := m) hab y s
    refine ⟨hp, ?_, ?_⟩
    · rw [hal]
      exact ih hl hndl hleaf
    · rw [har]
      apply hr.beside
      intro hb
      exact hdisj b hatt.mem b (mem_cons_of_mem _ hb) rfl

theorem linked_attach (h : Linked m.pNext m.pPrevious none t.toList none)
    (hatt : BinTree.Attached y b side t t') (hnd : t.toList.Nodup) (hy : y ∉ t.toList) :
    Linked (attach m b y side).pNext (attach m b y side).pPrevious none t'.toList none := by
  have hyb : y ≠ b := fun hyb => hy (hyb ▸ hatt.mem)
  obtain ⟨as, bs, ht, ht'⟩ := hatt.toList_eq
  rw [ht] at h hnd hy
  rw [ht']
  obtain ⟨hnext, hprev⟩ := h.neighbours
  have hndy : (y :: (as ++ b :: bs)).Nodup := nodup_cons.mpr ⟨hy, hnd⟩
  have hne : ∀ x ∈ as ++ b :: bs, x ≠ y := fun x hx hxy => hy (hxy ▸ hx)
  cases side with
  | right =>
    have hsplit : as ++ b :: bs = as ++ [b] ++ bs := by simp
    have hsplit' : as ++ b :: y :: bs = as ++ [b] ++ y :: bs := by simp
    simp only [hsplit, hsplit'] at h hne ⊢
    obtain ⟨hleft, hright⟩ := linked_append.mp h
    apply hleft.insert hright
    · rw [hsplit] at hndy
      exact (List.perm_middle.nodup_iff).mpr hndy
    · rw [attach, addRight_pNext, if_neg hyb, if_pos rfl, hnext]
    · have hq : m.pNext b ≠ some y := by
        intro hq
        rw [hnext] at hq
        exact hne y (List.mem_append_right _ (List.mem_of_head? hq)) rfl
      rw [attach, addRight_pPrevious hyb, if_neg hq, if_pos rfl]
      simp
    · intro x hx
      rw [attach, addRight_pNext, if_neg (hne x hx)]
      simp [eq_comm]
    · intro x hx
      rw [attach, addRight_pPrevious hyb, if_neg (hne x hx), hnext]
  | left =>
    obtain ⟨hleft, hright⟩ := linked_append.mp h
    apply hleft.insert hright
    · exact (List.perm_middle.nodup_iff).mpr hndy
    · have hq : m.pPrevious b ≠ some y := by
        intro hq
        rw [hprev] at hq
        exact hne y (List.mem_append_left _ (List.mem_of_getLast? hq)) rfl
      rw [attach, addLeft_pNext hyb, if_neg hq, if_pos rfl]
      rfl
    · rw [attach, addLeft_pPrevious, if_neg hyb, if_pos rfl, hprev]
    · intro x hx
      rw [attach, addLeft_pNext hyb, if_neg (hne x hx), hprev]
    · intro x hx
      rw [attach, addLeft_pPrevious, if_neg (hne x hx)]
      simp [eq_comm]

/-! ## Additions and searches on what is represented -/

/-- The node as the callers allocate it, with all pointers cleared. -/
def Fresh (m : Memory) (a : Nat) : Prop :=
  m.pLeft a = none ∧ m.pRight a = none ∧ m.pNext a = none ∧ m.pPrevious a = none

theorem Fresh.attach (hfresh : Fresh m a) (h : Linked m.pNext m.pPrevious none t.toList none)
    (hatt : BinTree.Attached y b side t t') (hyb : y ≠ b) (hay : a ≠ y) (hat : a ∉ t.toList) :
    Fresh (attach m b y side) a := by
  obtain ⟨hl, hr, hnext, hprev⟩ := hfresh
  have hab : a ≠ b := fun hab => hat (hab ▸ hatt.mem)
  obtain ⟨hal, har⟩ := attach_of_ne (m := m) hab y side
  obtain ⟨as, bs, ht, -⟩ := hatt.toList_eq
  rw [ht] at h hat
  obtain ⟨hbnext, hbprev⟩ := h.neighbours
  refine ⟨hal.trans hl, har.trans hr, ?_⟩
  cases side with
  | right =>
    have hq : m.pNext b ≠ some a := by
      intro hq
      rw [hbnext] at hq
      exact hat (List.mem_append_right _ (mem_cons_of_mem _ (List.mem_of_head? hq)))
    simp only [Security.attach]
    rw [addRight_pNext, addRight_pPrevious hyb, if_neg hab, if_neg hay, if_neg hq, if_neg hay]
    exact ⟨hnext, hprev⟩
  | left =>
    have hq : m.pPrevious b ≠ some a := by
      intro hq
      rw [hbprev] at hq
      exact hat (List.mem_append_left _ (List.mem_of_getLast? hq))
    simp only [Security.attach]
    rw [addLeft_pNext hyb, addLeft_pPrevious, if_neg hab, if_neg hay, if_neg hq, if_neg hay]
    exact ⟨hnext, hprev⟩

theorem nameCompare_lt (hx : m.pName a = some x) (h : NameLt m a b) :
    nameCompare m true x b = .lt := by
  obtain ⟨x', y, hx', hy, hlt⟩ := h
  cases hx.symm.trans hx'
  rw [nameCompare_eq hy]
  exact hlt

theorem nameCompare_gt (hx : m.pName a = some x) (h : NameLt m b a) :
    nameCompare m true x b = .gt := by
  obtain ⟨y, x', hy, hx', hlt⟩ := h
  cases hx.symm.trans hx'
  rw [nameCompare_eq hy]
  change strcmp x y = .gt
  rw [← strcmp_swap, hlt]
  rfl

theorem NameLt.of_compare (hx : m.pName a = some x) :
    (nameCompare m true x b = .lt → NameLt m a b) ∧
      (nameCompare m true x b = .gt → NameLt m b a) := by
  cases hy : m.pName b with
  | none => simp [nameCompare, hy]
  | some y =>
    rw [nameCompare_eq hy]
    refine ⟨fun hlt => ⟨x, y, hx, hy, hlt⟩, fun hgt => ⟨y, x, hy, hx, ?_⟩⟩
    change strcmp x y = .gt at hgt
    rw [← strcmp_swap, hgt]
    rfl

theorem ListRepresents.find_iff (h : ListRepresents s t) :
    t.find (nameCompare s.mem true x) = some a ↔
      a ∈ t.toList ∧ s.mem.pName a = some x := by
  constructor
  · intro hfind
    obtain ⟨hmem, heq⟩ := find_eq_some hfind
    obtain ⟨y, hy⟩ := h.named a hmem
    rw [nameCompare_eq hy] at heq
    obtain rfl : x = y := strcmp_eq_iff.mp heq
    exact ⟨hmem, hy⟩
  · intro hmem
    obtain ⟨hmem, hx⟩ := hmem
    apply find_of_mem h.ordered
    · intro b hb
      exact nameCompare_lt hx hb
    · intro b hb
      exact nameCompare_gt hx hb
    · exact hmem
    · rw [nameCompare_eq hx]
      exact strcmp_eq_iff.mpr rfl

theorem smcPropListFindElement_eq (h : ListRepresents s t) (hn : t.toList.length < n) (x : CString)
    (b : Bool) :
    smcPropListFindElement n s x b = some (t.find (nameCompare s.mem b x)) := by
  rw [smcPropListFindElement]
  split
  next root hroot =>
    apply listFindNodeElement_eq _ h.named hn
    rw [← hroot]
    exact h.shape
  next hroot =>
    cases t with
    | leaf => rfl
    | node l a r =>
      have hshape := h.shape
      rw [hroot] at hshape
      cases hshape.1

theorem smcPropListSortedAdd_exists (h : ListRepresents s t) {p : Nat} (hn : t.toList.length ≤ n)
    (hx : s.mem.pName p = some x) (hins : t.insert (nameCompare s.mem true x) p = none) :
    smcPropListSortedAdd n s p = some (sErrorItemExists, s) := by
  rw [smcPropListSortedAdd, if_neg (by simp [hx])]
  have hshape := h.shape
  cases hroot : s.list.pRoot with
  | none =>
    rw [hroot] at hshape
    cases t with
    | leaf => cases hins
    | node l a r => cases hshape.1
  | some root =>
    rw [hroot] at hshape
    have hadd := listSortedAddNode_eq hshape h.named hx hn
    rw [hins] at hadd
    simp only [hadd]
    rw [if_neg (fun hc => absurd hc.1 (by decide))]

theorem head_insert {next prev : Nat → Option Nat} {as bs : List Nat}
    (h : Linked next prev none (as ++ y :: bs) none) :
    (as ++ y :: bs).head? = if prev y = none then some y else (as ++ bs).head? := by
  rw [h.neighbours.2]
  cases as with
  | nil => rfl
  | cons a as => simp

theorem smcPropListSortedAdd_new (h : ListRepresents s t) {p : Nat} (hn : t.toList.length ≤ n)
    (hx : s.mem.pName p = some x) (hfresh : Fresh s.mem p)
    (hins : t.insert (nameCompare s.mem true x) p = some t') :
    ∃ s', smcPropListSortedAdd n s p = some (sSuccess, s') ∧ ListRepresents s' t' ∧
      s'.mem.pName = s.mem.pName ∧ ∀ a, a ∉ t'.toList → Fresh s.mem a → Fresh s'.mem a := by
  -- the name, and so the node, is not in the tree yet
  have hp : p ∉ t.toList := by
    intro hp
    have hfind := h.find_iff.mpr ⟨hp, hx⟩
    rw [insert_eq_none.mpr ⟨p, hfind⟩] at hins
    cases hins
  have hordered : t'.Ordered (NameLt s.mem) := by
    apply h.ordered.insert _ _ hins
    · intro b hb
      exact (NameLt.of_compare hx).1 hb
    · intro b hb
      exact (NameLt.of_compare hx).2 hb
  have hnamed : ∀ a ∈ t'.toList, ∃ y, s.mem.pName a = some y := by
    intro a ha
    rcases (mem_insert hins).mp ha with rfl | ha
    · exact ⟨x, hx⟩
    · exact h.named a ha
  have hshape := h.shape
  obtain ⟨hpl, hpr, hpn, hpp⟩ := hfresh
  rw [smcPropListSortedAdd, if_neg (by simp [hx])]
  cases hroot : s.list.pRoot with
  | none =>
    rw [hroot] at hshape
    cases t with
    | node l a r => cases hshape.1
    | leaf =>
      cases hins
      refine ⟨_, rfl, ⟨⟨rfl, hpl, hpr⟩, hnamed, hordered, ⟨hpp, hpn, trivial⟩, rfl⟩, rfl, ?_⟩
      intro a _ ha
      exact ha
  | some root =>
    rw [hroot] at hshape
    have hadd := listSortedAddNode_eq hshape h.named hx hn
    rw [hins] at hadd
    obtain ⟨b, side, hatt, hadd⟩ := hadd
    have hpb : p ≠ b := fun hpb => hp (hpb ▸ hatt.mem)
    have hname := attach_pName s.mem b p side
    have hlinked := linked_attach h.linked hatt h.nodup hp
    obtain ⟨as, bs, ht, ht'⟩ := hatt.split
    have hfirst := hlinked
    rw [ht'] at hfirst
    have hhead := head_insert hfirst
    rw [← ht', ← ht, ← h.first] at hhead
    have hlt : NameLt (attach s.mem b p side) = NameLt s.mem := by
      funext a c
      simp only [NameLt, hname]
    have hrep : ∀ l : NodeList, l.pRoot = s.list.pRoot → l.pFirst = t'.toList.head? →
        ListRepresents { mem := attach s.mem b p side, list := l } t' := by
      intro l hr hf
      refine ⟨?_, ?_, ?_, hlinked, hf⟩
      · simp only [hr, hroot]
        exact hshape.attach hatt h.nodup hpb hpl hpr
      · intro a ha
        simp only [hname]
        exact hnamed a ha
      · simp only [hlt]
        exact hordered
    have hframe : ∀ a, a ∉ t'.toList → Fresh s.mem a → Fresh (attach s.mem b p side) a := by
      intro a ha hfresh
      rw [mem_insert hins, not_or] at ha
      exact hfresh.attach h.linked hatt hpb ha.1 ha.2
    simp only [hadd]
    split
    next hcond =>
      rw [if_pos hcond.2] at hhead
      exact ⟨_, rfl, hrep _ rfl hhead.symm, hname, hframe⟩
    next hcond =>
      rw [if_neg (fun hc => hcond ⟨trivial, hc⟩)] at hhead
      exact ⟨_, rfl, hrep _ rfl hhead.symm, hname, hframe⟩

/-! ## Sequences of additions -/

/-- What additions of `done`, from the empty list on, have led to. -/
structure Added (m₀ : Memory) (done : List Nat) (s : ListState) (t : BinTree Nat) : Prop where
  represents : ListRepresents s t
  names : s.mem.pName = m₀.pName
  fresh : ∀ a, a ∉ t.toList → Fresh m₀ a → Fresh s.mem a
  length : t.toList.length ≤ done.length
  mem : ∀ a, a ∈ t.toList ↔
    ∃ x, m₀.pName a = some x ∧ done.find? (fun p => m₀.pName p = some x) = some a

theorem Added.empty (m₀ : Memory) : Added m₀ [] { mem := m₀, list := {} } .leaf := by
  refine ⟨⟨rfl, ?_, trivial, trivial, rfl⟩, rfl, fun a _ ha => ha, Nat.le_refl _, ?_⟩
  · intro a ha
    cases ha
  · intro a
    simp [BinTree.toList]

theorem Added.find (h : Added m₀ done s t) (x : CString) :
    t.find (nameCompare s.mem true x) = done.find? fun p => m₀.pName p = some x := by
  apply Option.ext
  intro a
  rw [h.represents.find_iff, h.mem, h.names]
  constructor
  · intro hmem
    obtain ⟨⟨y, hy, hfind⟩, hx⟩ := hmem
    cases hx.symm.trans hy
    exact hfind
  · intro hfind
    have hx : m₀.pName a = some x := by simpa using List.find?_some hfind
    exact ⟨⟨x, hx, hfind⟩, hx⟩

theorem Added.step (h : Added m₀ done s t) {p : Nat} (hn : done.length ≤ n) (hfresh : Fresh m₀ p) :
    ∃ nResult s' t', smcPropListSortedAdd n s p = some (nResult, s') ∧
      Added m₀ (done ++ [p]) s' t' := by
  have hlen : t.toList.length ≤ n := Nat.le_trans h.length hn
  have hlonger : t.toList.length ≤ (done ++ [p]).length := by
    have hle := h.length
    simp only [length_append, length_cons, List.length_nil]
    omega
  cases hx : m₀.pName p with
  | none =>
    refine ⟨sErrorBadParameters, s, t, ?_, h.represents, h.names, h.fresh, hlonger, ?_⟩
    · rw [smcPropListSortedAdd, if_pos (by rw [h.names, hx])]
    · intro a
      rw [h.mem]
      simp [find?_append, hx]
  | some x =>
    have hx' : s.mem.pName p = some x := by rw [h.names, hx]
    have hfind := h.find x
    cases hins : t.insert (nameCompare s.mem true x) p with
    | none =>
      -- a node with the name is there, and it is the one a search finds
      obtain ⟨c, hc⟩ := insert_eq_none.mp hins
      rw [hc] at hfind
      refine ⟨sErrorItemExists, s, t, smcPropListSortedAdd_exists h.represents hlen hx' hins,
        h.represents, h.names, h.fresh, hlonger, ?_⟩
      intro a
      rw [h.mem]
      refine exists_congr fun y => and_congr_right fun _ => ?_
      rw [find?_append]
      by_cases hxy : y = x
      · rw [hxy, ← hfind]
        rfl
      · have hne : ¬ x = y := fun hc => hxy hc.symm
        simp [hx, hne]
    | some t' =>
      have hnone : done.find? (fun p => m₀.pName p = some x) = none := by
        rw [← hfind, Option.eq_none_iff_forall_ne_some]
        intro c hc
        rw [insert_eq_none.mpr ⟨c, hc⟩] at hins
        cases hins
      have hpfresh : Fresh s.mem p := by
        apply h.fresh p _ hfresh
        intro hp
        obtain ⟨y, hy, hfindy⟩ := (h.mem p).mp hp
        cases hx.symm.trans hy
        rw [hnone] at hfindy
        cases hfindy
      obtain ⟨s', hadd, hrep, hname, hframe⟩ :=
        smcPropListSortedAdd_new h.represents hlen hx' hpfresh hins
      refine ⟨sSuccess, s', t', hadd, hrep, hname.trans h.names, ?_, ?_, ?_⟩
      · intro a ha hfresh
        have hat : a ∉ t.toList := fun hat => ha ((mem_insert hins).mpr (Or.inr hat))
        exact hframe a ha (h.fresh a hat hfresh)
      · have hle := h.length
        rw [length_insert hins, length_append]
        exact Nat.succ_le_succ hle
      · intro a
        rw [mem_insert hins, h.mem]
        constructor
        · intro ha
          rcases ha with rfl | ⟨y, hy, hfindy⟩
          · exact ⟨x, hx, by simp [find?_append, hnone, hx]⟩
          · exact ⟨y, hy, by rw [find?_append, hfindy]; rfl⟩
        · intro ha
          obtain ⟨y, hy, hfindy⟩ := ha
          rw [find?_append, Option.or_eq_some_iff] at hfindy
          rcases hfindy with hfindy | ⟨-, hlast⟩
          · exact Or.inr ⟨y, hy, hfindy⟩
          · exact Or.inl (List.mem_singleton.mp (List.mem_of_find?_eq_some hlast))

theorem added_all {ps : List Nat} (h : Added m₀ done s t) (hn : (done ++ ps).length ≤ n)
    (hfresh : ∀ p ∈ ps, Fresh m₀ p) :
    ∃ s' t', addAll n ps s = some s' ∧ Added m₀ (done ++ ps) s' t' := by
  induction ps generalizing done s t with
  | nil => exact ⟨s, t, rfl, by rwa [List.append_nil]⟩
  | cons p ps ih =>
    rw [List.append_cons] at hn ⊢
    have hle : done.length ≤ n := by
      simp only [length_append] at hn
      omega
    obtain ⟨nResult, s', t', hadd, h'⟩ := h.step hle (hfresh p (mem_cons_self ..))
    rw [addAll, hadd]
    exact ih h' hn fun q hq => hfresh q (mem_cons_of_mem _ hq)

/-- Whatever nodes are added to the empty list, in whatever order and with whatever
names: the tree pointers make up a search tree ordered by `strcmp`, and the list
pointers lead through its nodes from left to right. A name that is there is refused, and
nothing changes; a search finds the node first added under the name, and nothing if
there was none. -/
theorem propertyList_represented (m₀ : Memory) (calls : List Nat) (n : Nat)
    (hfresh : ∀ p ∈ calls, Fresh m₀ p) (hn : calls.length < n) :
    ∃ s t, addAll n calls { mem := m₀, list := {} } = some s ∧
      (Shape s.mem t s.list.pRoot ∧ t.Ordered (NameLt s.mem)) ∧
      (s.list.pFirst = t.toList.head? ∧
        Linked s.mem.pNext s.mem.pPrevious none t.toList none ∧
        t.toList.Pairwise (NameLt s.mem)) ∧
      (∀ a ∈ t.toList, ∀ p, s.mem.pName p = s.mem.pName a →
        smcPropListSortedAdd n s p = some (sErrorItemExists, s)) ∧
      ∀ x, smcPropListFindElement n s x true =
        some (calls.find? fun p => m₀.pName p = some x) := by
  obtain ⟨s, t, hall, h⟩ := added_all (Added.empty m₀) (Nat.le_of_lt hn) hfresh
  rw [List.nil_append] at h
  have hlen : t.toList.length < n := Nat.lt_of_le_of_lt h.length hn
  refine ⟨s, t, hall, ⟨h.represents.shape, h.represents.ordered⟩,
    ⟨h.represents.first, h.represents.linked, h.represents.sorted⟩, ?_, ?_⟩
  · intro a ha p hp
    obtain ⟨x, hx⟩ := h.represents.named a ha
    have hfind := h.represents.find_iff.mpr ⟨ha, hx⟩
    exact smcPropListSortedAdd_exists h.represents (Nat.le_of_lt hlen) (hp.trans hx)
      (insert_eq_none.mpr ⟨a, hfind⟩)
  · intro x
    rw [smcPropListFindElement_eq h.represents hlen, h.find]

def letter (c : UInt8) (h : 0 ∉ [c]) : CString := ⟨[c], h⟩

theorem zero_notMem_a : (0 : UInt8) ∉ [0x61] := by decide

/-- Three nodes, the first and the last with the same name. -/
def threeNodes : Memory where
  pLeft _ := none
  pRight _ := none
  pNext _ := none
  pPrevious _ := none
  pName a := if a = 1 then some (letter 0x61 (by decide)) else some (letter 0x62 (by decide))

theorem propertyList_three_nodes :
    ∃ s, addAll 4 [0, 1, 2] { mem := threeNodes, list := {} } = some s ∧
      smcPropListFindElement 4 s (letter 0x61 (by decide)) true = some (some 1) ∧
      smcPropListFindElement 4 s (letter 0x62 (by decide)) true = some (some 0) := by
  obtain ⟨s, t, hall, -, -, -, hfind⟩ := propertyList_represented threeNodes [0, 1, 2] 4
    (fun _ _ => ⟨rfl, rfl, rfl, rfl⟩) (by decide)
  refine ⟨s, hall, ?_, ?_⟩
  · rw [hfind]
    decide
  · rw [hfind]
    decide

end Omap4Hal.Security
