import Omap4Hal.Elfload.LoaderLists
import Omap4Hal.Lib.Chain
import Omap4Hal.Lib.Run

/- The queue of `Queue.h` in memory: the nodes, the pointers to the first and the last of them, and
   the chain between. `Represents` says that nodes, pointers and count are those of a sequence;
   enqueue, dequeue and remove keep it, of the sequence with the value appended, without its first
   value, or without the first occurrence. In `LoaderLists` the same queue is without nodes. -/
namespace Omap4Hal.Elfload.NodeQueue

open Lib
open List (getLast?_cons length_append length_cons map_append map_cons mem_append mem_cons_of_mem
  mem_cons_self mem_map mem_map_of_mem mem_singleton nodup_append nodup_cons)
open Option (bind_some or_none)

/-! ## The code -/

/-- `t_name##_Queue_Node`; a null pointer is `none`. -/
structure Node (α : Type) where
  value : α
  nextPtr : Option Nat

/-- `t_name##_Queue`, with the nodes that are allocated. A node takes at least eight bytes, so that
the count stays below 2^29 and does not wrap. -/
structure Queue (α : Type) where
  node : Nat → Option (Node α)
  frontPtr : Option Nat := none
  backPtr : Option Nat := none
  size : Int := 0

variable {α : Type}

/-- `t_name##_initialize_queue` -/
def initializeQueue (node : Nat → Option (Node α)) : Queue α := { node := node }

/-- A node is allocated, and its value and its pointer are written. -/
def Queue.alloc (q : Queue α) (a : Nat) (v : α) : Queue α :=
  { q with node := Function.update q.node a (some ⟨v, none⟩) }

/-- A node is freed. -/
def Queue.free (q : Queue α) (a : Nat) : Queue α :=
  { q with node := Function.update q.node a none }

/-- `p->next_ptr = r`. `none`, here and below, is an access to a node that is not allocated. -/
def Queue.setNext (q : Queue α) (p : Nat) (r : Option Nat) : Option (Queue α) :=
  (q.node p).map fun n => { q with node := Function.update q.node p (some { n with nextPtr := r }) }

/-- `t_name##_enqueue`, where `a` is the node that `DLIF_malloc` grants. -/
def Queue.enqueue (q : Queue α) (toEnqueue : α) (a : Nat) : Option (Queue α) :=
  match q.backPtr with
  | none =>
    some { q.alloc a toEnqueue with frontPtr := some a, backPtr := some a, size := q.size + 1 }
  | some b =>
    (q.setNext b (some a)).map fun q =>
      { q.alloc a toEnqueue with backPtr := some a, size := q.size + 1 }

/-- `t_name##_dequeue`: the value that is returned, if there is one, and the queue. -/
def Queue.dequeue (q : Queue α) : Option (Option α × Queue α) :=
  if q.size = 0 then some (none, q)
  else
    q.frontPtr.bind fun f => (q.node f).map fun n =>
      (some n.value,
        { q.free f with
          frontPtr := if q.size - 1 = 0 then none else n.nextPtr
          backPtr := if q.size - 1 = 0 then none else q.backPtr
          size := q.size - 1 })

/-- `prev_ptr->next_ptr = next_ptr`, if there is a node before. -/
def Queue.bypass (q : Queue α) (prevPtr nextPtr : Option Nat) : Option (Queue α) :=
  match prevPtr with
  | none => some q
  | some p => q.setNext p nextPtr

/-- The front and the back pointer, from where the loop has ended. -/
def Queue.reset (q : Queue α) (prevPtr nextPtr : Option Nat) : Queue α :=
  if q.size = 0 then { q with frontPtr := none, backPtr := none }
  else
    { q with
      frontPtr := if prevPtr = none then nextPtr else q.frontPtr
      backPtr := if nextPtr = none then prevPtr else q.backPtr }

variable [DecidableEq α]

/-- The loop of `t_name##_remove`, from a node and the one before it: `prev_ptr`, `curr_ptr` and
`next_ptr` at its end. At the end of the chain `next_ptr` is null as well. -/
def Queue.search (q : Queue α) (toRemove : α) :
    Nat → Option Nat → Option Nat → Option (Option Nat × Option Nat × Option Nat)
  | _, prevPtr, none => some (prevPtr, none, none)
  | 0, _, some _ => none
  | fuel + 1, prevPtr, some c =>
    (q.node c).bind fun n =>
      if n.value = toRemove then some (prevPtr, some c, n.nextPtr)
      else q.search toRemove fuel (some c) n.nextPtr

/-- `t_name##_remove`. A chain longer than the count is taken for one without an end. -/
def Queue.remove (q : Queue α) (toRemove : α) : Option (Queue α) :=
  (q.search toRemove q.size.toNat none q.frontPtr).bind fun (prevPtr, currPtr, nextPtr) =>
    match currPtr with
    | none => some (q.reset prevPtr nextPtr)
    | some c =>
      (q.bypass prevPtr nextPtr).map fun q =>
        Queue.reset { q.free c with size := q.size - 1 } prevPtr nextPtr

/-! ## Runs -/

inductive Call (α : Type) where
  | enqueue (toEnqueue : α) (a : Nat)
  | dequeue
  | remove (toRemove : α)

def step (q : Queue α) : Call α → Option (Queue α)
  | .enqueue v a => q.enqueue v a
  | .dequeue => q.dequeue.map (·.2)
  | .remove v => q.remove v

/-- What the calls do to a sequence. -/
def apply (xs : List α) : Call α → List α
  | .enqueue v _ => xs ++ [v]
  | .dequeue => xs.drop 1
  | .remove v => xs.erase v

/-- The allocator grants memory that is not in use. -/
def Fresh (q : Queue α) : Call α → Prop
  | .enqueue _ a => q.node a = none
  | _ => True

/-! ## What a queue represents -/

omit [DecidableEq α]

def Queue.next (q : Queue α) (p : Nat) : Option Nat := (q.node p).bind (·.nextPtr)

def Queue.value (q : Queue α) (p : Nat) : Option α := (q.node p).map (·.value)

/-- The nodes of the cells are chained in order, hold their values, and are all that is counted. -/
structure Queue.Holds (q : Queue α) (cells : List (Nat × α)) : Prop where
  nodup : (cells.map (·.1)).Nodup
  values : ∀ c ∈ cells, q.value c.1 = some c.2
  leads : Leads q.next (cells.map (·.1)) none
  front : q.frontPtr = (cells.map (·.1)).head?
  back : q.backPtr = (cells.map (·.1)).getLast?
  size : q.size = cells.length

def Queue.Represents (q : Queue α) (xs : List α) : Prop :=
  ∃ cells, q.Holds cells ∧ cells.map (·.2) = xs

theorem initializeQueue_represents (node : Nat → Option (Node α)) :
    (initializeQueue node).Represents [] :=
  ⟨[], ⟨List.nodup_nil, by simp, trivial, rfl, rfl, rfl⟩, rfl⟩

section Holds
variable {q : Queue α} {as bs cells : List (Nat × α)} {c : Nat × α}

/-- The cells from one of them on, as the search sees them. -/
structure Queue.Chained (q : Queue α) (cells : List (Nat × α)) : Prop where
  values : ∀ c ∈ cells, q.value c.1 = some c.2
  leads : Leads q.next (cells.map (·.1)) none

theorem Queue.Chained.node (h : q.Chained (c :: cells)) :
    q.node c.1 = some ⟨c.2, (cells.map (·.1)).head?⟩ := by
  obtain ⟨n, hn, hvalue⟩ := Option.map_eq_some_iff.mp (h.values c mem_cons_self)
  have hnext := h.leads.1
  rw [or_none, Queue.next, hn] at hnext
  have hnext : n.nextPtr = (cells.map (·.1)).head? := hnext
  rw [hn, ← hvalue, ← hnext]

theorem Queue.Chained.append (h : q.Chained (as ++ bs)) : q.Chained bs where
  values := fun c hc => h.values c (List.mem_append_right _ hc)
  leads := by
    have hleads := h.leads
    rw [map_append] at hleads
    exact (leads_append.mp hleads).2

theorem Queue.Holds.chained (h : q.Holds cells) : q.Chained cells := ⟨h.values, h.leads⟩

theorem Queue.Holds.node_at (h : q.Holds (as ++ c :: bs)) :
    q.node c.1 = some ⟨c.2, (bs.map (·.1)).head?⟩ :=
  h.chained.append.node

theorem Queue.Holds.allocated (h : q.Holds cells) (hc : c ∈ cells) : q.node c.1 ≠ none := by
  obtain ⟨as, bs, rfl⟩ := List.append_of_mem hc
  rw [h.node_at]
  exact Option.some_ne_none _

theorem Queue.Holds.ne (h : q.Holds (as ++ c :: bs)) :
    (∀ d ∈ as, d.1 ≠ c.1) ∧ ∀ d ∈ bs, d.1 ≠ c.1 := by
  have hnodup := h.nodup
  rw [map_append, map_cons] at hnodup
  obtain ⟨-, hnodup, hdisj⟩ := nodup_append.mp hnodup
  constructor
  · intro d hd
    exact hdisj _ (mem_map_of_mem hd) _ mem_cons_self
  · intro d hd heq
    exact (nodup_cons.mp hnodup).1 (heq ▸ mem_map_of_mem hd)

/-! ## Nodes that are written -/

variable {a p : Nat} {v : α}

@[simp] theorem next_alloc :
    (q.alloc a v).next p = if p = a then none else q.next p := by
  by_cases hp : p = a <;> simp [Queue.alloc, Queue.next, hp]

@[simp] theorem value_alloc :
    (q.alloc a v).value p = if p = a then some v else q.value p := by
  by_cases hp : p = a <;> simp [Queue.alloc, Queue.value, hp]

@[simp] theorem next_free : (q.free a).next p = if p = a then none else q.next p := by
  by_cases hp : p = a <;> simp [Queue.free, Queue.next, hp]

@[simp] theorem value_free :
    (q.free a).value p = if p = a then none else q.value p := by
  by_cases hp : p = a <;> simp [Queue.free, Queue.value, hp]

theorem Queue.setNext_spec {n : Node α} (hn : q.node p = some n) (r : Option Nat) :
    ∃ q', q.setNext p r = some q' ∧ (∀ x, q'.next x = if x = p then r else q.next x) ∧
      (∀ x, q'.value x = q.value x) ∧
      q'.frontPtr = q.frontPtr ∧ q'.backPtr = q.backPtr ∧ q'.size = q.size := by
  refine ⟨{ q with node := Function.update q.node p (some { n with nextPtr := r }) },
    by rw [Queue.setNext, hn]; rfl, ?_, ?_, rfl, rfl, rfl⟩
  · intro x
    by_cases hx : x = p <;> simp [Queue.next, hx]
  · intro x
    by_cases hx : x = p <;> simp [Queue.value, hx, hn]

theorem bypass_spec {prevPtr r : Option Nat} (hprev : ∀ p, prevPtr = some p → q.node p ≠ none) :
    ∃ q', q.bypass prevPtr r = some q' ∧
      (∀ x, q'.next x = if prevPtr = some x then r else q.next x) ∧
      (∀ x, q'.value x = q.value x) ∧
      q'.frontPtr = q.frontPtr ∧ q'.backPtr = q.backPtr ∧ q'.size = q.size := by
  cases prevPtr with
  | none => exact ⟨q, rfl, by simp, by simp, rfl, rfl, rfl⟩
  | some p =>
    obtain ⟨n, hn⟩ := Option.ne_none_iff_exists'.mp (hprev p rfl)
    obtain ⟨q', hset, hnext, hrest⟩ := q.setNext_spec hn r
    refine ⟨q', hset, ?_, hrest⟩
    intro x
    rw [hnext]
    by_cases hx : x = p
    · rw [if_pos hx, if_pos (congrArg some hx.symm)]
    · rw [if_neg hx, if_neg fun heq => hx (Option.some.inj heq).symm]

theorem reset_spec (q : Queue α) (prevPtr nextPtr : Option Nat) :
    (∀ x, (q.reset prevPtr nextPtr).next x = q.next x) ∧
      (∀ x, (q.reset prevPtr nextPtr).value x = q.value x) ∧
      (q.reset prevPtr nextPtr).size = q.size ∧
      (q.reset prevPtr nextPtr).frontPtr =
        (if q.size = 0 then none else if prevPtr = none then nextPtr else q.frontPtr) ∧
      (q.reset prevPtr nextPtr).backPtr =
        (if q.size = 0 then none else if nextPtr = none then prevPtr else q.backPtr) := by
  unfold Queue.reset
  by_cases hsize : q.size = 0
  · rw [if_pos hsize, if_pos hsize, if_pos hsize]
    exact ⟨fun _ => rfl, fun _ => rfl, rfl, rfl, rfl⟩
  · rw [if_neg hsize, if_neg hsize, if_neg hsize]
    exact ⟨fun _ => rfl, fun _ => rfl, rfl, rfl, rfl⟩

theorem leads_link {next next' : Nat → Option Nat} {ps : List Nat} {b : Nat} {e e' : Option Nat}
    (hnd : (ps ++ [b]).Nodup) (hb : next' b = e') (hn : ∀ p ∈ ps, p ≠ b → next' p = next p)
    (h : Leads next (ps ++ [b]) e) : Leads next' (ps ++ [b]) e' := by
  obtain ⟨hps, -⟩ := leads_append.mp h
  obtain ⟨-, -, hdisj⟩ := nodup_append.mp hnd
  refine leads_append.mpr ⟨hps.congr fun p hp => ?_, ?_, trivial⟩
  · exact hn p hp (hdisj p hp b (List.mem_singleton_self b))
  · rw [hb]
    rfl

/-! ## The operations -/

theorem Queue.Holds.enqueue (h : q.Holds cells) (ha : q.node a = none) (v : α) :
    ∃ q', q.enqueue v a = some q' ∧ q'.Holds (cells ++ [(a, v)]) := by
  have hfresh : ∀ c ∈ cells, c.1 ≠ a := by
    rintro c hc rfl
    exact h.allocated hc ha
  have hnodup : ((cells ++ [(a, v)]).map (·.1)).Nodup := by
    rw [map_append, nodup_append]
    refine ⟨h.nodup, List.nodup_singleton a, ?_⟩
    intro p hp b hb
    obtain ⟨c, hc, rfl⟩ := mem_map.mp hp
    obtain rfl := mem_singleton.mp hb
    exact hfresh c hc
  have hsize : q.size + 1 = ((cells ++ [(a, v)]).length : Int) := by
    rw [h.size, length_append]
    rfl
  rcases List.eq_nil_or_concat' cells with rfl | ⟨init, last, rfl⟩
  · have hback : q.backPtr = none := h.back
    refine ⟨_, by rw [Queue.enqueue, hback], hnodup, ?_, ?_, rfl, rfl, hsize⟩
    · intro c hc
      obtain rfl := mem_singleton.mp hc
      exact value_alloc.trans (if_pos rfl)
    · exact ⟨next_alloc.trans (if_pos rfl), trivial⟩
  · have hback : q.backPtr = some last.1 := by
      rw [h.back]
      simp
    obtain ⟨q', hset, hnext, hvalue, hfront, -, hsize'⟩ := q.setNext_spec h.node_at (some a)
    have hends := h.nodup
    have hleads := h.leads
    rw [map_append] at hends hleads
    refine ⟨_, by rw [Queue.enqueue, hback]; simp only [hset]; rfl, hnodup, ?_, ?_, ?_, ?_, ?_⟩
    · intro c hc
      refine value_alloc.trans ?_
      rcases mem_append.mp hc with hc | hc
      · rw [if_neg (hfresh c hc), hvalue]
        exact h.values c hc
      · obtain rfl := mem_singleton.mp hc
        exact if_pos rfl
    · rw [map_append, map_append, leads_append]
      refine ⟨leads_link hends ?_ ?_ hleads, next_alloc.trans (if_pos rfl), trivial⟩
      · refine next_alloc.trans ?_
        rw [if_neg (hfresh last (by simp)), hnext, if_pos rfl]
        rfl
      · intro p hp hne
        obtain ⟨c, hc, rfl⟩ := mem_map.mp hp
        refine next_alloc.trans ?_
        rw [if_neg (hfresh c (List.mem_append_left _ hc)), hnext, if_neg hne]
    · show q'.frontPtr = _
      rw [hfront, h.front]
      simp
    · simp
    · show q'.size + 1 = _
      rw [hsize']
      exact hsize

theorem length_cons_ne_zero (d : Nat × α) (ds : List (Nat × α)) :
    ¬ ((d :: ds).length : Int) = 0 := by
  rw [length_cons]
  omega

theorem Queue.Holds.dequeue (h : q.Holds (c :: cells)) :
    ∃ q', q.dequeue = some (some c.2, q') ∧ q'.Holds cells := by
  have hholds : q.Holds ([] ++ c :: cells) := h
  have hnode := hholds.node_at
  obtain ⟨-, hne⟩ := hholds.ne
  have hsize : q.size - 1 = (cells.length : Int) := by
    rw [h.size, length_cons]
    push_cast
    omega
  have hzero : q.size ≠ 0 := by omega
  have hfront : q.frontPtr = some c.1 := h.front
  refine ⟨_, by rw [Queue.dequeue, if_neg hzero, hfront]; simp only [bind_some, hnode]; rfl,
    (nodup_cons.mp h.nodup).2, ?_, ?_, ?_, ?_, hsize⟩
  · intro d hd
    refine value_free.trans ?_
    rw [if_neg (hne d hd)]
    exact h.values d (mem_cons_of_mem _ hd)
  · refine h.leads.2.congr fun p hp => next_free.trans (if_neg ?_)
    rintro rfl
    exact (nodup_cons.mp h.nodup).1 hp
  · show (if q.size - 1 = 0 then none else (cells.map (·.1)).head?) = _
    rw [hsize]
    cases cells with
    | nil => rfl
    | cons d ds => exact if_neg (length_cons_ne_zero d ds)
  · show (if q.size - 1 = 0 then none else q.backPtr) = _
    rw [hsize, h.back]
    cases cells with
    | nil => rfl
    | cons d ds =>
      rw [if_neg (length_cons_ne_zero d ds), map_cons, map_cons, List.getLast?_cons_cons]

/-! ## Removal -/

variable [DecidableEq α]

theorem search_absent (fuel : Nat) (prevPtr : Option Nat) (h : q.Chained cells)
    (hv : ∀ c ∈ cells, c.2 ≠ v) (hfuel : cells.length ≤ fuel) :
    q.search v fuel prevPtr (cells.map (·.1)).head? =
      some ((cells.map (·.1)).getLast?.or prevPtr, none, none) := by
  induction cells generalizing fuel prevPtr with
  | nil => cases fuel <;> rfl
  | cons c cells ih =>
    obtain ⟨fuel, rfl⟩ := Nat.exists_eq_add_of_lt hfuel
    have hsplit : q.Chained ([c] ++ cells) := h
    have htail : q.Chained cells := hsplit.append
    have hstep : q.search v (cells.length + fuel + 1) prevPtr (some c.1) =
        q.search v (cells.length + fuel) (some c.1) (cells.map (·.1)).head? := by
      rw [Queue.search, h.node, bind_some, if_neg (hv c mem_cons_self)]
    refine hstep.trans ((ih _ _ htail (fun d hd => hv d (mem_cons_of_mem _ hd))
      (Nat.le_add_right _ _)).trans ?_)
    cases cells with
    | nil => rfl
    | cons d ds => simp [getLast?_cons]

theorem search_found (fuel : Nat) (prevPtr : Option Nat) (h : q.Chained (as ++ c :: bs))
    (hv : ∀ d ∈ as, d.2 ≠ v) (hc : c.2 = v) (hfuel : as.length < fuel) :
    q.search v fuel prevPtr ((as ++ c :: bs).map (·.1)).head? =
      some ((as.map (·.1)).getLast?.or prevPtr, some c.1, (bs.map (·.1)).head?) := by
  induction as generalizing fuel prevPtr with
  | nil =>
    obtain ⟨fuel, rfl⟩ := Nat.exists_eq_add_of_lt hfuel
    show q.search v (0 + fuel + 1) prevPtr (some c.1) = _
    rw [Queue.search, Queue.Chained.node h, bind_some, if_pos hc]
    rfl
  | cons d as ih =>
    obtain ⟨fuel, rfl⟩ := Nat.exists_eq_add_of_lt hfuel
    have hsplit : q.Chained ([d] ++ (as ++ c :: bs)) := h
    have htail : q.Chained (as ++ c :: bs) := hsplit.append
    have hstep : q.search v ((d :: as).length + fuel + 1) prevPtr (some d.1) =
        q.search v ((d :: as).length + fuel) (some d.1) ((as ++ c :: bs).map (·.1)).head? := by
      rw [Queue.search, Queue.Chained.node h, bind_some, if_neg (hv d mem_cons_self)]
      rfl
    refine hstep.trans ((ih _ _ htail (fun e he => hv e (mem_cons_of_mem _ he))
      (by simp; omega)).trans ?_)
    cases as with
    | nil => rfl
    | cons e es => simp [getLast?_cons]

theorem Queue.Holds.remove_absent (h : q.Holds cells) (hv : ∀ c ∈ cells, c.2 ≠ v) :
    ∃ q', q.remove v = some q' ∧ q'.Holds cells := by
  have hsearch := search_absent q.size.toNat none h.chained hv (by rw [h.size]; simp)
  rw [← h.front, or_none, ← h.back] at hsearch
  refine ⟨_, by rw [Queue.remove, hsearch]; rfl, ?_⟩
  obtain ⟨hnext, hvalue, hsize, hfront, hback⟩ := reset_spec q q.backPtr none
  refine ⟨h.nodup, ?_, h.leads.congr fun p _ => hnext p, ?_, ?_, hsize.trans h.size⟩
  · intro c hc
    rw [hvalue]
    exact h.values c hc
  · rw [hfront, h.back, h.front, h.size]
    cases cells with
    | nil => rfl
    | cons c cells =>
      rw [if_neg (length_cons_ne_zero c cells)]
      simp
  · rw [hback, if_pos rfl, h.back, h.size]
    cases cells with
    | nil => rfl
    | cons c cells => rw [if_neg (length_cons_ne_zero c cells)]

theorem Queue.Holds.remove_found (h : q.Holds (as ++ c :: bs)) (hv : ∀ d ∈ as, d.2 ≠ v)
    (hc : c.2 = v) : ∃ q', q.remove v = some q' ∧ q'.Holds (as ++ bs) := by
  have hsize : q.size = as.length + bs.length + 1 := by
    rw [h.size, length_append, length_cons]
    push_cast
    omega
  have hsearch := search_found q.size.toNat none h.chained hv hc (by omega)
  rw [← h.front, or_none] at hsearch
  have hprev : ∀ p, (as.map (·.1)).getLast? = some p → q.node p ≠ none := by
    intro p hp
    obtain ⟨d, hd, rfl⟩ := mem_map.mp (List.mem_of_getLast? hp)
    exact h.allocated (List.mem_append_left _ hd)
  obtain ⟨q', hbypass, hnext, hvalue, hfront, hback, hsize'⟩ :=
    bypass_spec (r := (bs.map (·.1)).head?) hprev
  obtain ⟨hneA, hneB⟩ := h.ne
  have hne : ∀ d ∈ as ++ bs, d.1 ≠ c.1 := by
    intro d hd
    rcases mem_append.mp hd with hd | hd
    · exact hneA d hd
    · exact hneB d hd
  have hnodup := h.nodup
  have hleads := h.leads
  rw [map_append, map_cons] at hnodup hleads
  obtain ⟨hleadsA, -, hleadsB⟩ := leads_append.mp hleads
  obtain ⟨hnodupA, hnodupB, hdisj⟩ := nodup_append.mp hnodup
  have hcount : q'.size - 1 = ((as ++ bs).length : Int) := by
    rw [hsize', hsize, length_append]
    push_cast
    omega
  refine ⟨_, by rw [Queue.remove, hsearch]; simp only [bind_some, hbypass]; rfl, ?_⟩
  obtain ⟨hnext'', hvalue'', hsize'', hfront'', hback''⟩ := reset_spec
    { q'.free c.1 with size := q'.size - 1 } (as.map (·.1)).getLast? (bs.map (·.1)).head?
  refine ⟨?_, ?_, ?_, ?_, ?_, hsize''.trans hcount⟩
  · rw [map_append, nodup_append]
    exact ⟨hnodupA, (nodup_cons.mp hnodupB).2,
      fun p hp b hb => hdisj p hp b (mem_cons_of_mem _ hb)⟩
  · intro d hd
    rw [hvalue'']
    refine value_free.trans ?_
    rw [if_neg (hne d hd), hvalue]
    apply h.values d
    rcases mem_append.mp hd with hd | hd
    · exact List.mem_append_left _ hd
    · exact List.mem_append_right _ (mem_cons_of_mem _ hd)
  · have hnew : ∀ d ∈ as ++ bs, (Queue.reset { q'.free c.1 with size := q'.size - 1 }
        (as.map (·.1)).getLast? (bs.map (·.1)).head?).next d.1 =
          if (as.map (·.1)).getLast? = some d.1 then (bs.map (·.1)).head? else q.next d.1 := by
      intro d hd
      rw [hnext'']
      refine next_free.trans ?_
      rw [if_neg (hne d hd), hnext]
    rw [map_append, leads_append]
    constructor
    · rcases List.eq_nil_or_concat' as with rfl | ⟨init, last, rfl⟩
      · trivial
      · rw [map_append, List.map_singleton] at hleadsA hnodupA hnew ⊢
        refine leads_link hnodupA ?_ ?_ hleadsA
        · rw [hnew last (by simp), List.getLast?_concat, if_pos rfl, or_none]
        · intro p hp hlast
          obtain ⟨d, hd, rfl⟩ := mem_map.mp hp
          rw [hnew d (by simp [hd]), List.getLast?_concat, if_neg]
          exact fun heq => hlast (Option.some.inj heq).symm
    · refine hleadsB.congr fun p hp => ?_
      obtain ⟨d, hd, rfl⟩ := mem_map.mp hp
      rw [hnew d (List.mem_append_right _ hd), if_neg]
      intro hlast
      exact hdisj _ (List.mem_of_getLast? hlast) _ (mem_cons_of_mem _ hp) rfl
  · refine hfront''.trans ?_
    rw [show ({ q'.free c.1 with size := q'.size - 1 } : Queue α).size = _ from hcount]
    show (if _ then none else if _ then _ else q'.frontPtr) = _
    rw [hfront, h.front]
    cases as <;> cases bs <;> simp
    all_goals omega
  · refine hback''.trans ?_
    rw [show ({ q'.free c.1 with size := q'.size - 1 } : Queue α).size = _ from hcount]
    show (if _ then none else if _ then _ else q'.backPtr) = _
    rw [hback, h.back]
    cases as <;> cases bs <;> simp [List.getLast?_append, getLast?_cons]
    all_goals omega

end Holds

/-! ## Runs of calls -/

section Calls
variable {q : Queue α} {xs : List α} {v : α}

theorem Queue.Represents.enqueue (h : q.Represents xs) {a : Nat} (ha : q.node a = none) (v : α) :
    ∃ q', q.enqueue v a = some q' ∧ q'.Represents (xs ++ [v]) := by
  obtain ⟨cells, hcells, rfl⟩ := h
  obtain ⟨q', hq', hcells'⟩ := hcells.enqueue ha v
  exact ⟨q', hq', _, hcells', by simp⟩

theorem Queue.Represents.dequeue (h : q.Represents xs) :
    ∃ q', q.dequeue = some (xs.head?, q') ∧ q'.Represents (xs.drop 1) := by
  obtain ⟨cells, hcells, rfl⟩ := h
  cases cells with
  | nil => exact ⟨q, if_pos hcells.size, [], hcells, rfl⟩
  | cons c cells =>
    obtain ⟨q', hq', hcells'⟩ := hcells.dequeue
    exact ⟨q', hq', cells, hcells', rfl⟩

variable [DecidableEq α]

theorem Queue.Represents.remove (h : q.Represents xs) (v : α) :
    ∃ q', q.remove v = some q' ∧ q'.Represents (xs.erase v) := by
  obtain ⟨cells, hcells, rfl⟩ := h
  by_cases hv : v ∈ cells.map (·.2)
  · obtain ⟨us, ws, hsplit, hus⟩ := List.eq_append_cons_of_mem hv
    obtain ⟨as, rest, rfl, rfl, hrest⟩ := List.map_eq_append_iff.mp hsplit
    obtain ⟨c, bs, rfl, rfl, rfl⟩ := List.map_eq_cons_iff.mp hrest
    have hfirst : ∀ d ∈ as, d.2 ≠ c.2 := by
      intro d hd heq
      exact hus (heq ▸ mem_map_of_mem hd)
    obtain ⟨q', hq', hcells'⟩ := hcells.remove_found hfirst rfl
    refine ⟨q', hq', as ++ bs, hcells', ?_⟩
    rw [hsplit, List.erase_append_right _ hus, List.erase_cons_head, map_append]
  · have habsent : ∀ d ∈ cells, d.2 ≠ v := by
      rintro d hd rfl
      exact hv (mem_map_of_mem hd)
    obtain ⟨q', hq', hcells'⟩ := hcells.remove_absent habsent
    exact ⟨q', hq', cells, hcells', (List.erase_of_not_mem hv).symm⟩

theorem Queue.Represents.step (h : q.Represents xs) (call : Call α) (hfresh : Fresh q call) :
    ∃ q', step q call = some q' ∧ q'.Represents (apply xs call) := by
  cases call with
  | enqueue v a => exact h.enqueue hfresh v
  | dequeue =>
    obtain ⟨q', hq', hrep⟩ := h.dequeue
    exact ⟨q', by rw [NodeQueue.step, hq']; rfl, hrep⟩
  | remove v => exact h.remove v

theorem Queue.Represents.run (h : q.Represents xs) {calls : List (Call α)}
    (hfresh : Guarded NodeQueue.step Fresh q calls) :
    ∃ q', Lib.run NodeQueue.step q calls = some q' ∧ q'.Represents (calls.foldl apply xs) := by
  induction calls generalizing q xs with
  | nil => exact ⟨q, rfl, h⟩
  | cons call calls ih =>
    obtain ⟨q', hq', hrep⟩ := h.step call hfresh.1
    obtain ⟨t, ht, hlast⟩ := ih hrep (hfresh.2 q' hq')
    exact ⟨t, (run_cons hq').trans ht, hlast⟩

end Calls

/-! ## The queue without nodes -/

/-- The nodes are those of a queue of `LoaderLists` none of whose nodes was refused. -/
def Simulates (q : Queue Nat) (d : Dload.Queue) : Prop := q.Represents d.items ∧ d.Intact

theorem Simulates.enqueue {q : Queue Nat} {d : Dload.Queue} (h : Simulates q d) {a : Nat}
    (ha : q.node a = none) (v : Nat) :
    ∃ q', q.enqueue v a = some q' ∧ Simulates q' (d.enqueue v true) := by
  obtain ⟨q', hq', hrep⟩ := h.1.enqueue ha v
  obtain ⟨hintact, hitems⟩ := h.2.enqueue v
  exact ⟨q', hq', hitems ▸ hrep, hintact⟩

theorem Simulates.remove {q : Queue Nat} {d : Dload.Queue} (h : Simulates q d) {v : Nat}
    (hv : v ∈ d.items) : ∃ q', q.remove v = some q' ∧ Simulates q' (d.remove v) := by
  obtain ⟨q', hq', hrep⟩ := h.1.remove v
  obtain ⟨us, ws, hsplit, hus⟩ := List.eq_append_cons_of_mem hv
  obtain ⟨hintact, hitems⟩ := h.2.remove hsplit hus
  refine ⟨q', hq', ?_, hintact⟩
  rw [hsplit, List.erase_append_right _ hus, List.erase_cons_head] at hrep
  rwa [hitems]

end Omap4Hal.Elfload.NodeQueue
