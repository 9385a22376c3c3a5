import Mathlib.Data.List.Infix

/- The containers of the ELF loader: the queue of `Queue.h`, the stack of `Stack.h` and the array
   of `ArrayList.c`, as the loader sees them when the host has no memory for a node. A node that
   is not granted leaves a null pointer behind, and what follows depends on which one. -/
namespace Omap4Hal.Elfload.Dload

/-! ## The queue -/

/-- `Queue.h`: the values from `front_ptr` on. `attached`: `back_ptr` is not null. -/
structure Queue where
  items : List Nat := []
  attached : Bool := false
  size : Int := 0
  deriving DecidableEq, Repr

/-- Without a back pointer the new node becomes the front too, whatever the front was. -/
def Queue.enqueue (q : Queue) (v : Nat) (granted : Bool) : Queue where
  items :=
    if q.attached then if granted then q.items ++ [v] else q.items
    else if granted then [v] else []
  attached := granted
  size := q.size + 1

/-- Where the value is not found, or is the last one, the back pointer moves to the node before. -/
def Queue.remove (q : Queue) (v : Nat) : Queue :=
  let before := q.items.takeWhile (· ≠ v)
  let after := (q.items.dropWhile (· ≠ v)).drop 1
  let size := if v ∈ q.items then q.size - 1 else q.size
  if size = 0 then { items := [], attached := false, size := 0 }
  else { items := before ++ after
         attached := if after = [] then decide (before ≠ []) else q.attached
         size := size }

/-- A queue none of whose nodes was refused. -/
structure Queue.Intact (q : Queue) : Prop where
  size : q.size = q.items.length
  attached : q.attached = decide (q.items ≠ [])

theorem Queue.Intact.ext {q q' : Queue} (h : q.Intact) (h' : q'.Intact) (heq : q.items = q'.items) :
    q = q' := by
  have hsize := h.size
  have hattached := h.attached
  rw [heq, ← h'.size] at hsize
  rw [heq, ← h'.attached] at hattached
  obtain ⟨items, attached, size⟩ := q
  simp only at heq hsize hattached
  rw [heq, hsize, hattached]

theorem takeWhile_append_notMem {v : Nat} {xs : List Nat} (h : v ∉ xs) (ys : List Nat) :
    (xs ++ v :: ys).takeWhile (· ≠ v) = xs ∧
      ((xs ++ v :: ys).dropWhile (· ≠ v)).drop 1 = ys := by
  have hne : ∀ x ∈ xs, decide (x ≠ v) = true := fun x hx =>
    decide_eq_true fun heq => h (heq ▸ hx)
  constructor
  · rw [List.takeWhile_append_of_pos hne]
    simp
  · rw [List.dropWhile_append_of_pos hne]
    simp

theorem Queue.Intact.enqueue {q : Queue} (h : q.Intact) (v : Nat) :
    (q.enqueue v true).Intact ∧ (q.enqueue v true).items = q.items ++ [v] := by
  have hitems : (q.enqueue v true).items = q.items ++ [v] := by
    rw [Queue.enqueue]
    by_cases hnil : q.items = []
    · simp [h.attached, hnil]
    · simp [h.attached, hnil]
  refine ⟨⟨?_, ?_⟩, hitems⟩
  · rw [hitems, List.length_append, Queue.enqueue, h.size]
    simp
  · rw [hitems]
    simp [Queue.enqueue]

theorem Queue.Intact.remove {q : Queue} (h : q.Intact) {v : Nat} {xs ys : List Nat}
    (hitems : q.items = xs ++ v :: ys) (hv : v ∉ xs) :
    (q.remove v).Intact ∧ (q.remove v).items = xs ++ ys := by
  obtain ⟨htake, hdrop⟩ := takeWhile_append_notMem hv ys
  have hmem : v ∈ q.items := by simp [hitems]
  have hsize : q.size - 1 = ((xs ++ ys).length : Int) := by
    rw [h.size, hitems]
    simp
    omega
  rw [Queue.remove, if_pos hmem]
  by_cases hzero : q.size - 1 = 0
  · rw [if_pos hzero]
    have hnil : xs ++ ys = [] := by
      rw [hzero] at hsize
      exact List.length_eq_zero_iff.mp (by omega)
    exact ⟨⟨by simp, by simp⟩, hnil.symm⟩
  · rw [if_neg hzero]
    simp only [hitems, htake, hdrop]
    refine ⟨⟨hsize, ?_⟩, trivial⟩
    by_cases hys : ys = []
    · simp [hys]
    · simp [hys, h.attached, hitems]

/-! ## The stack -/

/-- `Stack.h`: the values from `top_ptr` on. `bottom` is what `bottom_ptr` points to; `some none`
is a node that has been freed. -/
structure Stack where
  items : List Nat := []
  bottom : Option (Option Nat) := none
  size : Int := 0
  deriving DecidableEq, Repr

def Stack.push (t : Stack) (v : Nat) (granted : Bool) : Stack :=
  if t.items = [] then
    if granted then { items := [v], bottom := some (some v), size := t.size + 1 }
    else { items := [], bottom := none, size := t.size + 1 }
  else { items := if granted then v :: t.items else [], bottom := t.bottom, size := t.size + 1 }

/-- An empty stack cannot be popped: the top is read first. -/
def Stack.pop (t : Stack) : Option (Nat × Stack) :=
  match t.items with
  | [] => none
  | v :: rest =>
    if t.size - 1 = 0 then some (v, { items := [], bottom := none, size := 0 })
    else some (v, { items := rest, bottom := if rest = [] then some none else t.bottom
                    size := t.size - 1 })

structure Stack.Intact (t : Stack) : Prop where
  size : t.size = t.items.length
  bottom : t.bottom = t.items.getLast?.map some

theorem Stack.Intact.push {t : Stack} (h : t.Intact) (v : Nat) :
    (t.push v true).Intact ∧ (t.push v true).items = v :: t.items := by
  unfold Stack.push
  split
  · next hnil =>
    refine ⟨⟨?_, rfl⟩, by simp [hnil]⟩
    simp [h.size, hnil]
  · next hne =>
    refine ⟨⟨?_, ?_⟩, rfl⟩
    · simp [h.size]
    · have hlast := List.getLast?_eq_some_getLast hne
      simp [h.bottom, List.getLast?_cons, hlast]

theorem Stack.Intact.pop {t : Stack} (h : t.Intact) {v : Nat} {rest : List Nat}
    (hitems : t.items = v :: rest) :
    ∃ t', t.pop = some (v, t') ∧ t'.Intact ∧ t'.items = rest := by
  have hsize : t.size - 1 = (rest.length : Int) := by
    rw [h.size, hitems]
    simp
  rw [Stack.pop, hitems]
  by_cases hzero : t.size - 1 = 0
  · rw [hzero] at hsize
    have hnil : rest = [] := List.length_eq_zero_iff.mp (by omega)
    exact ⟨_, if_pos hzero, ⟨rfl, rfl⟩, hnil.symm⟩
  · have hne : rest ≠ [] := by
      rintro rfl
      exact hzero hsize
    refine ⟨_, if_neg hzero, ⟨hsize, ?_⟩, rfl⟩
    simp only [if_neg hne, h.bottom, hitems]
    have hlast := List.getLast?_eq_some_getLast hne
    simp [List.getLast?_cons, hlast]

/-! ## The array -/

/-- `Array_List`: the first `size` elements of the buffer. `held`: the buffer is not null. -/
structure ArrayList where
  elems : List Nat := []
  bufferSize : Nat := 1
  held : Bool := true
  deriving DecidableEq, Repr

/-- `AL_append`. A buffer that cannot grow is lost. -/
def ArrayList.append (l : ArrayList) (x : Nat) (granted : Bool) : Option ArrayList :=
  if l.elems.length < l.bufferSize then
    if l.held then some { l with elems := l.elems ++ [x] } else none
  else if granted then
    if l.held then some { l with elems := l.elems ++ [x], bufferSize := 2 * l.bufferSize } else none
  else some { l with bufferSize := 2 * l.bufferSize, held := false }

/-- `size--` -/
def ArrayList.dropLast (l : ArrayList) : ArrayList := { l with elems := l.elems.dropLast }

theorem ArrayList.append_held {l : ArrayList} (h : l.held = true) (x : Nat) :
    ∃ l', l.append x true = some l' ∧ l'.held = true ∧ l'.elems = l.elems ++ [x] := by
  unfold ArrayList.append
  rw [if_pos h]
  split
  · exact ⟨_, rfl, h, rfl⟩
  · exact ⟨_, rfl, h, rfl⟩

end Omap4Hal.Elfload.Dload
