import Omap4Hal.Elfload.Loader
import Omap4Hal.Lib.Run

/- Loads that fail. `failed_load_restores_iff` says which of them leave the loader as it was: those
   that fail before the module is registered, and those that get no target memory for the segments
   of a module with a dynamic segment. Later failures leave the module's name in the list of modules
   being loaded, and a static executable that fails stays in the queue. -/
namespace Omap4Hal.Elfload.Dload

open Lib
open Option (bind_eq_bind bind_eq_some_iff map_eq_some_iff)

/-! ## The list of names only grows -/

/-- The list has grown, or its buffer has. -/
structure ArrayList.Grows (l l' : ArrayList) : Prop where
  buffer : l.bufferSize ≤ l'.bufferSize
  kept : l'.bufferSize = l.bufferSize → l.elems <+: l'.elems

/-- The list has grown from `x` on. -/
structure ArrayList.Appended (l : ArrayList) (x : Nat) (l' : ArrayList) : Prop where
  buffer : l.bufferSize ≤ l'.bufferSize
  kept : l'.bufferSize = l.bufferSize → l.elems ++ [x] <+: l'.elems

section List

variable {l l' l'' : ArrayList} {x : Nat}

theorem ArrayList.Grows.refl (l : ArrayList) : l.Grows l :=
  ⟨Nat.le_refl _, fun _ => List.prefix_rfl⟩

theorem ArrayList.Grows.trans (h : l.Grows l') (h' : l'.Grows l'') : l.Grows l'' := by
  have hle := h.buffer
  have hle' := h'.buffer
  refine ⟨by omega, ?_⟩
  intro heq
  exact (h.kept (by omega)).trans (h'.kept (by omega))

theorem ArrayList.Appended.grows (h : l.Appended x l') (h' : l'.Grows l'') : l.Appended x l'' := by
  have hle := h.buffer
  have hle' := h'.buffer
  refine ⟨by omega, ?_⟩
  intro heq
  exact (h.kept (by omega)).trans (h'.kept (by omega))

theorem ArrayList.append_appended {granted : Bool} (hpos : 0 < l.bufferSize)
    (h : l.append x granted = some l') : l.Appended x l' := by
  unfold ArrayList.append at h
  split at h
  · split at h
    · cases h
      exact ⟨Nat.le_refl _, fun _ => List.prefix_rfl⟩
    · cases h
  · split at h
    · split at h
      · cases h
        exact ⟨by simp only; omega, fun heq => by simp only at heq; omega⟩
      · cases h
    · cases h
      exact ⟨by simp only; omega, fun heq => by simp only at heq; omega⟩

theorem ArrayList.Appended.toGrows (h : l.Appended x l') : l.Grows l' :=
  ⟨h.buffer, fun heq => (List.prefix_append _ _).trans (h.kept heq)⟩

theorem ArrayList.Appended.dropLast (h : l.Appended x l') : l.Grows l'.dropLast := by
  refine ⟨h.buffer, ?_⟩
  intro heq
  obtain ⟨rest, hrest⟩ := h.kept heq
  show l.elems <+: l'.elems.dropLast
  rw [← hrest, List.append_assoc, List.dropLast_append_of_ne_nil (by simp)]
  exact List.prefix_append _ _

theorem ArrayList.Appended.ne (h : l.Appended x l') : l' ≠ l := by
  rintro rfl
  have hle := (h.kept rfl).length_le
  rw [List.length_append] at hle
  exact absurd hle (by simp)

end List

/-! ## The queue in any run -/

/-- What is true of the queue even after nodes have been refused; `n` is the number of the next
module. -/
structure Queue.Sane (q : Queue) (n : Nat) : Prop where
  below : ∀ i ∈ q.items, i < n
  size : (q.items.length : Int) ≤ q.size
  attached : q.attached = true → q.items ≠ []

section Queue

variable {q : Queue} {n : Nat}

theorem Queue.Sane.enqueue (h : q.Sane n) (granted : Bool) :
    (q.enqueue n granted).Sane (n + 1) := by
  have hsize := h.size
  refine ⟨?_, ?_, ?_⟩
  · intro i hi
    have hcase : i ∈ q.items ∨ i = n := by
      unfold Queue.enqueue at hi
      simp only at hi
      split at hi <;> split at hi
      · simpa using hi
      · exact .inl hi
      · exact .inr (by simpa using hi)
      · cases hi
    rcases hcase with hi | rfl
    · exact Nat.lt_succ_of_lt (h.below i hi)
    · exact Nat.lt_succ_self i
  · unfold Queue.enqueue
    split <;> split <;> simp <;> omega
  · intro hattached
    obtain rfl : granted = true := hattached
    unfold Queue.enqueue
    split <;> simp

theorem Queue.remove_cases (q : Queue) (v : Nat) :
    (∃ xs ys, q.items = xs ++ v :: ys ∧ v ∉ xs ∧ ((q.size - 1 = 0 ∧ q.remove v = {}) ∨
      (q.size - 1 ≠ 0 ∧ q.remove v =
        ⟨xs ++ ys, if ys = [] then decide (xs ≠ []) else q.attached, q.size - 1⟩))) ∨
    (v ∉ q.items ∧ ((q.size = 0 ∧ q.remove v = {}) ∨
      (q.size ≠ 0 ∧ q.remove v = ⟨q.items, decide (q.items ≠ []), q.size⟩))) := by
  by_cases hv : v ∈ q.items
  · obtain ⟨xs, ys, hitems, hxs⟩ := List.eq_append_cons_of_mem hv
    obtain ⟨htake, hdrop⟩ := takeWhile_append_notMem hxs ys
    refine .inl ⟨xs, ys, hitems, hxs, ?_⟩
    rw [Queue.remove, if_pos hv]
    by_cases hzero : q.size - 1 = 0
    · exact .inl ⟨hzero, if_pos hzero⟩
    · right
      rw [if_neg hzero]
      simp only [hitems, htake, hdrop]
      exact ⟨hzero, trivial⟩
  · right
    have hne : ∀ x ∈ q.items, decide (x ≠ v) = true := fun x hx =>
      decide_eq_true fun heq => hv (heq ▸ hx)
    have htake : q.items.takeWhile (· ≠ v) = q.items := by
      have happ : (q.items ++ []).takeWhile (· ≠ v) = q.items ++ [].takeWhile (· ≠ v) :=
        List.takeWhile_append_of_pos hne
      simpa using happ
    have hdrop : q.items.dropWhile (· ≠ v) = [] := by
      have happ : (q.items ++ []).dropWhile (· ≠ v) = [].dropWhile (· ≠ v) :=
        List.dropWhile_append_of_pos hne
      simpa using happ
    refine ⟨hv, ?_⟩
    rw [Queue.remove, if_neg hv]
    by_cases hzero : q.size = 0
    · exact .inl ⟨hzero, if_pos hzero⟩
    · right
      rw [if_neg hzero]
      simp only [htake, hdrop, List.drop_nil, List.append_nil, if_true]
      exact ⟨hzero, trivial⟩

theorem Queue.sane_nil (n : Nat) : Queue.Sane {} n := by
  refine ⟨?_, Int.le_refl 0, ?_⟩
  · intro i hi
    cases hi
  · intro h
    cases h

theorem Queue.Sane.remove (h : q.Sane n) (v : Nat) :
    (q.remove v).Sane n ∧ q.size - 1 ≤ (q.remove v).size := by
  have hsize := h.size
  rcases q.remove_cases v with ⟨xs, ys, hitems, -, hcase⟩ | ⟨-, hcase⟩
  · rcases hcase with ⟨hzero, heq⟩ | ⟨-, heq⟩
    · rw [heq]
      exact ⟨Queue.sane_nil n, Int.le_of_eq hzero⟩
    · rw [heq]
      rw [hitems] at hsize
      refine ⟨⟨?_, ?_, ?_⟩, Int.le_refl _⟩
      · intro i hi
        have hmem : i ∈ q.items := by
          rw [hitems]
          simp only [List.mem_append, List.mem_cons] at hi ⊢
          tauto
        exact h.below i hmem
      · simp at hsize ⊢
        omega
      · simp only
        split
        · next hys =>
          intro hxs
          simpa [hys] using hxs
        · next hys => simp [hys]
  · rcases hcase with ⟨hzero, heq⟩ | ⟨-, heq⟩
    · rw [heq]
      exact ⟨Queue.sane_nil n, by simp [hzero]⟩
    · rw [heq]
      exact ⟨⟨h.below, hsize, by simp⟩, by simp only; omega⟩

theorem Queue.Sane.enqueue_remove_iff (h : q.Sane n) (granted : Bool) :
    (q.enqueue n granted).remove n = q ↔ granted = true ∧ (q.items ≠ [] → q.attached = true) := by
  have hsize := h.size
  have hnot : n ∉ q.items := fun hn => Nat.lt_irrefl _ (h.below n hn)
  cases granted with
  | false =>
    refine ⟨?_, fun hgranted => by cases hgranted.1⟩
    intro heq
    -- the size has been counted up
    have hcount := congrArg Queue.size heq
    rcases (q.enqueue n false).remove_cases n with ⟨xs, ys, hitems, -, -⟩ | ⟨-, hcase⟩
    · have hmem : n ∈ (q.enqueue n false).items := by simp [hitems]
      unfold Queue.enqueue at hmem
      simp only at hmem
      split at hmem <;> simp at hmem
      exact absurd hmem hnot
    · have hone : (q.enqueue n false).size = q.size + 1 := rfl
      rcases hcase with ⟨hzero, -⟩ | ⟨-, hremove⟩
      · omega
      · rw [hremove] at hcount
        simp only at hcount
        omega
  | true =>
    by_cases hattached : q.attached = true
    · simp only [hattached, implies_true, and_true, iff_true]
      have hne := h.attached hattached
      have hitems : (q.enqueue n true).items = q.items ++ n :: [] := by
        simp [Queue.enqueue, hattached]
      rcases (q.enqueue n true).remove_cases n with ⟨xs, ys, hsplit, hxs, hcase⟩ | ⟨hno, -⟩
      · obtain ⟨rfl, rfl⟩ : xs = q.items ∧ ys = [] := by
          obtain ⟨htake, hdrop⟩ := takeWhile_append_notMem hxs ys
          obtain ⟨htake', hdrop'⟩ := takeWhile_append_notMem hnot []
          rw [← hsplit, hitems] at htake hdrop
          exact ⟨htake.symm.trans htake', hdrop.symm.trans hdrop'⟩
        have hone : (q.enqueue n true).size - 1 = q.size := by simp [Queue.enqueue]
        have hpos := List.length_pos_iff.mpr hne
        rcases hcase with ⟨hzero, -⟩ | ⟨-, hremove⟩
        · omega
        · rw [hremove, hone]
          obtain ⟨items, attached, size⟩ := q
          simp only at hne hattached ⊢
          simp [hne, hattached]
      · exact absurd (by simp [hitems]) hno
    · have hitems : (q.enqueue n true).items = [] ++ n :: [] := by
        simp [Queue.enqueue, hattached]
      have hremoved : (q.enqueue n true).remove n = ⟨[], false, q.size⟩ := by
        rcases (q.enqueue n true).remove_cases n with ⟨xs, ys, hsplit, hxs, hcase⟩ | ⟨hno, -⟩
        · obtain ⟨rfl, rfl⟩ : xs = [] ∧ ys = [] := by
            obtain ⟨htake, hdrop⟩ := takeWhile_append_notMem hxs ys
            obtain ⟨htake', hdrop'⟩ := takeWhile_append_notMem (List.not_mem_nil (a := n)) []
            rw [← hsplit, hitems] at htake hdrop
            exact ⟨htake.symm.trans htake', hdrop.symm.trans hdrop'⟩
          have hone : (q.enqueue n true).size - 1 = q.size := by simp [Queue.enqueue]
          rcases hcase with ⟨hzero, hremove⟩ | ⟨-, hremove⟩
          · rw [hremove, ← hone, hzero]
          · rw [hremove, hone]
            simp
        · exact absurd (by simp [hitems]) hno
      rw [hremoved]
      have hfalse : q.attached = false := by simpa using hattached
      obtain ⟨items, attached, size⟩ := q
      simp only at hfalse
      simp [hfalse, eq_comm]

end Queue

/-! ## Loads and unloads in any run -/

/-- What is true of the loader even after failures. -/
structure Sane (s : Loader) : Prop where
  queue : s.loadedObjects.Sane s.fileHandle
  buffer : 0 < s.moduleDependencyList.bufferSize

/-- What a load leaves behind: no queue is shorter than before, and no list of names. -/
structure Grown (s s' : Loader) : Prop where
  sane : Sane s'
  size : s.loadedObjects.size ≤ s'.loadedObjects.size
  list : s.moduleDependencyList.Grows s'.moduleDependencyList

variable {s s' : Loader}

theorem Sane.grown (h : Sane s) : Grown s s := ⟨h, Int.le_refl _, .refl _⟩

theorem Grown.trans {s'' : Loader} (h : Grown s s') (h' : Grown s' s'') : Grown s s'' :=
  ⟨h'.sane, Int.le_trans h.size h'.size, h.list.trans h'.list⟩

/-- The queue, the list of names and the counter are as they were. -/
structure SameLists (s s' : Loader) : Prop where
  queue : s'.loadedObjects = s.loadedObjects
  list : s'.moduleDependencyList = s.moduleDependencyList
  counter : s'.fileHandle = s.fileHandle

theorem SameLists.sane (h : SameLists s s') (hs : Sane s) : Sane s' := by
  obtain ⟨hqueue, hlist, hcounter⟩ := h
  refine ⟨?_, ?_⟩
  · rw [hqueue, hcounter]
    exact hs.queue
  · rw [hlist]
    exact hs.buffer

theorem SameLists.grown (h : SameLists s s') (hs : Sane s) : Grown s s' := by
  refine ⟨h.sane hs, ?_, ?_⟩
  · exact Int.le_of_eq (congrArg Queue.size h.queue.symm)
  · rw [h.list]
    exact .refl _

theorem listDependency_same {i handle : Nat} {granted : Bool}
    (h : s.listDependency i handle granted = some s') : SameLists s s' := by
  simp only [Loader.listDependency, bind_eq_bind, bind_eq_some_iff] at h
  obtain ⟨m, -, deps, -, h⟩ := h
  cases h
  exact ⟨rfl, rfl, rfl⟩

theorem finish_same (s : Loader) (i : Nat) : SameLists s (s.finish i).2 := by
  unfold Loader.finish
  simp only
  split
  · exact ⟨rfl, rfl, rfl⟩
  · exact ⟨rfl, rfl, rfl⟩

theorem relocateAll_same {n : Nat} (h : relocateAll n s = some s') :
    SameLists s s' := by
  induction n generalizing s with
  | zero =>
    cases h
    exact ⟨rfl, rfl, rfl⟩
  | succ n ih =>
    simp only [relocateAll, bind_eq_bind, bind_eq_some_iff] at h
    obtain ⟨⟨i, stack⟩, -, -, -, -, -, h⟩ := h
    obtain ⟨hqueue, hlist, hcounter⟩ := ih h
    exact ⟨hqueue, hlist, hcounter⟩

theorem relocate_same {i h : Nat} (hload : relocateDependencyGraphModules s i = some (h, s')) :
    SameLists s s' := by
  have hfinish : ∀ {t : Loader}, SameLists s t → t.finish i = (h, s') → SameLists s s' := by
    intro t ht heq
    have hsame := finish_same t i
    rw [heq] at hsame
    exact ⟨hsame.queue.trans ht.queue, hsame.list.trans ht.list, hsame.counter.trans ht.counter⟩
  have hall : (relocateAll s.dependencyStack.size.toNat s).map (fun s => s.finish i) =
      some (h, s') → SameLists s s' := by
    intro heq
    obtain ⟨t, ht, heq⟩ := map_eq_some_iff.mp heq
    exact hfinish (relocateAll_same ht) heq
  unfold relocateDependencyGraphModules at hload
  split at hload
  · cases hload
  · split at hload
    · exact hfinish ⟨rfl, rfl, rfl⟩ (Option.some.inj hload)
    · exact hall hload
  · exact hall hload

theorem Sane.register (h : Sane s) (a : Attempt) :
    Sane (s.register a) ∧ (s.register a).loadedObjects.size = s.loadedObjects.size + 1 :=
  ⟨⟨h.queue.enqueue a.queueNode, h.buffer⟩, rfl⟩

theorem Sane.abandon (h : Sane s) (i : Nat) :
    Sane (s.abandon i) ∧ s.loadedObjects.size - 1 ≤ (s.abandon i).loadedObjects.size :=
  ⟨⟨(h.queue.remove i).1, h.buffer⟩, (h.queue.remove i).2⟩

theorem giveUp_spec {i h : Nat} (hs : Sane s) (hup : s.giveUp i = some (h, s')) :
    h = 0 ∧ Sane s' ∧ s.loadedObjects.size - 1 ≤ s'.loadedObjects.size ∧
      s'.moduleDependencyList = s.moduleDependencyList := by
  simp only [Loader.giveUp, bind_eq_bind, bind_eq_some_iff] at hup
  obtain ⟨⟨v, stack⟩, -, hup⟩ := hup
  cases Option.some.inj hup
  have hsane : Sane { s with dependencyStack := stack } := ⟨hs.queue, hs.buffer⟩
  obtain ⟨hsane', hsize⟩ := hsane.abandon i
  exact ⟨rfl, hsane', hsize, rfl⟩

section Load

variable {load : Loader → Attempt → Option (Nat × Loader)} {disk : Disk}
  (hload : ∀ s a h s', Sane s → load s a = some (h, s') → Grown s s')
include hload

variable {s s' : Loader}

theorem loadDependent_grown {name : String} {h : Nat} (hs : Sane s)
    (hdep : dlifLoadDependent load disk s name = some (h, s')) : Grown s s' := by
  have hopened : Sane { s with opened := s.opened + 1 } := ⟨hs.queue, hs.buffer⟩
  unfold dlifLoadDependent at hdep
  split at hdep
  · cases Option.some.inj hdep
    exact SameLists.grown ⟨rfl, rfl, rfl⟩ hs
  · have hgrown := hload _ _ _ _ hopened hdep
    exact ⟨hgrown.sane, hgrown.size, hgrown.list⟩

theorem dependencies_grown {i : Nat} {needed : List Needed} {ok : Bool} (hs : Sane s)
    (hdeps : dloadAndAllocateDependencies load disk i needed s = some (ok, s')) :
    Grown s s' := by
  induction needed generalizing s with
  | nil =>
    cases Option.some.inj hdeps
    exact hs.grown
  | cons n rest ih =>
    simp only [dloadAndAllocateDependencies, bind_eq_bind, bind_eq_some_iff] at hdeps
    obtain ⟨found, -, hdeps⟩ := hdeps
    cases found with
    | some j =>
      simp only [bind_eq_some_iff] at hdeps
      obtain ⟨m, -, t, ht, hrest⟩ := hdeps
      have hsame := listDependency_same ht
      have hst : SameLists s t := ⟨hsame.queue, hsame.list, hsame.counter⟩
      exact (hst.grown hs).trans (ih (hst.sane hs) hrest)
    | none =>
      simp only [bind_eq_some_iff] at hdeps
      obtain ⟨⟨h, t⟩, ht, u, hu, hrest⟩ := hdeps
      have hgrown := loadDependent_grown hload hs ht
      have hsame := listDependency_same hu
      have hsu := hgrown.trans (hsame.grown hgrown.sane)
      split at hrest
      · cases Option.some.inj hrest
        exact hsu
      · exact hsu.trans (ih hsu.sane hrest)

theorem dependents_grown {i h : Nat} {a : Attempt} (hs : Sane s)
    (hdeps : dloadDependents load disk s i a = some (h, s')) :
    Sane s' ∧ s.moduleDependencyList.Grows s'.moduleDependencyList ∧
      s.loadedObjects.size - 1 ≤ s'.loadedObjects.size ∧
      ((h = 0 ∧ s.moduleDependencyList.Appended i s'.moduleDependencyList) ∨
        s.loadedObjects.size ≤ s'.loadedObjects.size) := by
  simp only [dloadDependents, bind_eq_bind, bind_eq_some_iff] at hdeps
  obtain ⟨list, hlist, hdeps⟩ := hdeps
  have happ := ArrayList.append_appended hs.buffer hlist
  have hpushed : Sane { s with
      moduleDependencyList := list
      dependencyStack := s.dependencyStack.push i a.stackNode } :=
    ⟨hs.queue, Nat.lt_of_lt_of_le hs.buffer happ.buffer⟩
  split at hdeps
  · obtain ⟨rfl, hsane, hsize, hsame⟩ := giveUp_spec hpushed hdeps
    rw [hsame]
    exact ⟨hsane, happ.toGrows, hsize, .inl ⟨rfl, happ⟩⟩
  · simp only [bind_eq_some_iff] at hdeps
    obtain ⟨⟨ok, t⟩, ht, hdeps⟩ := hdeps
    have hgrown := dependencies_grown hload hpushed ht
    have htlist := happ.grows hgrown.list
    have htsize : s.loadedObjects.size ≤ t.loadedObjects.size := hgrown.size
    simp only at hdeps
    split at hdeps
    · obtain ⟨hqueue, hsame, hcounter⟩ := relocate_same hdeps
      have hsane : Sane s' := SameLists.sane (s := { t with
        moduleDependencyList := t.moduleDependencyList.dropLast }) ⟨hqueue, hsame, hcounter⟩
          ⟨hgrown.sane.queue, hgrown.sane.buffer⟩
      rw [hsame, hqueue]
      exact ⟨hsane, htlist.dropLast, by simp only; omega, .inr htsize⟩
    · obtain ⟨rfl, hsane, hsize, hsame⟩ := giveUp_spec hgrown.sane hdeps
      rw [hsame]
      exact ⟨hsane, htlist.toGrows, by omega, .inl ⟨rfl, htlist⟩⟩

end Load

theorem load_grown {disk : Disk} {k : Nat} {a : Attempt} {h : Nat} (hs : Sane s)
    (hload : dloadLoad disk k s a = some (h, s')) : Grown s s' := by
  induction k generalizing s s' a h with
  | zero => cases hload
  | succ k ih =>
    obtain ⟨hreg, hcount⟩ := hs.register a
    unfold dloadLoad at hload
    split at hload
    · cases hload
    · cases Option.some.inj hload
      exact hs.grown
    · split at hload
      · cases hload
      split at hload
      · have hsame : SameLists (s.register a) s' := by
          have hpair := Option.some.inj hload
          unfold dloadStaticExecutable at hpair
          split at hpair
          · have hfinish := finish_same ((s.register a).detach s.fileHandle) s.fileHandle
            rw [hpair] at hfinish
            exact ⟨hfinish.queue, hfinish.list, hfinish.counter⟩
          · cases hpair
            exact ⟨rfl, rfl, rfl⟩
        refine ⟨hsame.sane hreg, ?_, ?_⟩
        · rw [hsame.queue, hcount]
          omega
        · rw [hsame.list]
          exact .refl _
      split at hload
      · cases Option.some.inj hload
        obtain ⟨hsane, hsize⟩ := hreg.abandon s.fileHandle
        exact ⟨hsane, by omega, .refl _⟩
      · obtain ⟨hsane, hlist, hsize, -⟩ :=
          dependents_grown (fun t b h t' ht hb => ih ht hb) hreg hload
        exact ⟨hsane, by omega, hlist⟩

section Unload

variable {unload : Loader → Nat → Option (Bool × Loader)}
  (hunload : ∀ s h ok s', Sane s → unload s h = some (ok, s') → Sane s')
include hunload

theorem unloadDependents_sane {hs : List Nat} {s s' : Loader} (h : Sane s)
    (hdeps : unloadDependents unload hs s = some s') : Sane s' := by
  induction hs generalizing s with
  | nil =>
    cases hdeps
    exact h
  | cons x rest ih =>
    simp only [unloadDependents, bind_eq_bind, bind_eq_some_iff] at hdeps
    obtain ⟨⟨ok, t⟩, ht, hrest⟩ := hdeps
    exact ih (hunload s x ok t h ht) hrest

theorem unloadFrom_sane {handle : Nat} {items : List Nat} {s s' : Loader} {ok : Bool} (h : Sane s)
    (hfrom : unloadFrom unload handle items s = some (ok, s')) : Sane s' := by
  induction items generalizing s with
  | nil =>
    cases Option.some.inj hfrom
    exact h
  | cons i is ih =>
    simp only [unloadFrom, bind_eq_bind, bind_eq_some_iff] at hfrom
    obtain ⟨m, -, hfrom⟩ := hfrom
    have hset : Sane (s.setLoaded i { m with useCount := m.useCount - 1 }) := ⟨h.queue, h.buffer⟩
    split at hfrom
    · split at hfrom
      · split at hfrom
        · cases hfrom
        · simp only [bind_eq_some_iff] at hfrom
          obtain ⟨t, ht, u, hu, hfrom⟩ := hfrom
          cases Option.some.inj hfrom
          have hsane := unloadDependents_sane hunload hset ht
          unfold removeLoadedModule at hu
          split at hu
          · cases hu
            exact ⟨(hsane.queue.remove i).1, hsane.buffer⟩
          · cases hu
      · exact ih hset hfrom
    · exact ih h hfrom

end Unload

theorem unload_sane {k : Nat} {handle : Nat} {ok : Bool} (h : Sane s)
    (hunload : dloadUnload k s handle = some (ok, s')) : Sane s' := by
  induction k generalizing s s' handle ok with
  | zero => cases hunload
  | succ k ih => exact unloadFrom_sane (fun t x ok t' ht hx => ih ht hx) h hunload

theorem create_sane (granted : Bool) : Sane (dloadCreate granted) :=
  ⟨Queue.sane_nil 1, Nat.one_pos⟩

theorem clientStep_sane {c c' : Client} {call : ClientCall} (h : Sane c.loader)
    (hstep : clientStep c call = some c') : Sane c'.loader := by
  cases call with
  | load a disk depth =>
    obtain ⟨⟨x, s⟩, hs, rfl⟩ := map_eq_some_iff.mp hstep
    exact (load_grown h hs).sane
  | unload handle =>
    obtain ⟨⟨x, s⟩, hs, rfl⟩ := map_eq_some_iff.mp hstep
    exact unload_sane h hs

/-! ## Failed loads -/

/-- The stack, the list of names, the queue and the use counts of the modules in it are as they
were. -/
structure Unchanged (s s' : Loader) : Prop where
  stack : s'.dependencyStack = s.dependencyStack
  list : s'.moduleDependencyList = s.moduleDependencyList
  queue : s'.loadedObjects = s.loadedObjects
  counts : ∀ i ∈ s.loadedObjects.items,
    (s'.loaded i).map LoadedModule.useCount = (s.loaded i).map LoadedModule.useCount

/-- The load fails before the module is registered, or else when the segments of a relocatable
module are allocated, with the module entered in a queue that has its back pointer. -/
def FailsEarly (s : Loader) (a : Attempt) : Prop :=
  accepts s a = some false ∨
    (a.relocatable = true ∧ a.segments = false ∧ a.queueNode = true ∧
      (s.loadedObjects.items ≠ [] → s.loadedObjects.attached = true))

theorem segments_refused_iff (hs : Sane s) (a : Attempt) :
    Unchanged s ((s.register a).abandon s.fileHandle) ↔
      a.queueNode = true ∧ (s.loadedObjects.items ≠ [] → s.loadedObjects.attached = true) := by
  rw [← hs.queue.enqueue_remove_iff a.queueNode]
  constructor
  · intro h
    exact h.queue
  · intro h
    refine ⟨rfl, rfl, h, ?_⟩
    intro i hi
    have hne : i ≠ s.fileHandle := Nat.ne_of_lt (hs.queue.below i hi)
    simp [Loader.abandon, Loader.deleteLoaded, Loader.detach, Loader.register,
      Function.update_of_ne hne]

/-- A load that fails later, or a module whose handle is 0, leaves a trace. -/
theorem not_unchanged (disk : Disk) (k : Nat) {a : Attempt} (hs : Sane s)
    (hload : (if a.relocatable = false then
      some (dloadStaticExecutable (s.register a) s.fileHandle a)
      else dloadDependents (dloadLoad disk k) disk (s.register a) s.fileHandle a) = some (0, s'))
    :
    ¬ Unchanged s s' := by
  intro h
  obtain ⟨hreg, hcount⟩ := hs.register a
  split at hload
  · have hqueue : s'.loadedObjects = (s.register a).loadedObjects := by
      have hpair := Option.some.inj hload
      unfold dloadStaticExecutable at hpair
      split at hpair
      · have hsame := finish_same ((s.register a).detach s.fileHandle) s.fileHandle
        rw [hpair] at hsame
        exact hsame.queue
      · cases hpair
        rfl
    rw [h.queue] at hqueue
    rw [← hqueue] at hcount
    omega
  · obtain ⟨-, -, -, hcase⟩ :=
      dependents_grown (fun t b x t' ht hb => load_grown ht hb) hreg hload
    rcases hcase with ⟨-, happ⟩ | hsize
    · exact happ.ne h.list
    · rw [h.queue] at hsize
      omega

/-- A load that returns 0 leaves the loader as it was if it fails early, and otherwise not. -/
theorem failed_load_restores_iff (granted : Bool) (calls : List ClientCall) (c : Client)
    (hrun : run clientStep ⟨dloadCreate granted, []⟩ calls = some c) (disk : Disk) (depth : Nat)
    (a : Attempt) (s' : Loader) (hfail : dloadLoad disk depth c.loader a = some (0, s')) :
    Unchanged c.loader s' ↔ FailsEarly c.loader a := by
  have hs : Sane c.loader := run_induct (I := fun c => Sane c.loader)
    (fun _ _ _ h hstep => clientStep_sane h hstep) (create_sane granted) hrun
  cases depth with
  | zero => cases hfail
  | succ k =>
    unfold dloadLoad at hfail
    split at hfail
    · cases hfail
    · next hrefused =>
      cases Option.some.inj hfail
      exact ⟨fun _ => .inl hrefused, fun _ => ⟨rfl, rfl, rfl, fun _ _ => rfl⟩⟩
    · next haccepted =>
      have hnot : accepts c.loader a ≠ some false := by simp [haccepted]
      split at hfail
      · cases hfail
      by_cases hreloc : a.relocatable = false
      · rw [if_pos hreloc] at hfail
        have hno := not_unchanged disk k hs (by rwa [if_pos hreloc])
        refine ⟨fun h => absurd h hno, ?_⟩
        rintro (hrefused | ⟨hreloc', -⟩)
        · exact absurd hrefused hnot
        · simp [hreloc] at hreloc'
      by_cases hseg : a.segments = false
      · rw [if_neg hreloc, if_pos hseg] at hfail
        cases Option.some.inj hfail
        rw [segments_refused_iff hs]
        constructor
        · intro h
          exact .inr ⟨by simpa using hreloc, hseg, h⟩
        · rintro (hrefused | ⟨-, -, h⟩)
          · exact absurd hrefused hnot
          · exact h
      · rw [if_neg hreloc, if_neg hseg] at hfail
        have hno := not_unchanged disk k hs (by rwa [if_neg hreloc])
        refine ⟨fun h => absurd h hno, ?_⟩
        rintro (hrefused | ⟨-, hseg', -⟩)
        · exact absurd hrefused hnot
        · exact absurd hseg' hseg

/-- A library is loaded; another file gets no target memory. -/
theorem failed_load_restores_segments :
    ∃ c s', run clientStep ⟨dloadCreate true, []⟩ [.load { soname := "a.so" } (fun _ _ => none) 0] =
        some c ∧
      dloadLoad (fun _ _ => none) 1 c.loader { soname := "b.so", segments := false } =
        some (0, s') ∧ Unchanged c.loader s' := by
  refine ⟨_, _, rfl, rfl, ?_⟩
  refine (failed_load_restores_iff true [.load { soname := "a.so" } (fun _ _ => none) 0] _ rfl
    (fun _ _ => none) 1 { soname := "b.so", segments := false } _ rfl).mpr (.inr ?_)
  exact ⟨rfl, rfl, rfl, fun _ => rfl⟩

/-- A file whose dependent is missing: its name, which has been freed, stays in the list, and the
next load reads it. -/
theorem failed_load_not_restored :
    ∃ s', dloadLoad (fun _ _ => none) 1 (dloadCreate true)
        { soname := "p.so", needed := [⟨"a.so", true⟩] } = some (0, s') ∧
      s'.moduleDependencyList.elems = [1] ∧ s'.dyn 1 = none ∧ ¬ Unchanged (dloadCreate true) s' ∧
      dloadLoad (fun _ _ => none) 1 s' { soname := "p.so", needed := [⟨"a.so", true⟩] } = none := by
  refine ⟨_, rfl, rfl, rfl, ?_, rfl⟩
  intro h
  have hlist := congrArg ArrayList.elems h.list
  cases hlist

end Omap4Hal.Elfload.Dload
