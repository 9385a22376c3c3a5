import Mathlib.Data.List.Nodup

/- A waiting line with its history. Names are put in at one end and leave at the other:
   evicted, because the line has become too long, or flushed; a name may also be pulled
   out of the middle. Every put has a number, the ticket of the name until it leaves.

   `Line.Ok` is the invariant that ties the history to the names now waiting. What it
   says of the departures is `Lawful`: with room for `cap` names, a name is evicted after
   `cap` further puts, one more for each later name that has been pulled out before it,
   and the names that are not pulled leave in the order in which they were put in. -/
namespace Omap4Hal.Lib

open Function (update)
open List (append_nil mem_append mem_cons mem_singleton)

inductive Way where
  | evicted
  | pulled
  | flushed
  deriving DecidableEq

/-- A name that has left, with its ticket and the number of puts up to then. -/
structure Departure (α β : Type) where
  name : α
  ticket : Nat
  puts : Nat
  way : Way
  info : β

structure Line (α β : Type) where
  puts : List α := []
  ticket : α → Nat := fun _ => 0
  left : List (Departure α β) := []

variable {α β : Type}

def Line.put [DecidableEq α] (q : Line α β) (x : α) : Line α β :=
  { q with puts := q.puts ++ [x], ticket := update q.ticket x q.puts.length }

def Line.leave (q : Line α β) (way : Way) (x : α) (info : β) : Line α β :=
  { q with left := q.left ++ [⟨x, q.ticket x, q.puts.length, way, info⟩] }

/-- How many names with a later ticket have been pulled out. -/
def pulledSince (left : List (Departure α β)) (n : Nat) : Nat :=
  left.countP fun d => d.way = .pulled ∧ n < d.ticket

/-- What holds of the departures from a line with room for `cap` names. -/
structure Lawful (cap : Nat) (puts : List α) (left : List (Departure α β)) : Prop where
  named : ∀ d ∈ left, puts[d.ticket]? = some d.name
  once : left.Pairwise fun d e => d.ticket ≠ e.ticket
  timed : ∀ ds d es, left = ds ++ d :: es → d.way = .evicted →
    d.puts = d.ticket + 1 + cap + pulledSince ds d.ticket
  inOrder : left.Pairwise fun d e => d.way ≠ .pulled → e.way ≠ .pulled → d.ticket < e.ticket

/-- The names in `bs` are waiting, the newest first. -/
structure Line.Ok (cap : Nat) (q : Line α β) (bs : List α) : Prop where
  rank : ∀ as b cs, bs = as ++ b :: cs →
    q.puts.length = q.ticket b + 1 + as.length + pulledSince q.left (q.ticket b)
  sorted : bs.Pairwise fun a b => q.ticket b < q.ticket a
  waiting : ∀ b ∈ bs, q.puts[q.ticket b]? = some b
  older : ∀ d ∈ q.left, d.way ≠ .pulled → ∀ b ∈ bs, d.ticket < q.ticket b
  apart : ∀ d ∈ q.left, ∀ b ∈ bs, d.ticket ≠ q.ticket b
  whole : ∀ n x, q.puts[n]? = some x → (∃ d ∈ q.left, d.ticket = n) ∨ x ∈ bs ∧ q.ticket x = n
  lawful : Lawful cap q.puts q.left

theorem Line.ok_init (cap : Nat) : ({} : Line α β).Ok cap [] where
  rank as b cs h := by simp at h
  sorted := List.Pairwise.nil
  waiting b hb := nomatch hb
  older d hd := nomatch hd
  apart d hd := nomatch hd
  whole n x h := by simp at h
  lawful := ⟨nofun, List.Pairwise.nil, by simp, List.Pairwise.nil⟩

/-! ## Putting in -/

variable {cap : Nat} {puts : List α} {left : List (Departure α β)}

theorem Lawful.ticket_lt (h : Lawful cap puts left) {d : Departure α β} (hd : d ∈ left) :
    d.ticket < puts.length :=
  (List.getElem?_eq_some_iff.mp (h.named d hd)).1

theorem Lawful.put (h : Lawful cap puts left) (x : α) : Lawful cap (puts ++ [x]) left := by
  refine ⟨?_, h.once, h.timed, h.inOrder⟩
  intro d hd
  rw [List.getElem?_append_left (h.ticket_lt hd)]
  exact h.named d hd

theorem Lawful.pulledSince_length (h : Lawful cap puts left) :
    pulledSince left puts.length = 0 := by
  rw [pulledSince, List.countP_eq_zero]
  intro d hd
  have hlt := h.ticket_lt hd
  simp only [decide_eq_true_eq, not_and]
  omega

theorem Line.Ok.ticket_lt {q : Line α β} {bs : List α} (h : q.Ok cap bs) {b : α} (hb : b ∈ bs) :
    q.ticket b < q.puts.length :=
  (List.getElem?_eq_some_iff.mp (h.waiting b hb)).1

theorem Line.Ok.put [DecidableEq α] {q : Line α β} {bs : List α} (h : q.Ok cap bs) {x : α}
    (hx : x ∉ bs) : (q.put x).Ok cap (x :: bs) := by
  have hself : (q.put x).ticket x = q.puts.length := Function.update_self ..
  have hother : ∀ b ∈ bs, (q.put x).ticket b = q.ticket b := by
    intro b hb
    apply Function.update_of_ne
    intro hbx
    exact hx (hbx ▸ hb)
  have hlength : (q.put x).puts.length = q.puts.length + 1 := by simp [Line.put]
  refine ⟨?_, ?_, ?_, ?_, ?_, ?_, h.lawful.put x⟩
  · intro as b cs hsplit
    rw [hlength]
    cases as with
    | nil =>
      cases hsplit
      rw [hself]
      have hnone : pulledSince (q.put x).left q.puts.length = 0 := h.lawful.pulledSince_length
      simp [hnone]
    | cons a as =>
      obtain ⟨rfl, hbs⟩ := List.cons.inj hsplit
      rw [hother b (by simp [hbs])]
      have hrank := h.rank as b cs hbs
      have hleft : (q.put x).left = q.left := rfl
      rw [hleft, List.length_cons]
      omega
  · refine List.pairwise_cons.mpr ⟨?_, ?_⟩
    · intro b hb
      rw [hself, hother b hb]
      exact h.ticket_lt hb
    · refine h.sorted.imp_of_mem ?_
      intro a b ha hb hlt
      rw [hother a ha, hother b hb]
      exact hlt
  · intro b hb
    rcases mem_cons.mp hb with rfl | hb
    · rw [hself]
      exact List.getElem?_concat_length
    · rw [hother b hb]
      exact (List.getElem?_append_left (h.ticket_lt hb)).trans (h.waiting b hb)
  · intro d hd hway b hb
    rcases mem_cons.mp hb with rfl | hb
    · rw [hself]
      exact h.lawful.ticket_lt hd
    · rw [hother b hb]
      exact h.older d hd hway b hb
  · intro d hd b hb
    rcases mem_cons.mp hb with rfl | hb
    · rw [hself]
      exact Nat.ne_of_lt (h.lawful.ticket_lt hd)
    · rw [hother b hb]
      exact h.apart d hd b hb
  · intro n y hy
    have hget : (q.puts ++ [x])[n]? = some y := hy
    by_cases hn : n < q.puts.length
    · rw [List.getElem?_append_left hn] at hget
      rcases h.whole n y hget with hleft | ⟨hmem, hticket⟩
      · exact .inl hleft
      · exact .inr ⟨List.mem_cons_of_mem _ hmem, (hother y hmem).trans hticket⟩
    · have hlt := (List.getElem?_eq_some_iff.mp hget).1
      rw [List.length_append, List.length_singleton] at hlt
      obtain rfl : n = q.puts.length := by omega
      rw [List.getElem?_concat_length] at hget
      cases hget
      exact .inr ⟨List.mem_cons_self, hself⟩

/-! ## Leaving -/

theorem pulledSince_concat (left : List (Departure α β)) (d : Departure α β) (n : Nat) :
    pulledSince (left ++ [d]) n =
      pulledSince left n + if d.way = .pulled ∧ n < d.ticket then 1 else 0 := by
  rw [pulledSince, pulledSince, List.countP_append, List.countP_singleton]
  by_cases hd : d.way = .pulled ∧ n < d.ticket <;> simp [hd]

theorem append_eq_split {as cs ds es : List α} {d : α} (h : as ++ cs = ds ++ d :: es) :
    (∃ fs, as = ds ++ d :: fs ∧ es = fs ++ cs) ∨ ∃ fs, ds = as ++ fs ∧ cs = fs ++ d :: es := by
  rcases List.append_eq_append_iff.mp h with ⟨fs, hds, hcs⟩ | ⟨fs, has, hcs⟩
  · exact .inr ⟨fs, hds, hcs⟩
  · cases fs with
    | nil =>
      rw [append_nil] at has
      exact .inr ⟨[], by rw [has, append_nil], hcs.symm⟩
    | cons f fs =>
      cases hcs
      exact .inl ⟨fs, has, rfl⟩

theorem Lawful.leave (h : Lawful cap puts left) {d : Departure α β}
    (hname : puts[d.ticket]? = some d.name) (hnew : ∀ e ∈ left, e.ticket ≠ d.ticket)
    (htime : d.way = .evicted → d.puts = d.ticket + 1 + cap + pulledSince left d.ticket)
    (horder : d.way ≠ .pulled → ∀ e ∈ left, e.way ≠ .pulled → e.ticket < d.ticket) :
    Lawful cap puts (left ++ [d]) := by
  refine ⟨?_, ?_, ?_, ?_⟩
  · intro e he
    rcases mem_append.mp he with he | he
    · exact h.named e he
    · rw [mem_singleton.mp he]
      exact hname
  · refine List.pairwise_append.mpr ⟨h.once, List.pairwise_singleton _ _, ?_⟩
    intro e he e' he'
    rw [mem_singleton.mp he']
    exact hnew e he
  · intro ds e es hsplit hway
    rcases append_eq_split hsplit with ⟨es', hleft, _⟩ | ⟨fs, hds, hlast⟩
    · exact h.timed ds e es' hleft hway
    · cases fs with
      | nil =>
        obtain ⟨rfl, _⟩ := List.cons.inj hlast
        rw [hds, append_nil]
        exact htime hway
      | cons f fs => simp at hlast
  · refine List.pairwise_append.mpr ⟨h.inOrder, List.pairwise_singleton _ _, ?_⟩
    intro e he e' he' hway hway'
    rw [mem_singleton.mp he'] at hway' ⊢
    exact horder hway' e he hway

/-- A name leaves: from the old end, unless it is pulled, and evicted only if there are
`cap` names behind it. -/
theorem Line.Ok.leave {q : Line α β} {as cs : List α} {x : α} (h : q.Ok cap (as ++ x :: cs))
    {way : Way} (hend : way ≠ .pulled → cs = []) (hcap : way = .evicted → as.length = cap)
    (info : β) :
    (q.leave way x info).Ok cap (as ++ cs) := by
  obtain ⟨_, hsorted, hbefore⟩ := List.pairwise_append.mp h.sorted
  obtain ⟨hafter, _⟩ := List.pairwise_cons.mp hsorted
  have hx : x ∈ as ++ x :: cs := by simp
  have hstill : ∀ b ∈ as ++ cs, b ∈ as ++ x :: cs := by
    intro b hb
    rcases mem_append.mp hb with hb | hb
    · exact List.mem_append_left _ hb
    · exact List.mem_append_right _ (List.mem_cons_of_mem _ hb)
  have hahead : ∀ b ∈ as, q.ticket x < q.ticket b := fun b hb => hbefore b hb x (by simp)
  refine ⟨?_, ?_, ?_, ?_, ?_, ?_, ?_⟩
  · intro as' b cs' hsplit
    change q.puts.length = q.ticket b + 1 + as'.length + pulledSince (q.left ++ [_]) (q.ticket b)
    rw [pulledSince_concat]
    rcases append_eq_split hsplit with ⟨ds, hds, _⟩ | ⟨ds, hds, hcs⟩
    · have hlt := hahead b (by simp [hds])
      have hrank := h.rank as' b (ds ++ x :: cs) (by rw [hds]; simp)
      rw [if_neg (fun hand => absurd hand.2 (Nat.lt_asymm hlt)), Nat.add_zero]
      exact hrank
    · -- `b` is older than the name that leaves, which must have been pulled
      have hway : way = .pulled := by
        by_contra hway
        rw [hend hway] at hcs
        simp at hcs
      have hlt : q.ticket b < q.ticket x := hafter b (by simp [hcs])
      have hrank := h.rank (as ++ x :: ds) b cs' (by rw [hcs]; simp)
      rw [if_pos ⟨hway, hlt⟩, hrank, hds]
      simp only [List.length_append, List.length_cons]
      omega
  · exact h.sorted.sublist ((List.sublist_cons_self x cs).append_left as)
  · intro b hb
    exact h.waiting b (hstill b hb)
  · intro d hd hway b hb
    rcases mem_append.mp hd with hd | hd
    · exact h.older d hd hway b (hstill b hb)
    · rw [mem_singleton.mp hd] at hway ⊢
      rw [hend hway, append_nil] at hb
      exact hahead b hb
  · intro d hd b hb
    rcases mem_append.mp hd with hd | hd
    · exact h.apart d hd b (hstill b hb)
    · rw [mem_singleton.mp hd]
      rcases mem_append.mp hb with hb | hb
      · exact Nat.ne_of_lt (hahead b hb)
      · exact Nat.ne_of_gt (hafter b hb)
  · intro n y hy
    rcases h.whole n y hy with ⟨d, hd, hticket⟩ | ⟨hmem, hticket⟩
    · exact .inl ⟨d, List.mem_append_left _ hd, hticket⟩
    · by_cases hyx : y = x
      · subst hyx
        exact .inl ⟨_, List.mem_append_right _ (List.mem_singleton_self _), hticket⟩
      · refine .inr ⟨?_, hticket⟩
        simpa [hyx] using hmem
  · apply h.lawful.leave
    · exact h.waiting x hx
    · intro d hd
      exact h.apart d hd x hx
    · intro hway
      have hrank := h.rank as x cs rfl
      rw [hcap hway] at hrank
      exact hrank
    · intro _ d hd hway'
      exact h.older d hd hway' x hx

end Omap4Hal.Lib
