import Mathlib.Data.List.Chain
import Omap4Hal.Elfload.HostBuffers
import Omap4Hal.Lib.Grouped

/- Which entries of the relocation tables are applied (`process_rel_table`, `process_rela_table`
   and `process_got_relocs` of `arm_reloc.c`). The entries of one segment stand together. Each
   segment is looked for from where the one before it was left (`visits`), and only a cursor at the
   end of the table goes back to its start.

   A group that stands before the cursor is not found, and none of its entries is applied: the
   groups have to be in the order of the segments, except that a group at the end of the table or a
   segment without entries rewinds the cursor (`Ahead`). `applied_once_iff` is the condition. The
   loader of the C6000 starts at the first entry for every segment. -/
namespace Omap4Hal.Elfload.Relocate

open Lib
open Segment
open List (append_assoc cons_append forall_mem_cons length_cons length_drop mem_append mem_cons
  mem_cons_of_mem mem_cons_self mem_filterMap mem_map mem_of_mem_drop nil_append not_mem_nil)

/-! ## What is to be applied -/

/-- The offset lies in the segment. -/
def Segment.holds (seg : Segment) (rOffset : Word) : Bool :=
  decide (seg.inputVaddr.toNat ≤ rOffset.toNat ∧
    rOffset.toNat < seg.inputVaddr.toNat + seg.memsz.toNat)

def Segment.hasContent (seg : Segment) : Bool := decide (seg.filesz ≠ 0#32)

/-- The segment with file content that the entry lies in. -/
def owner (segments : List (Segment × Nat)) (rOffset : Word) : Option (Segment × Nat) :=
  segments.find? fun s => s.1.hasContent && s.1.holds rOffset

/-- Every entry of a table, in the segment that it lies in. -/
def wantedJobs {ι : Type} (rOffset : ι → Word) (segments : List (Segment × Nat))
    (job : Segment × Nat → ι → Option Job) (table : List ι) : List Job :=
  table.filterMap fun r => (owner segments (rOffset r)).bind fun s => job s r

/-- Every entry that lies in a segment with file content is applied once, at its address in the
host's copy of the segment, and no other entry is. -/
structure AppliedOnce (m : DynamicModule) (be8 : Bool) (rel : List Rel) (rela : List Rela) :
    Prop where
  once : (armGotJobs m be8 rel rela 0 0 m.segments.zipIdx).Perm
    (wantedJobs (fun r => r.rOffset) m.segments.zipIdx
        (fun s r => armJob m be8 s r.toRel (some r.rAddend)) rela ++
      wantedJobs (fun r => r.rOffset) m.segments.zipIdx (fun s r => armJob m be8 s r none) rel)
  addressed : ∀ j ∈ armGotJobs m be8 rel rela 0 0 m.segments.zipIdx,
    m.segments[j.index]? = some j.segment ∧
      ∀ host, j.address host = host + (j.rOffset - j.segment.inputVaddr)

/-- Disjoint segments, and tables in which the entries of a segment stand together and have their
symbols. -/
structure WellGrouped (m : DynamicModule) (rel : List Rel) (rela : List Rela) : Prop where
  disjoint : m.segments.Pairwise fun a b => ∀ o, ¬ (a.holds o = true ∧ b.holds o = true)
  rel_group : ∀ seg ∈ m.segments, Contiguous (fun r : Rel => seg.holds r.rOffset) rel
  rela_group : ∀ seg ∈ m.segments, Contiguous (fun r : Rela => seg.holds r.rOffset) rela
  rel_symbol : ∀ r ∈ rel, (m.canonicalLookup r.sym).isSome
  rela_symbol : ∀ r ∈ rela, (m.canonicalLookup r.sym).isSome

/-- If both groups have entries, that of `p` stands before that of `q`, or it ends the table. -/
def Ahead {ι : Type} (p q : ι → Bool) (table : List ι) : Prop :=
  (∃ r ∈ table, p r = true) → (∃ r ∈ table, q r = true) →
    table.findIdx p < table.findIdx q ∨ ∃ r, table.getLast? = some r ∧ p r = true

/-- Of the segments with file content, each is ahead of the next one, and none that has entries
reaches the end of the address space. -/
structure InTurn {ι : Type} (rOffset : ι → Word) (segments : List Segment) (table : List ι) :
    Prop where
  ahead : (segments.filter hasContent).IsChain fun a b =>
    Ahead (fun r => a.holds (rOffset r)) (fun r => b.holds (rOffset r)) table
  below : ∀ seg ∈ segments.filter hasContent, ∀ r ∈ table,
    seg.holds (rOffset r) = true → seg.inputVaddr.toNat + seg.memsz.toNat < 2 ^ 32

/-! ## The loop over a table -/

section Scan
variable {ι : Type} {p q : ι → Bool}

theorem scan_congr {l : List ι} (h : ∀ r ∈ l, p r = q r) (found : Bool) (rid : Nat) :
    scan p found rid l = scan q found rid l := by
  induction l generalizing found rid with
  | nil => rfl
  | cons r l ih =>
    obtain ⟨hr, hl⟩ := forall_mem_cons.mp h
    rw [scan, scan, hr, ih hl, ih hl]

theorem mem_scan {l : List ι} {found : Bool} {rid : Nat} {r : ι} (h : r ∈ (scan p found rid l).1) :
    r ∈ l ∧ p r = true := by
  induction l generalizing found rid with
  | nil => exact absurd h not_mem_nil
  | cons a l ih =>
    rw [scan] at h
    split at h
    next hp =>
      rcases mem_cons.mp h with rfl | hrest
      · exact ⟨mem_cons_self, hp⟩
      · exact ⟨mem_cons_of_mem a (ih hrest).1, (ih hrest).2⟩
    next =>
      split at h
      next => exact absurd h not_mem_nil
      next => exact ⟨mem_cons_of_mem a (ih h).1, (ih h).2⟩

theorem scan_skip {pre : List ι} (hpre : ∀ r ∈ pre, p r = false) (rid : Nat) (l : List ι) :
    scan p false rid (pre ++ l) = scan p false (rid + pre.length) l := by
  induction pre generalizing rid with
  | nil => rfl
  | cons r pre ih =>
    obtain ⟨hr, hpre⟩ := forall_mem_cons.mp hpre
    rw [cons_append, scan, hr, if_neg Bool.false_ne_true, if_neg Bool.false_ne_true, ih hpre,
      length_cons, Nat.add_assoc, Nat.add_comm 1]

theorem scan_none {l : List ι} (h : ∀ r ∈ l, p r = false) (rid : Nat) :
    scan p false rid l = ([], rid + l.length) := by
  have hskip := scan_skip h rid []
  rwa [List.append_nil] at hskip

theorem scan_take {mid post : List ι} (hmid : ∀ r ∈ mid, p r = true)
    (hpost : ∀ r ∈ post, p r = false) (rid : Nat) :
    scan p true rid (mid ++ post) = (mid, rid + mid.length) := by
  induction mid generalizing rid with
  | nil =>
    cases post with
    | nil => rfl
    | cons r post =>
      rw [nil_append, scan, hpost r mem_cons_self]
      rfl
  | cons r mid ih =>
    obtain ⟨hr, hmid⟩ := forall_mem_cons.mp hmid
    rw [cons_append, scan, hr, if_pos rfl, ih hmid, length_cons, Nat.add_assoc,
      Nat.add_comm 1]

theorem scan_group {pre mid post : List ι} (hpre : ∀ r ∈ pre, p r = false)
    (hmid : ∀ r ∈ mid, p r = true) (hpost : ∀ r ∈ post, p r = false) (hne : mid ≠ []) (rid : Nat) :
    scan p false rid (pre ++ mid ++ post) = (mid, rid + pre.length + mid.length) := by
  obtain ⟨r, mid, rfl⟩ := List.exists_cons_of_ne_nil hne
  obtain ⟨hr, hrest⟩ := forall_mem_cons.mp hmid
  rw [append_assoc, scan_skip hpre, cons_append, scan, hr, if_pos rfl,
    scan_take hrest hpost, length_cons, Nat.add_assoc _ 1, Nat.add_comm 1]

end Scan

/-! ## One segment -/

section Search
variable {ι : Type} {p q : ι → Bool} {table pre mid post pre' mid' post' : List ι} {start : Nat}

/-- The search for the entries of a segment. -/
def search (p : ι → Bool) (table : List ι) (start : Nat) : List ι × Nat :=
  let rid := if table.length ≤ start then 0 else start
  scan p false rid (table.drop rid)

/-- The cursor is not behind the start of the group, or it goes back. -/
def Reaches (p : ι → Bool) (table : List ι) (start : Nat) : Prop :=
  (∃ r ∈ table, p r = true) → table.length ≤ start ∨ start ≤ table.findIdx p

theorem search_none (h : ∀ r ∈ table, p r = false) (start : Nat) :
    search p table start = ([], table.length) := by
  have hdrop : ∀ rid, ∀ r ∈ table.drop rid, p r = false :=
    fun rid r hr => h r (mem_of_mem_drop hr)
  rw [search]
  split
  next => rw [scan_none (hdrop 0), length_drop, Nat.sub_zero, Nat.zero_add]
  next hlt => rw [scan_none (hdrop start), length_drop, Nat.add_sub_of_le (by omega)]

theorem search_group (h : Grouped p table pre mid post) (hne : mid ≠ [])
    (hstart : table.length ≤ start ∨ start ≤ pre.length) :
    search p table start = (mid, pre.length + mid.length) := by
  have hrid : ∀ rid, rid ≤ pre.length →
      scan p false rid (table.drop rid) = (mid, pre.length + mid.length) := by
    intro rid hle
    have hdrop : table.drop rid = pre.drop rid ++ mid ++ post := by
      rw [h.eq, append_assoc, List.drop_append_of_le_length hle, append_assoc]
    have hpre : ∀ r ∈ pre.drop rid, p r = false :=
      fun r hr => h.pre_not r (mem_of_mem_drop hr)
    rw [hdrop, scan_group hpre h.mid_all h.post_not hne, length_drop,
      Nat.add_sub_of_le hle]
  rw [search]
  split
  next => exact hrid 0 (Nat.zero_le _)
  next hlt => exact hrid start (by omega)

theorem search_behind (h : Grouped p table pre mid post) (hstart : pre.length + mid.length ≤ start)
    (hlt : start < table.length) : (search p table start).1 = [] := by
  have hdrop : table.drop start = post.drop (start - (pre ++ mid).length) := by
    have hle : (pre ++ mid).length ≤ start := by
      rw [List.length_append]
      exact hstart
    rw [h.eq, List.drop_append, List.drop_eq_nil_of_le hle, nil_append]
  have hpost : ∀ r ∈ post.drop (start - (pre ++ mid).length), p r = false :=
    fun r hr => h.post_not r (mem_of_mem_drop hr)
  rw [search]
  simp only [if_neg (Nat.not_le_of_lt hlt), hdrop]
  rw [scan_none hpost]

theorem search_of_reaches (h : Grouped p table pre mid post) (hreach : Reaches p table start) :
    (search p table start).1 = table.filter p := by
  by_cases hne : mid = []
  · have hnone : ∀ r ∈ table, p r = false := by
      intro r hr
      by_contra hp
      exact h.mem_iff.mp ⟨r, hr, by simpa using hp⟩ hne
    rw [search_none hnone, h.filter_eq, hne]
  · have hstart := hreach (h.mem_iff.mpr hne)
    rw [h.findIdx_eq hne] at hstart
    rw [search_group h hne hstart, h.filter_eq]

/-- Where the next segment is looked for. Its group is reached if it is not the earlier one; if it
is, nothing of it is found. -/
theorem search_next (h : Grouped p table pre mid post) (h' : Grouped q table pre' mid' post')
    (hdisjoint : ∀ r ∈ table, ¬ (p r = true ∧ q r = true)) (hreach : Reaches p table start) :
    (Ahead p q table → Reaches q table (search p table start).2) ∧
      (¬ Ahead p q table → (∃ r ∈ table, q r = true) ∧
        (search q table (search p table start).2).1 = []) := by
  by_cases hne : mid = []
  · have hnone : ∀ r ∈ table, p r = false := by
      intro r hr
      by_contra hp
      exact h.mem_iff.mp ⟨r, hr, by simpa using hp⟩ hne
    have hahead : Ahead p q table := by
      intro hentry
      exact absurd (h.mem_iff.mp hentry) (not_not.mpr hne)
    rw [search_none hnone]
    exact ⟨fun _ _ => .inl (Nat.le_refl _), fun hnot => absurd hahead hnot⟩
  by_cases hne' : mid' = []
  · have hnot' : ¬ ∃ r ∈ table, q r = true := fun hentry => h'.mem_iff.mp hentry hne'
    exact ⟨fun _ hentry => absurd hentry hnot',
      fun hnot => absurd (fun _ hentry => absurd hentry hnot') hnot⟩
  · have hentry := h.mem_iff.mpr hne
    have hentry' := h'.mem_iff.mpr hne'
    have hstart := hreach hentry
    rw [h.findIdx_eq hne] at hstart
    have hlen := h.length_eq
    have hpos := List.length_pos_iff.mpr hne
    have hpost : post = [] ↔ post.length = 0 := List.length_eq_zero_iff.symm
    have hahead : Ahead p q table ↔
        pre.length + mid.length ≤ pre'.length ∨ table.length ≤ pre.length + mid.length := by
      have hside := h.before_or_after h' hdisjoint hne hne'
      rw [Ahead, h.findIdx_eq hne, h'.findIdx_eq hne', h.getLast_iff, hpost]
      constructor
      · intro hor
        rcases hor hentry hentry' with hbefore | hend <;> omega
      · intro hor _ _
        rcases hor with hbefore | hend
        · exact .inl (by omega)
        · exact .inr ⟨hne, by omega⟩
    rw [search_group h hne hstart, hahead]
    constructor
    · intro hor _
      rw [h'.findIdx_eq hne']
      exact hor.symm
    · intro hnot
      have hside := h.before_or_after h' hdisjoint hne hne'
      exact ⟨hentry', search_behind h' (by omega) (by omega)⟩

end Search

/-! ## All segments -/

section Visits
variable {ι σ : Type} {p q : σ → ι → Bool} {table : List ι}

/-- The entries found, by segment, when the segments are gone through from the cursor on. -/
def visits (p : σ → ι → Bool) (table : List ι) : Nat → List σ → List (σ × ι)
  | _, [] => []
  | start, s :: rest =>
    (search (p s) table start).1.map (Prod.mk s) ++
      visits p table (search (p s) table start).2 rest

theorem mem_search {p : ι → Bool} {start : Nat} {r : ι} (h : r ∈ (search p table start).1) :
    r ∈ table ∧ p r = true := by
  obtain ⟨hmem, hp⟩ := mem_scan h
  exact ⟨mem_of_mem_drop hmem, hp⟩

theorem mem_visits {segs : List σ} {start : Nat} {s : σ} {r : ι}
    (h : (s, r) ∈ visits p table start segs) : s ∈ segs ∧ r ∈ table ∧ p s r = true := by
  induction segs generalizing start with
  | nil => exact absurd h not_mem_nil
  | cons a segs ih =>
    rcases mem_append.mp h with hhere | hlater
    · obtain ⟨r', hr, heq⟩ := mem_map.mp hhere
      cases heq
      exact ⟨mem_cons_self, mem_search hr⟩
    · exact ⟨mem_cons_of_mem a (ih hlater).1, (ih hlater).2⟩

theorem search_congr {p q : ι → Bool} (h : ∀ r ∈ table, p r = q r) (start : Nat) :
    search p table start = search q table start :=
  scan_congr (fun r hr => h r (mem_of_mem_drop hr)) _ _

theorem visits_congr {segs : List σ} (h : ∀ s ∈ segs, ∀ r ∈ table, p s r = q s r) (start : Nat) :
    visits p table start segs = visits q table start segs := by
  induction segs generalizing start with
  | nil => rfl
  | cons s segs ih =>
    obtain ⟨hs, hrest⟩ := forall_mem_cons.mp h
    rw [visits, visits, search_congr hs, ih hrest]

section Groups
variable {segs : List σ} {start : Nat} (hgroup : ∀ s ∈ segs, Contiguous (p s) table)
  (hdisjoint : segs.Pairwise fun a b => ∀ r ∈ table, ¬ (p a r = true ∧ p b r = true))
  (hstart : ∀ s ∈ segs.head?, Reaches (p s) table start)
include hgroup hdisjoint hstart

theorem visits_eq (hchain : segs.IsChain fun a b => Ahead (p a) (p b) table) :
    visits p table start segs = segs.flatMap fun s => (table.filter (p s)).map (Prod.mk s) := by
  induction segs generalizing start with
  | nil => rfl
  | cons s rest ih =>
    obtain ⟨hs, hgroup⟩ := forall_mem_cons.mp hgroup
    obtain ⟨hapart, hdisjoint⟩ := List.pairwise_cons.mp hdisjoint
    obtain ⟨hahead, hchain⟩ := List.isChain_cons.mp hchain
    obtain ⟨pre, mid, post, h⟩ := hs
    have hreach := hstart s rfl
    have hnext : ∀ t ∈ rest.head?, Reaches (p t) table (search (p s) table start).2 := by
      intro t ht
      have hmem := List.mem_of_head? ht
      obtain ⟨pre', mid', post', h'⟩ := hgroup t hmem
      exact (search_next h h' (hapart t hmem) hreach).1 (hahead t ht)
    rw [visits, search_of_reaches h hreach, ih hgroup hdisjoint hnext hchain, List.flatMap_cons]

theorem visits_missed (hnodup : segs.Nodup)
    (hchain : ¬ segs.IsChain fun a b => Ahead (p a) (p b) table) :
    ∃ s ∈ segs, (∃ r ∈ table, p s r = true) ∧ ∀ r, (s, r) ∉ visits p table start segs := by
  induction segs generalizing start with
  | nil => exact absurd List.isChain_nil hchain
  | cons s rest ih =>
    obtain ⟨hs, hgroup⟩ := forall_mem_cons.mp hgroup
    obtain ⟨hapart, hdisjoint⟩ := List.pairwise_cons.mp hdisjoint
    obtain ⟨hsrest, hnodup⟩ := List.nodup_cons.mp hnodup
    obtain ⟨pre, mid, post, h⟩ := hs
    have hreach := hstart s rfl
    -- what the later segments miss, the first one does not find
    have hlift : ∀ t ∈ rest, (∀ r, (t, r) ∉ visits p table (search (p s) table start).2 rest) →
        ∀ r, (t, r) ∉ visits p table start (s :: rest) := by
      intro t ht hmiss r hmem
      rcases mem_append.mp hmem with hhere | hlater
      · obtain ⟨r', -, heq⟩ := mem_map.mp hhere
        exact hsrest ((Prod.mk.inj heq).1 ▸ ht)
      · exact hmiss r hlater
    cases rest with
    | nil => exact absurd (List.isChain_singleton s) hchain
    | cons t rest =>
      obtain ⟨pre', mid', post', h'⟩ := hgroup t mem_cons_self
      obtain ⟨hreached, hlost⟩ := search_next h h' (hapart t mem_cons_self) hreach
      by_cases hahead : Ahead (p s) (p t) table
      · have hrest : ¬ (t :: rest).IsChain fun a b => Ahead (p a) (p b) table := by
          intro hrest
          exact hchain (List.isChain_cons_cons.mpr ⟨hahead, hrest⟩)
        have hnext : ∀ u ∈ (t :: rest).head?, Reaches (p u) table (search (p s) table start).2 := by
          intro u hu
          rw [List.head?_cons, Option.mem_some_iff] at hu
          exact hu ▸ hreached hahead
        obtain ⟨u, hu, hentry, hmiss⟩ := ih hgroup hdisjoint hnext hnodup hrest
        exact ⟨u, mem_cons_of_mem s hu, hentry, hlift u hu hmiss⟩
      · obtain ⟨hentry, hnone⟩ := hlost hahead
        refine ⟨t, mem_cons_of_mem s mem_cons_self, hentry,
          hlift t mem_cons_self ?_⟩
        intro r hmem
        rw [visits, hnone, List.map_nil, nil_append] at hmem
        exact (List.nodup_cons.mp hnodup).1 (mem_visits hmem).1

end Groups

end Visits

/-! ## The jobs -/

/-- The segments that are gone through. -/
def contents (segments : List (Segment × Nat)) : List (Segment × Nat) :=
  segments.filter fun s => s.1.hasContent

/-- By what a table is searched. -/
def coversBy {ι : Type} (rOffset : ι → Word) (s : Segment × Nat) (r : ι) : Bool :=
  decide (s.1.covers (rOffset r))

def holdsBy {ι : Type} (rOffset : ι → Word) (s : Segment × Nat) (r : ι) : Bool :=
  s.1.holds (rOffset r)

variable {s : Segment × Nat}

theorem contents_cons_of_empty (hsize : s.1.filesz = 0#32) (rest : List (Segment × Nat)) :
    contents (s :: rest) = contents rest := by
  rw [contents, List.filter_cons_of_neg]
  · rfl
  · simp [hasContent, hsize]

theorem contents_cons (hsize : s.1.filesz ≠ 0#32) (rest : List (Segment × Nat)) :
    contents (s :: rest) = s :: contents rest := by
  rw [contents, List.filter_cons_of_pos]
  · rfl
  · simp [hasContent, hsize]

theorem armGotJobs_perm (m : DynamicModule) (be8 : Bool) (rel : List Rel) (rela : List Rela)
    (segments : List (Segment × Nat)) (relRid relaRid : Nat) :
    (armGotJobs m be8 rel rela relRid relaRid segments).Perm
      ((visits (coversBy fun r => r.rOffset) rela relaRid (contents segments)).filterMap
          (fun x => armJob m be8 x.1 x.2.toRel (some x.2.rAddend)) ++
        (visits (coversBy fun r => r.rOffset) rel relRid (contents segments)).filterMap
          fun x => armJob m be8 x.1 x.2 none) := by
  induction segments generalizing relRid relaRid with
  | nil => exact List.Perm.refl _
  | cons s rest ih =>
    rw [armGotJobs]
    split
    next hsize =>
      rw [contents_cons_of_empty hsize]
      exact ih _ _
    next hsize =>
      rw [contents_cons hsize, visits, visits, List.filterMap_append, List.filterMap_append,
        List.filterMap_map, List.filterMap_map]
      have hrest := (ih (search (coversBy (fun r => r.rOffset) s) rel relRid).2
        (search (coversBy (fun r => r.rOffset) s) rela relaRid).2).append_left
        (armRelaJobs m be8 s (search (coversBy (fun r => r.rOffset) s) rela relaRid).1 ++
          armRelJobs m be8 s (search (coversBy (fun r => r.rOffset) s) rel relRid).1)
      apply hrest.trans
      rw [append_assoc, append_assoc]
      apply List.Perm.append_left
      rw [← append_assoc, ← append_assoc]
      exact List.perm_append_comm.append_right _

/-- What is wanted is what is found when every entry has its segment. -/
theorem wantedJobs_eq {ι : Type} (rOffset : ι → Word) (segments : List (Segment × Nat))
    (job : Segment × Nat → ι → Option Job) (table : List ι) :
    wantedJobs rOffset segments job table =
      (table.filterMap fun r => ((contents segments).find? (holdsBy rOffset · r)).map fun s =>
        (s, r)).filterMap fun x => job x.1 x.2 := by
  rw [wantedJobs, List.filterMap_filterMap]
  apply List.filterMap_congr
  intro r _
  have hsame : (fun s : Segment × Nat => s.1.hasContent && s.1.holds (rOffset r)) =
      fun s => decide (s.1.hasContent = true ∧ holdsBy rOffset s r = true) := by
    funext s
    rw [Bool.decide_and, Bool.decide_eq_true, Bool.decide_eq_true]
    rfl
  rw [owner, contents, List.find?_filter, Option.bind_map, hsame]
  rfl

theorem covers_iff_holds {seg : Segment} {rOffset : Word} : seg.covers rOffset ↔
    seg.holds rOffset = true ∧ seg.inputVaddr.toNat + seg.memsz.toNat < 2 ^ 32 := by
  have hoffset := rOffset.isLt
  have hstart := seg.inputVaddr.isLt
  have hsize := seg.memsz.isLt
  rw [covers, holds, decide_eq_true_eq, BitVec.le_def, BitVec.lt_def,
    BitVec.toNat_add]
  omega

/-! ## A table -/

section Table
variable {ι : Type} {rOffset : ι → Word} {segments : List Segment} {table : List ι}

/-- In a table whose entries are below the end of the address space, it makes no difference by
which of the two it is searched. -/
theorem visits_below (hbelow : ∀ s ∈ contents segments.zipIdx, ∀ r ∈ table,
      holdsBy rOffset s r = true → s.1.inputVaddr.toNat + s.1.memsz.toNat < 2 ^ 32) (start : Nat) :
    visits (coversBy rOffset) table start (contents segments.zipIdx) =
      visits (holdsBy rOffset) table start (contents segments.zipIdx) := by
  apply visits_congr
  intro s hs r hr
  rw [coversBy, holdsBy, Bool.eq_iff_iff, decide_eq_true_eq, covers_iff_holds]
  exact ⟨fun h => h.1, fun h => ⟨h, hbelow s hs r hr h⟩⟩

theorem contents_map_fst (segments : List Segment) :
    (contents segments.zipIdx).map Prod.fst = segments.filter hasContent := by
  have hfilter : (segments.zipIdx.map Prod.fst).filter hasContent =
      (contents segments.zipIdx).map Prod.fst := List.filter_map
  rw [← hfilter, List.zipIdx_map_fst]

theorem contents_nodup (segments : List Segment) : (contents segments.zipIdx).Nodup := by
  have hsnd : (segments.zipIdx.map Prod.snd).Nodup := by
    rw [List.zipIdx_map_snd]
    exact List.nodup_range'
  exact hsnd.of_map.filter _

variable (hdisjoint : segments.Pairwise fun a b => ∀ o, ¬ (a.holds o = true ∧ b.holds o = true))

variable (rOffset) in
include hdisjoint in
theorem contents_disjoint : (contents segments.zipIdx).Pairwise fun a b =>
    ∀ r, ¬ (holdsBy rOffset a r = true ∧ holdsBy rOffset b r = true) := by
  have hpairs : segments.zipIdx.Pairwise fun a b =>
      ∀ o, ¬ (a.1.holds o = true ∧ b.1.holds o = true) := by
    have hmap := hdisjoint
    rw [← List.zipIdx_map_fst 0 segments, List.pairwise_map] at hmap
    exact hmap
  exact (hpairs.filter _).imp fun h r => h (rOffset r)

theorem inTurn_chain_iff : ((segments.filter hasContent).IsChain fun a b =>
      Ahead (fun r => a.holds (rOffset r)) (fun r => b.holds (rOffset r)) table) ↔
    (contents segments.zipIdx).IsChain fun a b =>
      Ahead (holdsBy rOffset a) (holdsBy rOffset b) table := by
  rw [← contents_map_fst, List.isChain_map]
  rfl

variable (hgroup : ∀ seg ∈ segments, Contiguous (fun r => seg.holds (rOffset r)) table)

include hgroup in
theorem contents_group : ∀ s ∈ contents segments.zipIdx, Contiguous (holdsBy rOffset s) table := by
  intro s hs
  have hmem := List.mem_map_of_mem (f := Prod.fst) (List.mem_of_mem_filter hs)
  rw [List.zipIdx_map_fst] at hmem
  exact hgroup s.1 hmem

theorem reaches_zero (p : ι → Bool) : Reaches p table 0 := fun _ => .inr (Nat.zero_le _)

include hdisjoint hgroup in
theorem visits_perm (hturn : InTurn rOffset segments table) :
    (visits (coversBy rOffset) table 0 (contents segments.zipIdx)).Perm
      (table.filterMap fun r => ((contents segments.zipIdx).find? (holdsBy rOffset · r)).map
        fun s => (s, r)) := by
  have hbelow : ∀ s ∈ contents segments.zipIdx, ∀ r ∈ table, holdsBy rOffset s r = true →
      s.1.inputVaddr.toNat + s.1.memsz.toNat < 2 ^ 32 := by
    intro s hs
    apply hturn.below
    rw [← contents_map_fst]
    exact List.mem_map_of_mem hs
  have hpairwise := contents_disjoint rOffset hdisjoint
  rw [visits_below hbelow, visits_eq (contents_group hgroup)
    (hpairwise.imp fun h r _ => h r) (fun s _ => reaches_zero _) (inTurn_chain_iff.mp hturn.ahead)]
  exact flatMap_filter_perm table fun r => hpairwise.imp fun h => h r

include hdisjoint hgroup in
theorem visits_miss (hturn : ¬ InTurn rOffset segments table) :
    ∃ s ∈ contents segments.zipIdx, (∃ r ∈ table, holdsBy rOffset s r = true) ∧
      ∀ r, (s, r) ∉ visits (coversBy rOffset) table 0 (contents segments.zipIdx) := by
  by_cases hbelow : ∀ s ∈ contents segments.zipIdx, ∀ r ∈ table, holdsBy rOffset s r = true →
      s.1.inputVaddr.toNat + s.1.memsz.toNat < 2 ^ 32
  · rw [visits_below hbelow]
    apply visits_missed (contents_group hgroup)
      ((contents_disjoint rOffset hdisjoint).imp fun h r _ => h r) (fun s _ => reaches_zero _)
      (contents_nodup segments)
    intro hchain
    apply hturn
    refine ⟨inTurn_chain_iff.mpr hchain, ?_⟩
    intro seg hseg
    rw [← contents_map_fst] at hseg
    obtain ⟨s, hs, rfl⟩ := mem_map.mp hseg
    exact hbelow s hs
  · push Not at hbelow
    obtain ⟨s, hs, r, hr, hholds, htop⟩ := hbelow
    refine ⟨s, hs, ⟨r, hr, hholds⟩, ?_⟩
    -- the end of the segment wraps, and no entry is in it
    intro r' hmem
    have hcovers := (mem_visits hmem).2.2
    rw [coversBy, decide_eq_true_eq, covers_iff_holds] at hcovers
    omega

end Table

/-! ## The module -/

/-- The addend of an `Elf32_Rel` is in the field. -/
def Job.inField (j : Job) : Bool :=
  match j.reloc with
  | .arm _ _ none _ => true
  | _ => false

theorem armJob_facts {m : DynamicModule} {be8 : Bool} {r : Rel} {addend : Option Word} {j : Job}
    (h : armJob m be8 s r addend = some j) :
    (j.segment, j.index) = s ∧ j.inField = addend.isNone := by
  refine ⟨armJob_segment h, ?_⟩
  obtain ⟨symval, -, rfl⟩ := Option.map_eq_some_iff.mp h
  cases addend <;> rfl

theorem armJob_isSome {m : DynamicModule} {r : Rel} (h : (m.canonicalLookup r.sym).isSome)
    (be8 : Bool) (s : Segment × Nat) (addend : Option Word) :
    (armJob m be8 s r addend).isSome := by
  rw [armJob, Option.isSome_map]
  exact h

/-- If a segment finds none of the entries that it is to have, the jobs are not those wanted. The
jobs of the other table have their addends elsewhere. -/
theorem not_perm_of_miss {ι : Type} (job : Segment × Nat → ι → Option Job) (k : Bool)
    (hjob : ∀ {s r j}, job s r = some j → (j.segment, j.index) = s ∧ j.inField = k)
    {found wanted : List ((Segment × Nat) × ι)} {others others' : List Job}
    (hothers : ∀ j ∈ others, j.inField ≠ k) {r : ι} (hmem : (s, r) ∈ wanted)
    (hsome : (job s r).isSome) (hmiss : ∀ r', (s, r') ∉ found) :
    ¬ ((found.filterMap fun x => job x.1 x.2) ++ others).Perm
      ((wanted.filterMap fun x => job x.1 x.2) ++ others') := by
  intro hperm
  obtain ⟨j, hj⟩ := Option.isSome_iff_exists.mp hsome
  have hwanted : j ∈ (wanted.filterMap fun x => job x.1 x.2) ++ others' :=
    List.mem_append_left _ (mem_filterMap.mpr ⟨(s, r), hmem, hj⟩)
  rcases mem_append.mp (hperm.mem_iff.mpr hwanted) with hfound | hother
  · obtain ⟨⟨s', r'⟩, hx, hj'⟩ := mem_filterMap.mp hfound
    have hs : s' = s := (hjob hj').1.symm.trans (hjob hj).1
    exact hmiss r' (hs ▸ hx)
  · exact hothers j hother (hjob hj).2

theorem mem_wanted {ι : Type} {rOffset : ι → Word} {segments : List Segment} {table : List ι}
    (hdisjoint : segments.Pairwise fun a b => ∀ o, ¬ (a.holds o = true ∧ b.holds o = true))
    (hs : s ∈ contents segments.zipIdx) {r : ι} (hr : r ∈ table)
    (hholds : holdsBy rOffset s r = true) :
    (s, r) ∈ table.filterMap fun r => ((contents segments.zipIdx).find? (holdsBy rOffset · r)).map
      fun s => (s, r) := by
  have hperm := flatMap_filter_perm table
    fun r => (contents_disjoint rOffset hdisjoint).imp fun h => h r
  apply hperm.mem_iff.mp
  exact List.mem_flatMap.mpr
    ⟨s, hs, mem_map.mpr ⟨r, List.mem_filter.mpr ⟨hr, hholds⟩, rfl⟩⟩

theorem jobs_addressed (m : DynamicModule) (be8 : Bool) (rel : List Rel) (rela : List Rela) :
    ∀ j ∈ armGotJobs m be8 rel rela 0 0 m.segments.zipIdx, m.segments[j.index]? = some j.segment ∧
      ∀ host, j.address host = host + (j.rOffset - j.segment.inputVaddr) := by
  intro j hj
  exact ⟨List.mem_zipIdx_iff_getElem?.mp (mem_armGotJobs hj), j.address_eq⟩

/-- For every module with disjoint segments and grouped tables, each entry is applied exactly once
if and only if both tables are in turn. -/
theorem applied_once_iff {m : DynamicModule} {be8 : Bool} {rel : List Rel} {rela : List Rela}
    (h : WellGrouped m rel rela) : AppliedOnce m be8 rel rela ↔
      InTurn (fun r => r.rOffset) m.segments rel ∧ InTurn (fun r => r.rOffset) m.segments rela := by
  have hfound := armGotJobs_perm m be8 rel rela m.segments.zipIdx 0 0
  have hrelField : ∀ l : List ((Segment × Nat) × Rel),
      ∀ j ∈ l.filterMap fun x => armJob m be8 x.1 x.2 none, j.inField ≠ false := by
    intro l j hj
    obtain ⟨x, -, hx⟩ := mem_filterMap.mp hj
    rw [(armJob_facts hx).2]
    simp
  have hrelaField : ∀ l : List ((Segment × Nat) × Rela),
      ∀ j ∈ l.filterMap fun x => armJob m be8 x.1 x.2.toRel (some x.2.rAddend),
        j.inField ≠ true := by
    intro l j hj
    obtain ⟨x, -, hx⟩ := mem_filterMap.mp hj
    rw [(armJob_facts hx).2]
    simp
  constructor
  · intro happlied
    have hperm := hfound.symm.trans happlied.once
    rw [wantedJobs_eq, wantedJobs_eq] at hperm
    constructor
    · by_contra hturn
      obtain ⟨s, hs, ⟨r, hr, hholds⟩, hmiss⟩ := visits_miss h.disjoint h.rel_group hturn
      exact not_perm_of_miss (fun s r => armJob m be8 s r none) true (fun hj => armJob_facts hj)
        (hrelaField _) (mem_wanted h.disjoint hs hr hholds)
        (armJob_isSome (h.rel_symbol r hr) _ _ _) hmiss
        ((List.perm_append_comm.trans hperm).trans List.perm_append_comm)
    · by_contra hturn
      obtain ⟨s, hs, ⟨r, hr, hholds⟩, hmiss⟩ := visits_miss h.disjoint h.rela_group hturn
      exact not_perm_of_miss (fun s (r : Rela) => armJob m be8 s r.toRel (some r.rAddend)) false
        (fun hj => armJob_facts hj) (hrelField _) (mem_wanted h.disjoint hs hr hholds)
        (armJob_isSome (h.rela_symbol r hr) _ _ _) hmiss hperm
  · intro hturn
    refine ⟨?_, jobs_addressed m be8 rel rela⟩
    rw [wantedJobs_eq, wantedJobs_eq]
    apply hfound.trans
    exact ((visits_perm h.disjoint h.rela_group hturn.2).filterMap _).append
      ((visits_perm h.disjoint h.rel_group hturn.1).filterMap _)

/-- Three segments of a page, linked one after the other, with a symbol for every entry. -/
def threePages : DynamicModule where
  segments := [⟨0x1000#32, 0x80000000#32, 0x1000#32, 0x1000#32⟩,
    ⟨0x2000#32, 0x80001000#32, 0x1000#32, 0x1000#32⟩,
    ⟨0x3000#32, 0x80002000#32, 0x1000#32, 0x1000#32⟩]
  wrongEndian := false
  canonicalLookup := fun _ => some 0x80000040#32
  tables := .arm false (.inl []) [] []

theorem threePages_disjoint :
    threePages.segments.Pairwise fun a b => ∀ o, ¬ (a.holds o = true ∧ b.holds o = true) := by
  have hapart : ∀ a b : Segment,
      a.inputVaddr.toNat + a.memsz.toNat ≤ b.inputVaddr.toNat →
        ∀ o, ¬ (a.holds o = true ∧ b.holds o = true) := by
    intro a b hle o hboth
    rw [holds, holds, decide_eq_true_eq, decide_eq_true_eq] at hboth
    omega
  have hsorted : threePages.segments.Pairwise fun a b =>
      a.inputVaddr.toNat + a.memsz.toNat ≤ b.inputVaddr.toNat := by decide
  exact hsorted.imp fun h => hapart _ _ h

/-- A word of each segment, in the order of the segments and in the opposite one. -/
def upward : List Rel := [⟨0x1000#32, 0x102#32⟩, ⟨0x2000#32, 0x102#32⟩, ⟨0x3000#32, 0x102#32⟩]

def downward : List Rel := [⟨0x3000#32, 0x102#32⟩, ⟨0x2000#32, 0x102#32⟩, ⟨0x1000#32, 0x102#32⟩]

theorem upward_grouped : WellGrouped threePages upward [] where
  disjoint := threePages_disjoint
  rel_group := by
    intro seg hseg
    simp only [threePages, mem_cons, not_mem_nil, or_false] at hseg
    rcases hseg with rfl | rfl | rfl
    · exact ⟨[], [⟨0x1000#32, 0x102#32⟩], [⟨0x2000#32, 0x102#32⟩, ⟨0x3000#32, 0x102#32⟩],
        rfl, by decide, by decide, by decide⟩
    · exact ⟨[⟨0x1000#32, 0x102#32⟩], [⟨0x2000#32, 0x102#32⟩], [⟨0x3000#32, 0x102#32⟩],
        rfl, by decide, by decide, by decide⟩
    · exact ⟨[⟨0x1000#32, 0x102#32⟩, ⟨0x2000#32, 0x102#32⟩], [⟨0x3000#32, 0x102#32⟩], [],
        rfl, by decide, by decide, by decide⟩
  rela_group := fun _ _ => ⟨[], [], [], rfl, nofun, nofun, nofun⟩
  rel_symbol := fun _ _ => rfl
  rela_symbol := fun _ _ => rfl

theorem downward_grouped : WellGrouped threePages downward [] where
  disjoint := threePages_disjoint
  rel_group := by
    intro seg hseg
    simp only [threePages, mem_cons, not_mem_nil, or_false] at hseg
    rcases hseg with rfl | rfl | rfl
    · exact ⟨[⟨0x3000#32, 0x102#32⟩, ⟨0x2000#32, 0x102#32⟩], [⟨0x1000#32, 0x102#32⟩], [],
        rfl, by decide, by decide, by decide⟩
    · exact ⟨[⟨0x3000#32, 0x102#32⟩], [⟨0x2000#32, 0x102#32⟩], [⟨0x1000#32, 0x102#32⟩],
        rfl, by decide, by decide, by decide⟩
    · exact ⟨[], [⟨0x3000#32, 0x102#32⟩], [⟨0x2000#32, 0x102#32⟩, ⟨0x1000#32, 0x102#32⟩],
        rfl, by decide, by decide, by decide⟩
  rela_group := fun _ _ => ⟨[], [], [], rfl, nofun, nofun, nofun⟩
  rel_symbol := fun _ _ => rfl
  rela_symbol := fun _ _ => rfl

/-- In the order of the segments all is applied. -/
theorem applied_once_iff_upward : AppliedOnce threePages false upward [] := by
  refine (applied_once_iff upward_grouped).mpr ⟨⟨?_, by decide⟩, ⟨?_, nofun⟩⟩
  · have hfirst : (threePages.segments.filter hasContent).IsChain fun a b =>
        upward.findIdx (fun r => a.holds r.rOffset) <
          upward.findIdx fun r => b.holds r.rOffset := by decide
    exact hfirst.imp fun _ _ h _ _ => .inl h
  · apply List.Pairwise.isChain
    exact List.pairwise_of_forall fun _ _ hentry => absurd hentry (by simp)

/-- In the opposite order the cursor is behind the group of the last segment, whose entry is not
applied. -/
theorem downward_lost : WellGrouped threePages downward [] ∧
    (armGotJobs threePages false downward [] 0 0 threePages.segments.zipIdx).map
      (fun j => (j.index, j.rOffset)) = [(0, 0x1000#32), (1, 0x2000#32)] ∧
    ¬ AppliedOnce threePages false downward [] := by
  refine ⟨downward_grouped, by decide, ?_⟩
  intro happlied
  have hlength := happlied.once.length_eq
  exact absurd hlength (by decide)

end Omap4Hal.Elfload.Relocate
