import Omap4Hal.Domx.Core

/- The table of components that the OMX core builds from the static `tComponentName`, and the two
   queries of it (`OMX_Core.c`, with `STATIC_TABLE`).

   The flag for a name that is there already is never reset, so that the table ends at the first
   repetition. `OMX_GetRolesOfComponent` uses the index of its search also when nothing was found,
   and reports no error; `OMX_GetComponentsOfRole` takes a first component without roles for an
   empty table, and counts a component as often as it lists the role. -/
namespace Omap4Hal.Domx.ComponentTable

open Domx.Core (maxComp maxNameSize)
open List (length_append length_replicate map_cons mem_cons mem_map replicate)

/-! ## The code -/

def maxRoles : Nat := 20

def maxTableSize : Nat := 50

/-- A row of `tComponentName`: a name and its roles, up to a null pointer that is still in the row.
A name has room for its end in `MAXNAMESIZE`. -/
structure Registration where
  name : String
  roles : List String
  short : name.utf8ByteSize < maxNameSize
  terminated : roles.length + 1 < maxRoles
  deriving DecidableEq

/-- `ComponentTable`; `nRoles` is the length of the roles. -/
structure Component where
  name : String
  roles : List String
  deriving DecidableEq, Repr

inductive OmxError where
  | none
  | badParameter
  | invalidComponentName
  | undefined
  deriving DecidableEq, Repr

/-- The loop of `OMX_BuildComponentTable`, with `componentfound` and the entries so far. -/
def buildFrom (componentfound : Bool) (table : List Component) : List Registration → List Component
  | [] => table
  | r :: rs =>
    let componentfound := componentfound || table.any (·.name = r.name)
    if componentfound then buildFrom componentfound table rs
    else buildFrom componentfound (table ++ [⟨r.name, r.roles⟩]) rs

def buildComponentTable (tComponentName : List Registration) : List Component :=
  buildFrom false [] tComponentName

/-- What the core knows: the first `tableCount` entries, and the calls of `OMX_Init`. -/
structure Core where
  componentTable : List Component
  count : Nat

/-- The roles of an entry; one behind the last has none, and behind the array there is no entry. -/
def Core.rolesAt (w : Core) (i : Nat) : Option (List String) :=
  if i < maxTableSize then some ((w.componentTable[i]?).elim [] (·.roles)) else none

/-- What a query returns, what it writes to the number, and to the array of strings. -/
structure Reply where
  eError : OmxError
  number : Option Nat := none
  strings : List String := []
  deriving DecidableEq, Repr

/-- `OMX_GetRolesOfComponent`, where `pNumRoles` is what it points to, and `roles` says whether
there is an array. `none` is an access outside the table. -/
def getRolesOfComponent (w : Core) (cComponentName : Option String) (pNumRoles : Option Nat)
    (roles : Bool) : Option Reply :=
  match cComponentName, pNumRoles with
  | none, _ => some { eError := .badParameter }
  | some _, none => some { eError := .badParameter }
  | some name, some numRoles =>
    if ¬ name.utf8ByteSize < maxNameSize then some { eError := .invalidComponentName }
    else if w.count = 0 then some { eError := .undefined }
    else
      let i := w.componentTable.findIdx (·.name = name)
      let bFound : Bool := i < w.componentTable.length
      if roles = false then (w.rolesAt i).map fun rs => { eError := .none, number := rs.length }
      else if bFound = false then some { eError := .none }
      else
        (w.rolesAt i).map fun rs =>
          { eError := .none, strings := if numRoles = rs.length then rs else [] }

/-- The names that the two loops of `OMX_GetComponentsOfRole` come to. -/
def hits (role : String) (table : List Component) : List String :=
  table.flatMap fun c => c.roles.filterMap fun r => if r = role then some c.name else none

/-- `OMX_GetComponentsOfRole`, where `compNames` says whether there is an array. -/
def getComponentsOfRole (w : Core) (role : Option String) (pNumComps compNames : Bool) :
    Option Reply :=
  match role with
  | none => some { eError := .badParameter }
  | some role =>
    if pNumComps = false then some { eError := .badParameter }
    else if w.count = 0 then some { eError := .undefined }
    else
      (w.rolesAt 0).map fun rs =>
        if rs = [] then { eError := .badParameter }
        else
          { eError := .none
            number :=
              if w.componentTable = [] then none else some (hits role w.componentTable).length
            strings := if compNames then hits role w.componentTable else [] }

/-! ## What they should do -/

/-- The first registration of each name that is not in `before`. -/
def firsts (before : List String) : List Registration → List Component
  | [] => []
  | r :: rs =>
    if r.name ∈ before then firsts before rs
    else ⟨r.name, r.roles⟩ :: firsts (r.name :: before) rs

/-- A listed name has its number of roles and its roles; for another one there is an error. -/
def RolesRight (w : Core) (name : String) : Prop :=
  match w.componentTable.find? (·.name = name) with
  | some c =>
    (∀ n, getRolesOfComponent w name (some n) false =
      some { eError := .none, number := c.roles.length }) ∧
    getRolesOfComponent w name (some c.roles.length) true =
      some { eError := .none, strings := c.roles }
  | none =>
    ∀ n roles, ∃ reply, getRolesOfComponent w name (some n) roles = some reply ∧
      reply.eError ≠ .none

def having (role : String) (table : List Component) : List String :=
  (table.filter (role ∈ ·.roles)).map (·.name)

def ComponentsRight (w : Core) (role : String) : Prop :=
  ∀ compNames, getComponentsOfRole w (some role) true compNames =
    some
      { eError := .none
        number := (having role w.componentTable).length
        strings := if compNames then having role w.componentTable else [] }

/-- Behind the first repetition there is no name that has not been there before. -/
def NoNewAfterRepeat (before : List String) : List Registration → Prop
  | [] => True
  | r :: rs =>
    if r.name ∈ before then ∀ r' ∈ rs, r'.name ∈ before
    else NoNewAfterRepeat (r.name :: before) rs

/-! ## Building the table -/

theorem buildFrom_found (table : List Component) (rs : List Registration) :
    buildFrom true table rs = table := by
  induction rs with
  | nil => rfl
  | cons r rs ih => exact ih

theorem any_name_iff {table : List Component} {name : String} :
    table.any (·.name = name) = true ↔ name ∈ table.map (·.name) := by
  simp [List.any_eq_true, mem_map]

variable {before : List String} {rs : List Registration}

theorem firsts_eq_nil_iff :
    firsts before rs = [] ↔ ∀ r ∈ rs, r.name ∈ before := by
  induction rs with
  | nil => simp [firsts]
  | cons r rs ih =>
    rw [firsts]
    by_cases hr : r.name ∈ before
    · rw [if_pos hr, ih, List.forall_mem_cons]
      exact (and_iff_right hr).symm
    · rw [if_neg hr]
      simp [hr]

theorem buildFrom_eq_iff {table : List Component}
    (hbefore : ∀ name, name ∈ before ↔ name ∈ table.map (·.name)) :
    buildFrom false table rs = table ++ firsts before rs ↔ NoNewAfterRepeat before rs := by
  induction rs generalizing before table with
  | nil => simp [buildFrom, firsts, NoNewAfterRepeat]
  | cons r rs ih =>
    rw [buildFrom, firsts, NoNewAfterRepeat]
    by_cases hr : r.name ∈ before
    · have hfound : table.any (·.name = r.name) = true := any_name_iff.mpr ((hbefore _).mp hr)
      rw [if_pos hr, if_pos hr, hfound, Bool.false_or, if_pos rfl, buildFrom_found,
        ← firsts_eq_nil_iff]
      exact List.self_eq_append_right
    · have hnew : table.any (·.name = r.name) = false :=
        Bool.eq_false_iff.mpr fun hin => hr ((hbefore _).mpr (any_name_iff.mp hin))
      have hbefore' : ∀ name, name ∈ r.name :: before ↔
          name ∈ (table ++ [(⟨r.name, r.roles⟩ : Component)]).map (·.name) := by
        intro name
        simp only [mem_cons, hbefore, List.map_append, List.mem_append, map_cons,
          List.map_nil, List.not_mem_nil, or_false]
        exact or_comm
      rw [if_neg hr, if_neg hr, hnew, Bool.false_or, if_neg (by decide),
        List.append_cons table ⟨r.name, r.roles⟩ (firsts (r.name :: before) rs)]
      exact ih hbefore'

theorem buildComponentTable_eq_iff {regs : List Registration} :
    buildComponentTable regs = firsts [] regs ↔ NoNewAfterRepeat [] regs :=
  buildFrom_eq_iff (by simp)

theorem mem_firsts_names {name : String} :
    name ∈ (firsts before rs).map (·.name) ↔ name ∈ rs.map (·.name) ∧ name ∉ before := by
  induction rs generalizing before with
  | nil => simp [firsts]
  | cons r rs ih =>
    rw [firsts]
    by_cases hr : r.name ∈ before
    · rw [if_pos hr, ih, map_cons, mem_cons]
      constructor
      · rintro ⟨hin, hnot⟩
        exact ⟨Or.inr hin, hnot⟩
      · rintro ⟨rfl | hin, hnot⟩
        · exact absurd hr hnot
        · exact ⟨hin, hnot⟩
    · rw [if_neg hr, map_cons, map_cons, mem_cons, mem_cons, ih, mem_cons,
        not_or]
      constructor
      · rintro (rfl | ⟨hin, -, hnot⟩)
        · exact ⟨Or.inl rfl, hr⟩
        · exact ⟨Or.inr hin, hnot⟩
      · rintro ⟨hin, hnot⟩
        by_cases heq : name = r.name
        · exact Or.inl heq
        · exact Or.inr ⟨hin.resolve_left heq, heq, hnot⟩

theorem length_firsts_le (before : List String) (rs : List Registration) :
    (firsts before rs).length ≤ rs.length := by
  induction rs generalizing before with
  | nil => exact Nat.le_refl _
  | cons r rs ih =>
    rw [firsts]
    split
    next => exact Nat.le_succ_of_le (ih before)
    next => exact Nat.succ_le_succ (ih _)

/-! ## The roles of a component -/

section Roles
variable {w : Core} {name : String}

theorem rolesAt_findIdx {c : Component} (hsize : w.componentTable.length ≤ maxTableSize)
    (hfind : w.componentTable.find? (·.name = name) = some c) :
    w.componentTable.findIdx (·.name = name) < w.componentTable.length ∧
      w.rolesAt (w.componentTable.findIdx (·.name = name)) = some c.roles := by
  have hget : w.componentTable[w.componentTable.findIdx (·.name = name)]? = some c := by
    rw [← List.find?_eq_getElem?_findIdx, hfind]
  have hlt : w.componentTable.findIdx (·.name = name) < w.componentTable.length :=
    (List.getElem?_eq_some_iff.mp hget).1
  refine ⟨hlt, ?_⟩
  rw [Core.rolesAt, if_pos (Nat.lt_of_lt_of_le hlt hsize), hget]
  rfl

theorem rolesRight_iff (hsize : w.componentTable.length ≤ maxTableSize) (hcount : 0 < w.count)
    (hshort : ∀ c ∈ w.componentTable, c.name.utf8ByteSize < maxNameSize) :
    RolesRight w name ↔
      name ∈ w.componentTable.map (·.name) ∨ maxNameSize ≤ name.utf8ByteSize := by
  have hcount' : w.count ≠ 0 := Nat.ne_of_gt hcount
  unfold RolesRight
  cases hfind : w.componentTable.find? (·.name = name) with
  | some c =>
    obtain ⟨hlt, hroles⟩ := rolesAt_findIdx hsize hfind
    have hmem := List.mem_of_find?_eq_some hfind
    have hname : c.name = name := by simpa using List.find?_some hfind
    have hlen : name.utf8ByteSize < maxNameSize := hname ▸ hshort c hmem
    refine iff_of_true ⟨?_, ?_⟩ (Or.inl (hname ▸ List.mem_map_of_mem hmem))
    · intro n
      simp [getRolesOfComponent, hlen, hcount', hroles]
    · simp [getRolesOfComponent, hlen, hcount', hroles, hlt]
  | none =>
    have hnone : name ∉ w.componentTable.map (·.name) := by
      intro hin
      obtain ⟨c, hc, hname⟩ := mem_map.mp hin
      exact List.find?_eq_none.mp hfind c hc (by simpa using hname)
    rw [or_iff_right hnone]
    constructor
    · intro h
      by_contra hlen
      have hindex : w.componentTable.findIdx (·.name = name) = w.componentTable.length :=
        List.findIdx_eq_length.mpr fun c hc => Bool.eq_false_iff.mpr
          (List.find?_eq_none.mp hfind c hc)
      obtain ⟨reply, hreply, herror⟩ := h 0 true
      rw [getRolesOfComponent, if_neg (not_not.mpr (Nat.not_le.mp hlen)), if_neg hcount'] at hreply
      simp only [hindex, Nat.lt_irrefl] at hreply
      cases hreply
      exact herror rfl
    · intro hlen n roles
      exact ⟨_, by rw [getRolesOfComponent, if_pos (Nat.not_lt.mpr hlen)], by decide⟩

end Roles

/-! ## The components of a role -/

section Hits
variable {w : Core} {role : String}

theorem hits_cons (c : Component) (table : List Component) :
    hits role (c :: table) = replicate (c.roles.count role) c.name ++ hits role table := by
  have hreplicate : ∀ roles : List String,
      (roles.filterMap fun r => if r = role then some c.name else none) =
        replicate (roles.count role) c.name := by
    intro roles
    induction roles with
    | nil => rfl
    | cons r roles ih =>
      by_cases hr : r = role
      · rw [List.filterMap_cons, if_pos hr, hr, List.count_cons_self, List.replicate_succ, ih]
      · rw [List.filterMap_cons, if_neg hr, List.count_cons_of_ne hr, ih]
  rw [hits, List.flatMap_cons, hreplicate]
  rfl

theorem having_cons (c : Component) (table : List Component) :
    having role (c :: table) =
      replicate (min (c.roles.count role) 1) c.name ++ having role table := by
  rw [having, List.filter_cons]
  by_cases hr : role ∈ c.roles
  · have hpos : 0 < c.roles.count role := List.count_pos_iff.mpr hr
    rw [if_pos (by simpa using hr), Nat.min_eq_right hpos]
    rfl
  · rw [if_neg (by simpa using hr), List.count_eq_zero.mpr hr]
    rfl

theorem length_having_le (table : List Component) :
    (having role table).length ≤ (hits role table).length := by
  induction table with
  | nil => exact Nat.le_refl _
  | cons c table ih =>
    rw [having_cons, hits_cons, length_append, length_append, length_replicate,
      length_replicate]
    exact Nat.add_le_add (Nat.min_le_left _ _) ih

theorem hits_eq_having_iff {table : List Component} :
    hits role table = having role table ↔ ∀ c ∈ table, c.roles.count role ≤ 1 := by
  induction table with
  | nil => simp [hits, having]
  | cons c table ih =>
    rw [List.forall_mem_cons, ← ih, hits_cons, having_cons]
    constructor
    · intro h
      have hlen := congrArg List.length h
      have hle : (having role table).length ≤ (hits role table).length :=
        length_having_le table
      rw [length_append, length_append, length_replicate,
        length_replicate] at hlen
      have hcount : min (c.roles.count role) 1 = c.roles.count role := by omega
      rw [hcount] at h
      exact ⟨by omega, List.append_cancel_left h⟩
    · rintro ⟨hcount, heq⟩
      rw [Nat.min_eq_left hcount, heq]

def FirstHasRoles (table : List Component) : Prop := ∃ c cs, table = c :: cs ∧ c.roles ≠ []

theorem componentsRight_iff (hcount : 0 < w.count) :
    ComponentsRight w role ↔
      FirstHasRoles w.componentTable ∧ ∀ c ∈ w.componentTable, c.roles.count role ≤ 1 := by
  have hcount' : w.count ≠ 0 := Nat.ne_of_gt hcount
  rw [← hits_eq_having_iff]
  unfold ComponentsRight getComponentsOfRole
  simp only [Bool.true_eq_false, if_false, hcount']
  cases htable : w.componentTable with
  | nil =>
    refine iff_of_false ?_ ?_
    · intro h
      have hbad := h true
      simp [Core.rolesAt, htable, maxTableSize] at hbad
    · rintro ⟨⟨c, cs, hcons, -⟩, -⟩
      cases hcons
  | cons c cs =>
    have hroles : w.rolesAt 0 = some c.roles := by
      rw [Core.rolesAt, if_pos (by decide), htable]
      rfl
    rw [hroles]
    by_cases hnil : c.roles = []
    · refine iff_of_false ?_ ?_
      · intro h
        have hbad := h true
        rw [Option.map_some, if_pos hnil] at hbad
        cases hbad
      · rintro ⟨⟨c', cs', hcons, hne⟩, -⟩
        cases hcons
        exact hne hnil
    · simp only [Option.map_some, if_neg hnil]
      constructor
      · intro h
        refine ⟨⟨c, cs, rfl, hnil⟩, ?_⟩
        have hstrings := h true
        simpa using congrArg (fun r => (r.map Reply.strings).getD []) hstrings
      · rintro ⟨-, heq⟩ compNames
        rw [heq]
        rfl

end Hits

/-! ## The table and its queries -/

/-- The table lists the first registrations, and a name and a role are answered from it. -/
structure Right (regs : List Registration) (count : Nat) (name role : String) : Prop where
  table : buildComponentTable regs = firsts [] regs
  roles : RolesRight ⟨buildComponentTable regs, count⟩ name
  components : ComponentsRight ⟨buildComponentTable regs, count⟩ role

/-- When they are. -/
structure Handled (regs : List Registration) (name role : String) : Prop where
  settled : NoNewAfterRepeat [] regs
  known : name ∈ regs.map (·.name) ∨ maxNameSize ≤ name.utf8ByteSize
  first : ∃ r rs, regs = r :: rs ∧ r.roles ≠ []
  once : ∀ c ∈ firsts [] regs, c.roles.count role ≤ 1

theorem mem_firsts {c : Component} (h : c ∈ firsts before rs) :
    ∃ r ∈ rs, c = ⟨r.name, r.roles⟩ := by
  induction rs generalizing before with
  | nil => cases h
  | cons r rs ih =>
    rw [firsts] at h
    split at h
    next =>
      obtain ⟨r', hr', hc⟩ := ih h
      exact ⟨r', List.mem_cons_of_mem _ hr', hc⟩
    next =>
      rcases mem_cons.mp h with rfl | h
      · exact ⟨r, List.mem_cons_self, rfl⟩
      · obtain ⟨r', hr', hc⟩ := ih h
        exact ⟨r', List.mem_cons_of_mem _ hr', hc⟩

theorem firstHasRoles_iff {regs : List Registration} :
    FirstHasRoles (firsts [] regs) ↔ ∃ r rs, regs = r :: rs ∧ r.roles ≠ [] := by
  cases regs with
  | nil =>
    refine iff_of_false ?_ ?_
    · rintro ⟨c, cs, hcons, -⟩
      cases hcons
    · rintro ⟨r, rs, hcons, -⟩
      cases hcons
  | cons r rs =>
    rw [firsts, if_neg List.not_mem_nil]
    constructor
    · rintro ⟨c, cs, hcons, hne⟩
      cases hcons
      exact ⟨r, rs, rfl, hne⟩
    · rintro ⟨r', rs', hcons, hne⟩
      cases hcons
      exact ⟨_, _, rfl, hne⟩

/-- Table and queries are right exactly for these registrations, names and roles. -/
theorem table_right_iff (regs : List Registration) (hlen : regs.length ≤ maxComp) (count : Nat)
    (hcount : 0 < count) (name role : String) :
    Right regs count name role ↔ Handled regs name role := by
  have hsize : (firsts [] regs).length ≤ maxTableSize := (length_firsts_le [] regs).trans hlen
  have hshort : ∀ c ∈ firsts [] regs, c.name.utf8ByteSize < maxNameSize := by
    intro c hc
    obtain ⟨r, -, rfl⟩ := mem_firsts hc
    exact r.short
  have hknown : (name ∈ (firsts [] regs).map (·.name) ∨ maxNameSize ≤ name.utf8ByteSize) ↔
      (name ∈ regs.map (·.name) ∨ maxNameSize ≤ name.utf8ByteSize) := by
    rw [mem_firsts_names]
    simp
  constructor
  · rintro ⟨htable, hroles, hcomponents⟩
    rw [htable] at hroles hcomponents
    obtain ⟨hfirst, honce⟩ := (componentsRight_iff hcount).mp hcomponents
    exact ⟨buildComponentTable_eq_iff.mp htable,
      hknown.mp ((rolesRight_iff hsize hcount hshort).mp hroles), firstHasRoles_iff.mp hfirst,
      honce⟩
  · rintro ⟨hsettled, hname, hfirst, honce⟩
    have htable := buildComponentTable_eq_iff.mpr hsettled
    refine ⟨htable, ?_, ?_⟩
    · rw [htable]
      exact (rolesRight_iff hsize hcount hshort).mpr (hknown.mpr hname)
    · rw [htable]
      exact (componentsRight_iff hcount).mpr ⟨firstHasRoles_iff.mpr hfirst, honce⟩

/-- A decoder of two roles, an encoder, and the decoder once more. -/
theorem coders_right :
    Right
      [⟨"VIDDEC", ["video_decoder.avc", "video_decoder.mpeg4"], by decide, by decide⟩,
        ⟨"H264E", ["video_encoder.avc"], by decide, by decide⟩,
        ⟨"VIDDEC", ["video_decoder.avc"], by decide, by decide⟩] 2 "VIDDEC"
      "video_encoder.avc" :=
  (table_right_iff _ (by decide) 2 (by decide) _ _).mpr
    ⟨by simp [NoNewAfterRepeat], Or.inl (by decide), ⟨_, _, rfl, by decide⟩, by simp [firsts]⟩

/-- A component that is registered behind a repeated one is not listed. -/
theorem lost_after_repeat :
    ¬ Right
      [⟨"H264D", ["video_decoder.avc"], by decide, by decide⟩,
        ⟨"H264D", ["video_decoder.avc"], by decide, by decide⟩,
        ⟨"H264E", ["video_encoder.avc"], by decide, by decide⟩] 1 "H264D" "video_decoder.avc" := by
  intro h
  exact absurd h.table (by decide)

end Omap4Hal.Domx.ComponentTable
