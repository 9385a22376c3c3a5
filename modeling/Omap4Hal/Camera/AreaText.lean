import Mathlib.Data.List.Forall2
import Omap4Hal.Lib.CString

/- The areas for focus and metering that an application writes as text (`CameraArea::parseAreas` of
   `CameraHalUtilClasses.cpp`).

   Areas that are written out in decimal are read back (`parseAreas_format`). The other way round
   `strtol` takes an empty field for a zero, and nothing asks whether it has read anything. -/
namespace Omap4Hal.Camera.AreaText

open Lib
open List (append_assoc append_nil cons_ne_nil forall_mem_cons mem_append not_mem_nil)

/-! ## The code -/

inductive Status where
  | noError
  | einval
  deriving DecidableEq, Repr

/-- `CameraArea`; the weight is positive where `checkArea` accepts it, or zero. -/
structure CameraArea where
  top : Int
  left : Int
  bottom : Int
  right : Int
  weight : Int
  deriving DecidableEq, Repr

def checkArea (a : CameraArea) : Status :=
  if a.top = 0 ∧ a.left = 0 ∧ a.bottom = 0 ∧ a.right = 0 ∧ a.weight = 0 then .noError
  else if 1 > a.weight ∨ 1000 < a.weight then .einval
  else if -1000 > a.top ∨ 1000 < a.top then .einval
  else if -1000 > a.bottom ∨ 1000 < a.bottom then .einval
  else if -1000 > a.left ∨ 1000 < a.left then .einval
  else if -1000 > a.right ∨ 1000 < a.right then .einval
  else if a.left ≥ a.right then .einval
  else if a.top ≥ a.bottom then .einval
  else .noError

/-- `strtol` for one field and `n` more, each of these behind a separator: the numbers, and where
`pEnd` points to at last. -/
def scan : Nat → List Char → Option (List Int × List Char)
  | 0, s => some ([(strtol s).1], (strtol s).2)
  | n + 1, s =>
    match (strtol s).2 with
    | ',' :: e => (scan n e).map fun r => ((strtol s).1 :: r.1, r.2)
    | _ => none

/-- One round of the loop of `parseAreas`, up to the end token. -/
def parseArea (pStart : List Char) : Option CameraArea :=
  match scan 4 pStart with
  | some ([left, top, right, bottom, weight], ')' :: _) => some ⟨top, left, bottom, right, weight⟩
  | _ => none

def parsePieces : List (List Char) → List CameraArea → Status × List CameraArea
  | [], areas => (.noError, areas)
  | p :: ps, areas =>
    match parseArea p with
    | none => (.einval, areas)
    | some a =>
      if checkArea a = .noError then parsePieces ps (areas ++ [a]) else (.einval, areas)

/-- `CameraArea::parseAreas`, where `malloc` and `new` succeed. -/
def parseAreas (area : List Char) (areas : List CameraArea) : Status × List CameraArea :=
  match strtokAll '(' (area.length + 1) area with
  | [] => (.einval, areas)
  | ps => parsePieces ps areas

/-! ## Texts -/

/-- The numbers of an area in the order of the text. -/
def CameraArea.numbers (a : CameraArea) : List Int := [a.left, a.top, a.right, a.bottom, a.weight]

def formatArea (a : CameraArea) : List Char :=
  '(' :: ([','].intercalate (a.numbers.map showInt) ++ [')'])

/-- The areas in decimal, separated by commas. -/
def format (areas : List CameraArea) : List Char := [','].intercalate (areas.map formatArea)

/-- The parts of a text between its opening brackets. -/
def pieces (s : List Char) : List (List Char) := (s.splitOn '(').filter (· ≠ [])

/-- A piece begins with five decimal integers, separated by commas and followed by a bracket. -/
def Begins (piece : List Char) (a : CameraArea) : Prop :=
  ∃ cs rest, piece = [','].intercalate cs ++ ')' :: rest ∧ List.Forall₂ Numeral cs a.numbers

/-- The areas are those of the pieces, and accepted. -/
def Split (s : List Char) (areas : List CameraArea) : Prop :=
  pieces s ≠ [] ∧
    List.Forall₂ (fun p a => Begins p a ∧ checkArea a = .noError) (pieces s) areas

/-- What is between the commas up to the first closing bracket. -/
def fields (piece : List Char) : List (List Char) := (piece.takeWhile (· ≠ ')')).splitOn ','

def NoEmptyField (s : List Char) : Prop := ∀ p ∈ pieces s, ∀ f ∈ fields p, f ≠ []

/-! ## Numbers in range -/

variable {a : CameraArea} {cs ps : List (List Char)} {vs : List Int} {p : List Char}

theorem checkArea_iff : checkArea a = .noError ↔
    (a.top = 0 ∧ a.left = 0 ∧ a.bottom = 0 ∧ a.right = 0 ∧ a.weight = 0) ∨
      (1 ≤ a.weight ∧ a.weight ≤ 1000) ∧ (-1000 ≤ a.top ∧ a.bottom ≤ 1000) ∧
        (-1000 ≤ a.left ∧ a.right ≤ 1000) ∧ a.left < a.right ∧ a.top < a.bottom := by
  unfold checkArea
  split_ifs with h0 h1 h2 h3 h4 h5 h6 h7 <;> simp <;> omega

theorem numbers_bounded (h : checkArea a = .noError) :
    ∀ v ∈ a.numbers, -1000 ≤ v ∧ v ≤ 1000 := by
  have hrange := checkArea_iff.mp h
  simp only [CameraArea.numbers, forall_mem_cons, not_mem_nil, false_imp_iff,
    implies_true, and_true]
  omega

theorem toLong_eq {v : Int} (h : -1000 ≤ v ∧ v ≤ 1000) : toLong v = v := by
  unfold toLong
  omega

theorem eq_of_toLong {v w : Int} (h : -1000 ≤ v ∧ v ≤ 1000) (hw : v = toLong w) : v = w := by
  unfold toLong at hw
  omega

/-! ## Fields -/

theorem numeral_clean {cs : List Char} {v : Int} (h : Numeral cs v) : ',' ∉ cs ∧ ')' ∉ cs := by
  constructor
  · intro hc
    exact absurd (h.mem hc) (by decide)
  · intro hc
    exact absurd (h.mem hc) (by decide)

theorem mem_intercalate {c : Char} (h : c ∈ [','].intercalate cs) :
    c = ',' ∨ ∃ f ∈ cs, c ∈ f := by
  induction cs with
  | nil => cases h
  | cons f cs ih =>
    cases cs with
    | nil => exact Or.inr ⟨f, List.mem_cons_self, by simpa using h⟩
    | cons g cs =>
      rw [List.intercalate_cons_of_ne_nil (cons_ne_nil g cs), mem_append,
        mem_append] at h
      rcases h with (hf | hsep) | hrest
      · exact Or.inr ⟨f, List.mem_cons_self, hf⟩
      · exact Or.inl (List.mem_singleton.mp hsep)
      · rcases ih hrest with hsep | ⟨f', hf', hc⟩
        · exact Or.inl hsep
        · exact Or.inr ⟨f', List.mem_cons_of_mem _ hf', hc⟩

theorem fields_eq {cs : List (List Char)} {rest : List Char} (hcs : cs ≠ [])
    (hclean : ∀ f ∈ cs, ',' ∉ f ∧ ')' ∉ f) : fields ([','].intercalate cs ++ ')' :: rest) = cs := by
  have hkeep : ∀ c ∈ [','].intercalate cs, decide (c ≠ ')') = true := by
    intro c hc
    rw [decide_eq_true_iff]
    rintro rfl
    rcases mem_intercalate hc with hsep | ⟨f, hf, hmem⟩
    · exact absurd hsep (by decide)
    · exact (hclean f hf).2 hmem
  rw [fields, List.takeWhile_append_of_pos hkeep, List.takeWhile_cons_of_neg (by simp),
    append_nil, List.splitOn_intercalate ',' (fun f hf => (hclean f hf).1) hcs]

/-- A field that is read: empty, for a zero, or a numeral. -/
def Read (cs : List Char) (v : Int) : Prop := cs = [] ∧ v = 0 ∨ ∃ w, Numeral cs w ∧ v = toLong w

theorem Read.clean {cs : List Char} {v : Int} (h : Read cs v) : ',' ∉ cs ∧ ')' ∉ cs := by
  rcases h with ⟨rfl, -⟩ | ⟨w, hw, -⟩
  · exact ⟨not_mem_nil, not_mem_nil⟩
  · exact numeral_clean hw

theorem read_strtol (s : List Char) : ∃ cs, s = cs ++ (strtol s).2 ∧ Read cs (strtol s).1 := by
  rcases strtol_cases s with hnone | ⟨cs, v, rest, hs, hcs, hread⟩
  · rw [hnone]
    exact ⟨[], rfl, Or.inl ⟨rfl, rfl⟩⟩
  · rw [hread]
    exact ⟨cs, hs, Or.inr ⟨v, hcs, rfl⟩⟩

theorem scan_eq_some {n : Nat} {s e : List Char} (h : scan n s = some (vs, e)) :
    ∃ cs, s = [','].intercalate cs ++ e ∧ List.Forall₂ Read cs vs ∧ cs ≠ [] := by
  induction n generalizing s vs with
  | zero =>
    obtain ⟨cs, hs, hread⟩ := read_strtol s
    cases Option.some.inj h
    exact ⟨[cs], by simpa using hs, .cons hread .nil, cons_ne_nil _ _⟩
  | succ n ih =>
    obtain ⟨c, hs, hread⟩ := read_strtol s
    rw [scan] at h
    split at h
    next u hu =>
      obtain ⟨⟨vs', e'⟩, hscan, heq⟩ := Option.map_eq_some_iff.mp h
      cases heq
      obtain ⟨cs, hu', hcs, hne⟩ := ih hscan
      refine ⟨c :: cs, ?_, .cons hread hcs, cons_ne_nil _ _⟩
      rw [List.intercalate_cons_of_ne_nil hne, append_assoc, append_assoc, ← hu']
      rw [hu] at hs
      exact hs
    next => cases h

theorem scan_intercalate (hcs : List.Forall₂ Numeral cs vs) {n : Nat} (hn : cs.length = n + 1)
    (e : List Char) (he : ∀ c ∈ e.head?, c.isDigit = false) :
    scan n ([','].intercalate cs ++ e) = some (vs.map toLong, e) := by
  induction n generalizing cs vs with
  | zero =>
    obtain ⟨c, rfl⟩ := List.length_eq_one_iff.mp hn
    cases hcs with
    | cons hv hnil =>
      cases hnil
      have hread := strtol_numeral hv he
      rw [List.intercalate_singleton, scan, hread]
      rfl
  | succ n ih =>
    cases hcs with
    | nil => cases hn
    | cons hv hrest =>
      rename_i c v cs vs
      have hlen : cs.length = n + 1 := Nat.succ.inj hn
      have hne : cs ≠ [] := by
        rintro rfl
        cases hlen
      have hcomma : ∀ d ∈ (',' :: ([','].intercalate cs ++ e)).head?, d.isDigit = false := by
        intro d hd
        cases hd
        rfl
      have hread := strtol_numeral hv hcomma
      have htext : [','].intercalate (c :: cs) ++ e =
          c ++ ',' :: ([','].intercalate cs ++ e) := by
        rw [List.intercalate_cons_of_ne_nil hne]
        simp
      rw [htext, scan, hread]
      simp only [ih hrest hlen]
      rfl

/-! ## Pieces -/

theorem parseArea_eq_some (h : parseArea p = some a) :
    ∃ cs rest, p = [','].intercalate cs ++ ')' :: rest ∧ List.Forall₂ Read cs a.numbers ∧
      cs ≠ [] := by
  unfold parseArea at h
  split at h
  next left top right bottom weight rest hscan =>
    cases h
    obtain ⟨cs, hp, hcs, hne⟩ := scan_eq_some hscan
    exact ⟨cs, _, hp, hcs, hne⟩
  next => cases h

theorem parseArea_begins (h : Begins p a) (ha : checkArea a = .noError) : parseArea p = some a := by
  obtain ⟨cs, rest, rfl, hcs⟩ := h
  have hlen : cs.length = 4 + 1 := hcs.length_eq
  have hbracket : ∀ c ∈ (')' :: rest).head?, c.isDigit = false := by
    intro c hc
    cases hc
    rfl
  have hscan := scan_intercalate hcs hlen (')' :: rest) hbracket
  have hnumbers : a.numbers.map toLong = a.numbers := by
    refine (List.map_congr_left fun v hv => toLong_eq (numbers_bounded ha v hv)).trans ?_
    exact List.map_id' _
  rw [parseArea, hscan, hnumbers]
  rfl

theorem exists_right {α β : Type} {R : α → β → Prop} {xs : List α} {ys : List β}
    (h : List.Forall₂ R xs ys) : ∀ x ∈ xs, ∃ y, R x y := by
  induction h with
  | nil => simp
  | cons hxy _ ih => exact forall_mem_cons.mpr ⟨⟨_, hxy⟩, ih⟩

theorem numerals_of_read (h : List.Forall₂ Read cs vs) (hcs : ∀ f ∈ cs, f ≠ [])
    (hvs : ∀ v ∈ vs, -1000 ≤ v ∧ v ≤ 1000) :
    List.Forall₂ Numeral cs vs := by
  induction h with
  | nil => exact .nil
  | cons hread _ ih =>
    obtain ⟨hc, hcs⟩ := forall_mem_cons.mp hcs
    obtain ⟨hv, hvs⟩ := forall_mem_cons.mp hvs
    refine .cons ?_ (ih hcs hvs)
    rcases hread with ⟨hnil, -⟩ | ⟨w, hw, hvw⟩
    · exact absurd hnil hc
    · rwa [eq_of_toLong hv hvw]

theorem begins_iff (h : parseArea p = some a) (ha : checkArea a = .noError) :
    Begins p a ↔ ∀ f ∈ fields p, f ≠ [] := by
  constructor
  · rintro ⟨cs, rest, rfl, hcs⟩
    have hnumeral := exists_right hcs
    have hne : cs ≠ [] := by
      rintro rfl
      cases hcs
    rw [fields_eq hne fun f hf => numeral_clean (hnumeral f hf).choose_spec]
    intro f hf
    exact (hnumeral f hf).choose_spec.ne_nil
  · intro hfields
    obtain ⟨cs, rest, rfl, hcs, hne⟩ := parseArea_eq_some h
    rw [fields_eq hne fun f hf => (exists_right hcs f hf).choose_spec.clean] at hfields
    exact ⟨cs, rest, rfl, numerals_of_read hcs hfields (numbers_bounded ha)⟩

/-! ## Strings -/

theorem parsePieces_eq {before after : List CameraArea}
    (h : parsePieces ps before = (.noError, after)) : ∃ as, after = before ++ as ∧
      List.Forall₂ (fun p a => parseArea p = some a ∧ checkArea a = .noError) ps as := by
  induction ps generalizing before with
  | nil =>
    cases h
    exact ⟨[], (append_nil _).symm, .nil⟩
  | cons p ps ih =>
    rw [parsePieces] at h
    split at h
    next => cases h
    next a ha =>
      split at h
      next hcheck =>
        obtain ⟨as, rfl, has⟩ := ih h
        exact ⟨a :: as, by simp, .cons ⟨ha, hcheck⟩ has⟩
      next => cases h

theorem parsePieces_of_parsed {as : List CameraArea}
    (h : List.Forall₂ (fun p a => parseArea p = some a ∧ checkArea a = .noError) ps as)
    (before : List CameraArea) : parsePieces ps before = (.noError, before ++ as) := by
  induction h generalizing before with
  | nil => rw [parsePieces, append_nil]
  | cons hp _ ih =>
    rw [parsePieces, hp.1]
    simp only [if_pos hp.2]
    rw [ih, append_assoc]
    rfl

theorem parseAreas_eq (s : List Char) (areas : List CameraArea) :
    parseAreas s areas =
      if pieces s = [] then (.einval, areas) else parsePieces (pieces s) areas := by
  rw [parseAreas, strtokAll_eq (Nat.lt_succ_self _)]
  show (match pieces s with
    | [] => (Status.einval, areas)
    | ps => parsePieces ps areas) = _
  cases pieces s <;> rfl

theorem forall_begins_iff {as : List CameraArea}
    (h : List.Forall₂ (fun p a => parseArea p = some a ∧ checkArea a = .noError) ps as) :
    List.Forall₂ (fun p a => Begins p a ∧ checkArea a = .noError) ps as ↔
      ∀ p ∈ ps, ∀ f ∈ fields p, f ≠ [] := by
  induction h with
  | nil => simp
  | cons hp _ ih =>
    rw [List.forall₂_cons, forall_mem_cons, ih, begins_iff hp.1 hp.2]
    exact and_congr_left fun _ => and_iff_left hp.2

theorem split_iff {s : List Char} {before after : List CameraArea}
    (h : parseAreas s before = (.noError, after)) :
    (∃ as, after = before ++ as ∧ Split s as) ↔ NoEmptyField s := by
  rw [parseAreas_eq] at h
  split at h
  next => cases h
  next hne =>
    obtain ⟨as, rfl, has⟩ := parsePieces_eq h
    rw [NoEmptyField, ← forall_begins_iff has]
    constructor
    · rintro ⟨as', heq, -, hsplit⟩
      rwa [List.append_cancel_left heq]
    · intro hsplit
      exact ⟨as, rfl, hne, hsplit⟩

/-! ## Areas that are written out -/

theorem showInt_clean (v : Int) : ∀ c ∈ showInt v, c ≠ '(' := by
  intro c hc hbracket
  exact absurd (hbracket ▸ (numeral_showInt v).mem hc) (by decide)

/-- What is behind the opening bracket of an area. -/
def body (a : CameraArea) : List Char := [','].intercalate (a.numbers.map showInt) ++ [')']

theorem body_clean (a : CameraArea) : '(' ∉ body a := by
  intro hmem
  rcases mem_append.mp hmem with hnumbers | hend
  · rcases mem_intercalate hnumbers with hsep | ⟨f, hf, hc⟩
    · exact absurd hsep (by decide)
    · obtain ⟨v, -, rfl⟩ := List.mem_map.mp hf
      exact showInt_clean v _ hc rfl
  · exact absurd (List.mem_singleton.mp hend) (by decide)

theorem begins_body (a : CameraArea) (e : List Char) : Begins (body a ++ e) a := by
  refine ⟨a.numbers.map showInt, e, by rw [body, append_assoc]; rfl, ?_⟩
  rw [List.forall₂_map_left_iff, List.forall₂_same]
  exact fun v _ => numeral_showInt v

theorem format_cons (a : CameraArea) (areas : List CameraArea) :
    ∃ e, format (a :: areas) = '(' :: (body a ++ e) ∧
      (areas = [] ∧ e = [] ∨ areas ≠ [] ∧ e = ',' :: format areas) := by
  cases areas with
  | nil => exact ⟨[], by simp [format, formatArea, body], Or.inl ⟨rfl, rfl⟩⟩
  | cons b areas =>
    refine ⟨_, ?_, Or.inr ⟨cons_ne_nil _ _, rfl⟩⟩
    have hne : (b :: areas).map formatArea ≠ [] := cons_ne_nil _ _
    rw [format, List.map_cons, List.intercalate_cons_of_ne_nil hne, formatArea, format]
    simp [body]

theorem splitOn_format {areas : List CameraArea} (hne : areas ≠ []) :
    ∃ ps, (format areas).splitOn '(' = [] :: ps ∧ List.Forall₂ Begins ps areas := by
  induction areas with
  | nil => exact absurd rfl hne
  | cons a areas ih =>
    obtain ⟨e, htext, hrest⟩ := format_cons a areas
    have hfirst : (format (a :: areas)).splitOn '(' = [] :: (body a ++ e).splitOn '(' := by
      rw [htext]
      exact List.splitOn_append_cons_self_of_not_mem not_mem_nil (body a ++ e)
    rcases hrest with ⟨rfl, rfl⟩ | ⟨hareas, rfl⟩
    · refine ⟨[body a], ?_, .cons ?_ .nil⟩
      · rw [hfirst, append_nil, List.splitOn_eq_singleton (body_clean a)]
      · simpa using begins_body a []
    · obtain ⟨ps, hps, hbegins⟩ := ih hareas
      refine ⟨(body a ++ [',']) :: ps, ?_, .cons (begins_body a [',']) hbegins⟩
      obtain ⟨b, areas, rfl⟩ := List.exists_cons_of_ne_nil hareas
      obtain ⟨e', htext', -⟩ := format_cons b areas
      rw [htext'] at hps
      have hclean : '(' ∉ body a ++ [','] := by
        simp [body_clean a]
      have hrest : (body b ++ e').splitOn '(' = ps := by
        have hhead := List.splitOn_append_cons_self_of_not_mem
          (show '(' ∉ [] from not_mem_nil) (body b ++ e')
        exact (List.cons.inj (hhead.symm.trans hps)).2
      have hcut : body a ++ ',' :: '(' :: (body b ++ e') =
          (body a ++ [',']) ++ '(' :: (body b ++ e') := by simp
      rw [hfirst, htext', hcut, List.splitOn_append_cons_self_of_not_mem hclean, hrest]

theorem Begins.ne_nil (h : Begins p a) : p ≠ [] := by
  obtain ⟨cs, rest, rfl, -⟩ := h
  simp

theorem parseAreas_format {areas : List CameraArea} (hne : areas ≠ [])
    (haccepted : ∀ a ∈ areas, checkArea a = .noError) (before : List CameraArea) :
    parseAreas (format areas) before = (.noError, before ++ areas) := by
  obtain ⟨ps, hsplit, hbegins⟩ := splitOn_format hne
  have hpieces : pieces (format areas) = ps := by
    have hkeep : ∀ p ∈ ps, decide (p ≠ []) = true := by
      intro p hp
      obtain ⟨a, ha⟩ := exists_right hbegins p hp
      exact decide_eq_true ha.ne_nil
    rw [pieces, hsplit]
    exact List.filter_eq_self.mpr hkeep
  have hps : ps ≠ [] := by
    rintro rfl
    cases hbegins
    exact hne rfl
  have hparsed :
      List.Forall₂ (fun p a => parseArea p = some a ∧ checkArea a = .noError) ps areas := by
    clear hsplit hpieces hps hne
    induction hbegins with
    | nil => exact .nil
    | cons hp _ ih =>
      obtain ⟨ha, hrest⟩ := forall_mem_cons.mp haccepted
      exact .cons ⟨parseArea_begins hp ha, ha⟩ (ih hrest)
  rw [parseAreas_eq, hpieces, if_neg hps, parsePieces_of_parsed hparsed]

/-! ## The round trip -/

/-- Written areas are read back, and the areas read from a text are the ones that are written in it,
exactly if the text has no empty field. -/
theorem round_trip_iff (s : List Char) (before after : List CameraArea)
    (h : parseAreas s before = (.noError, after)) :
    ((∀ areas ≠ [], (∀ a ∈ areas, checkArea a = .noError) →
        parseAreas (format areas) before = (.noError, before ++ areas)) ∧
      ∃ as, after = before ++ as ∧ Split s as) ↔ NoEmptyField s := by
  rw [split_iff h]
  exact and_iff_right fun areas hne haccepted => parseAreas_format hne haccepted before

/-- A text with one area. -/
theorem round_trip_one :
    parseAreas "(-10,-20,30,40,5)".toList [] = (.noError, [⟨-20, -10, 40, 30, 5⟩]) ∧
      (((∀ areas ≠ [], (∀ a ∈ areas, checkArea a = .noError) →
          parseAreas (format areas) [] = (.noError, [] ++ areas)) ∧
        ∃ as, [⟨-20, -10, 40, 30, 5⟩] = [] ++ as ∧ Split "(-10,-20,30,40,5)".toList as) ↔
          NoEmptyField "(-10,-20,30,40,5)".toList) :=
  ⟨by decide, round_trip_iff _ _ _ (by decide)⟩

/-- Four commas are the area of all zeros. -/
theorem empty_fields_accepted : ¬ ∀ (s : List Char) (before after : List CameraArea),
    parseAreas s before = (.noError, after) →
      (∀ areas ≠ [], (∀ a ∈ areas, checkArea a = .noError) →
        parseAreas (format areas) before = (.noError, before ++ areas)) ∧
      ∃ as, after = before ++ as ∧ Split s as := by
  intro hall
  have hzero : parseAreas "(,,,,)".toList [] = (.noError, [⟨0, 0, 0, 0, 0⟩]) := by decide
  have hsplit := (split_iff hzero).mp (hall _ _ _ hzero).2
  exact hsplit ",,,,)".toList (by decide) [] (by decide) rfl

end Omap4Hal.Camera.AreaText
