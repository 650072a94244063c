import Mathlib.Data.List.Infix
import Kross.Tools.Glob

namespace Kross.Tools.Glob

open Wildcard Lines

abbrev Segment := List CodeUnit

/-- The segment that stands for any number of segments. -/
def deep : Segment := [star, star]

def atom (c : CodeUnit) : Piece CodeUnit :=
  if c = star then .many (· ≠ slash) else if c = question then .one (· ≠ slash) else .one (· = c)

def segmentMatches (q s : Segment) : Bool := accepts (q.map atom) s

/-- The lists of path segments a list of pattern segments stands for. -/
def language : List Segment → List Segment → Bool
  | [], ss => ss.isEmpty
  | q :: qs, ss =>
    if q = deep then ss.tails.any (fun rest => language qs rest)
    else match ss with
      | [] => false
      | s :: rest => segmentMatches q s && language qs rest

/-- A relative path, by its segments. -/
structure RelativePath where
  segments : List Segment
  nonempty : segments ≠ []
  proper : ∀ s ∈ segments, s ≠ [] ∧ slash ∉ s

def RelativePath.text (path : RelativePath) : List CodeUnit := join slash path.segments

/-- An alternative of a pattern segment by segment; a pattern without a slash matches at any depth. -/
def reading (pattern alternative : List CodeUnit) : List Segment :=
  if slash ∈ trim pattern then alternative.splitOn slash else deep :: alternative.splitOn slash

def alternatives (pattern : List CodeUnit) : List (List Segment) :=
  (expandGlobBraces (trim pattern)).map (reading pattern)

def inLanguage (pattern : List CodeUnit) (path : RelativePath) : Bool :=
  (alternatives pattern).any (fun qs => language qs path.segments)

section Compiling

variable {q t : List CodeUnit}

theorem compileGlob_deep_slash (t : List CodeUnit) :
    compileGlob (deep ++ slash :: t) = .many (fun c => !isLineTerminator c) :: compileGlob t := rfl

theorem compileGlob_deep (h : t.head? ≠ some slash) :
    compileGlob (star :: star :: t) = .many (fun c => !isLineTerminator c) :: compileGlob t := by
  cases t with
  | nil => rfl
  | cons c t =>
      have hc : c ≠ slash := fun hc => h (by rw [hc]; rfl)
      refine compileGlob.eq_3 (c :: t) fun rest hrest => ?_
      exact hc (List.cons_eq_cons.mp hrest).1

theorem compileGlob_star (h : t.head? ≠ some star) : compileGlob (star :: t) = atom star :: compileGlob t := by
  cases t with
  | nil => rfl
  | cons c t =>
      have hc : c ≠ star := fun hc => h (by rw [hc]; rfl)
      refine compileGlob.eq_4 (c :: t) (fun rest hrest => ?_) (fun rest hrest => ?_)
      · exact hc (List.cons_eq_cons.mp hrest).1
      · exact hc (List.cons_eq_cons.mp hrest).1

theorem compileGlob_other {c : CodeUnit} (h : c ≠ star) : compileGlob (c :: t) = atom c :: compileGlob t := by
  by_cases hc : c = question
  · subst hc
    rfl
  · rw [atom, if_neg h, if_neg hc]
    exact compileGlob.eq_6 c t (fun _ hstar => absurd hstar h) (fun _ hstar => absurd hstar h) h hc

theorem compileGlob_plain (hq : ¬ deep <:+: q) (ht : t.head? ≠ some star) :
    compileGlob (q ++ t) = q.map atom ++ compileGlob t := by
  induction q with
  | nil => rfl
  | cons c q ih =>
      have hrest : ¬ deep <:+: q := fun h => hq (h.trans (List.suffix_cons c q).isInfix)
      rw [List.cons_append, List.map_cons, List.cons_append, ← ih hrest]
      by_cases hc : c = star
      · subst hc
        refine compileGlob_star fun h => ?_
        cases q with
        | nil => exact ht h
        | cons d q =>
            obtain rfl : d = star := Option.some.inj h
            exact hq (List.prefix_append [star, star] q).isInfix
      · exact compileGlob_other hc

end Compiling

section Matching

variable {q x : Segment} {qs post ss : List Segment}

theorem segmentMatches_noSlash (hq : slash ∉ q) (h : segmentMatches q x = true) : slash ∉ x := by
  intro hmem
  obtain ⟨piece, hpiece, htakes⟩ := taken_of_accepts h slash hmem
  obtain ⟨c, hc, rfl⟩ := List.mem_map.mp hpiece
  rw [atom] at htakes
  split_ifs at htakes
  · simp [Piece.Takes] at htakes
  · simp [Piece.Takes] at htakes
  · have hslash : slash = c := by simpa [Piece.Takes] using htakes
    exact hq (hslash ▸ hc)

/-- What is behind a segment of the pattern, and behind the segment of the path that it matches. -/
def Follows (qs post : List Segment) : Prop :=
  (qs = [] ∧ post = []) ∨
    (qs ≠ [] ∧ post ≠ [] ∧ accepts (compileGlob (join slash qs)) (join slash post) = true)

theorem compileGlob_join_cons (hq : ¬ deep <:+: q) (hqs : qs ≠ []) :
    compileGlob (join slash (q :: qs)) = q.map atom ++ atom slash :: compileGlob (join slash qs) := by
  have hne : slash ≠ star := by decide
  rw [join_cons q hqs, compileGlob_plain hq (by simpa using hne), compileGlob_other hne]

theorem compileGlob_segment (hq : ¬ deep <:+: q) : compileGlob q = q.map atom := by
  have h := compileGlob_plain hq (t := []) (by simp)
  rwa [List.append_nil, compileGlob, List.append_nil] at h

theorem accepts_slash {pieces : List (Piece CodeUnit)} {text : List CodeUnit} :
    accepts (atom slash :: pieces) text = true ↔ ∃ rest, text = slash :: rest ∧ accepts pieces rest = true := by
  have hatom : atom slash = .one (· = slash) := rfl
  rw [hatom, accepts_one]
  constructor
  · rintro ⟨c, rest, rfl, hc, h⟩
    exact ⟨rest, by rw [of_decide_eq_true hc], h⟩
  · rintro ⟨rest, rfl, h⟩
    exact ⟨slash, rest, rfl, by simp, h⟩

/-- A segment of the pattern that does not stand for several takes the first one of a path. -/
theorem accepts_join_cons (hq : ¬ deep <:+: q) (hslash : slash ∉ q) (hx : slash ∉ x) :
    accepts (compileGlob (join slash (q :: qs))) (join slash (x :: post)) = true ↔
      segmentMatches q x = true ∧ Follows qs post := by
  by_cases hqs : qs = []
  · subst hqs
    have hjoin : join slash [q] = q := by simp [join]
    rw [hjoin, compileGlob_segment hq]
    by_cases hpost : post = []
    · subst hpost
      simp [join, Follows, segmentMatches]
    · constructor
      · intro h
        have hnot := segmentMatches_noSlash hslash h
        rw [join_cons x hpost] at hnot
        exact absurd (by simp) hnot
      · rintro ⟨-, ⟨-, hempty⟩ | ⟨hempty, -⟩⟩
        · exact absurd hempty hpost
        · exact absurd rfl hempty
  · rw [compileGlob_join_cons hq hqs, accepts_append]
    constructor
    · rintro ⟨start, end', htext, hstart, hend⟩
      obtain ⟨rest, rfl, hrest⟩ := accepts_slash.mp hend
      have hpost : post ≠ [] := by
        rintro rfl
        rw [join, List.intercalate_singleton] at htext
        exact hx (by simp [htext])
      rw [join_cons x hpost] at htext
      obtain ⟨rfl, rfl⟩ := cut_unique hx (segmentMatches_noSlash hslash hstart) htext
      exact ⟨hstart, Or.inr ⟨hqs, hpost, hrest⟩⟩
    · rintro ⟨hmatch, ⟨hempty, -⟩ | ⟨-, hpost, hrest⟩⟩
      · exact absurd hempty hqs
      · exact ⟨x, slash :: join slash post, join_cons x hpost, hmatch, accepts_slash.mpr ⟨_, rfl, hrest⟩⟩

end Matching

section Language

variable {q : Segment} {qs ss post : List Segment}

theorem language_deep :
    language (deep :: qs) ss = true ↔ ∃ rest, rest <:+ ss ∧ language qs rest = true := by
  rw [language.eq_def]
  simp only [if_pos, List.any_eq_true, List.mem_tails]

theorem language_cons (h : q ≠ deep) :
    language (q :: qs) ss = true ↔
      ∃ s rest, ss = s :: rest ∧ segmentMatches q s = true ∧ language qs rest = true := by
  rw [language.eq_def]
  cases ss with
  | nil => simp [h]
  | cons s rest => simp [h]

/-- The pattern without the segments at its end that stand for any number of segments. -/
def stop : List Segment → List Segment
  | [] => []
  | q :: qs => if q = deep ∧ stop qs = [] then [] else q :: stop qs

theorem stop_cons (h : q ≠ deep) : stop (q :: qs) = q :: stop qs := by
  rw [stop, if_neg (fun hand => h hand.1)]

theorem stop_deep (h : stop qs ≠ []) : stop (deep :: qs) = deep :: stop qs := by
  rw [stop, if_neg (fun hand => h hand.2)]

theorem stop_of_language_nil (h : language qs [] = true) : stop qs = [] := by
  induction qs with
  | nil => rfl
  | cons q qs ih =>
      by_cases hq : q = deep
      · subst hq
        obtain ⟨rest, hrest, h⟩ := language_deep.mp h
        rw [List.suffix_nil.mp hrest] at h
        rw [stop, if_pos ⟨rfl, ih h⟩]
      · obtain ⟨s, rest, hnil, -⟩ := (language_cons hq).mp h
        cases hnil

/-- The pattern reaches into the path beyond what is in front of its trailing `**`. -/
def Beyond (qs ss : List Segment) : Prop := stop qs ≠ qs → language (stop qs) ss = false

theorem follows_iff (h : qs ≠ [] → post ≠ [] →
      (accepts (compileGlob (join slash qs)) (join slash post) = true ↔ language qs post = true))
    (hbeyond : Beyond qs post) : Follows qs post ↔ language qs post = true := by
  constructor
  · rintro (⟨rfl, rfl⟩ | ⟨hqs, hpost, haccepts⟩)
    · rfl
    · exact (h hqs hpost).mp haccepts
  · intro hlanguage
    by_cases hqs : qs = []
    · subst hqs
      exact Or.inl ⟨rfl, List.isEmpty_iff.mp hlanguage⟩
    · by_cases hpost : post = []
      · subst hpost
        have hstop := stop_of_language_nil hlanguage
        have hfalse := hbeyond (by rw [hstop]; exact Ne.symm hqs)
        rw [hstop] at hfalse
        cases hfalse
      · exact Or.inr ⟨hqs, hpost, (h hqs hpost).mpr hlanguage⟩

theorem beyond_rest (hq : q ≠ deep) {s : Segment} (hmatch : segmentMatches q s = true)
    (h : Beyond (q :: qs) (s :: post)) : Beyond qs post := by
  intro hstop
  rw [Beyond, stop_cons hq] at h
  have hfalse := h fun heq => hstop (List.cons_eq_cons.mp heq).2
  by_contra hlanguage
  rw [Bool.not_eq_false] at hlanguage
  rw [(language_cons hq).mpr ⟨s, post, rfl, hmatch, hlanguage⟩] at hfalse
  cases hfalse

theorem beyond_deep (h : Beyond (deep :: qs) ss) (hstop : stop qs ≠ []) {rest : List Segment}
    (hrest : rest <:+ ss) : Beyond qs rest := by
  intro hne
  rw [Beyond, stop_deep hstop] at h
  have hfalse := h fun heq => hne (List.cons_eq_cons.mp heq).2
  by_contra hlanguage
  rw [Bool.not_eq_false] at hlanguage
  rw [language_deep.mpr ⟨rest, hrest, hlanguage⟩] at hfalse
  cases hfalse

end Language

/-- Where the pattern segment takes an end of a segment, it takes the segment. -/
def Aligned (q : Segment) (ss : List Segment) : Prop :=
  ∀ s ∈ ss, ∀ x ∈ s.tails, segmentMatches q x = true → segmentMatches q s = true

/-- A pattern segment that is not `**` has no `**` in it, and behind `**` segments it is aligned with the
path; there it may begin with `**`. -/
def Regular (ss : List Segment) : Bool → List Segment → Prop
  | _, [] => True
  | floating, q :: qs =>
    if q = deep then Regular ss true qs
    else (if floating then (¬ deep <:+: q ∨ deep <+: q ∧ ¬ deep <:+: q.drop 2) ∧ Aligned q ss else ¬ deep <:+: q) ∧
      Regular ss false qs

/-- Each `**` of the pattern is read as a segment of the path would have it. -/
structure WellPlaced (qs : List Segment) (path : RelativePath) : Prop where
  regular : Regular path.segments false qs
  unbroken : (∃ q ∈ qs, deep <+: q) → ∀ c ∈ path.text, isLineTerminator c = false
  beyond : Beyond qs path.segments

section Agreement

variable {path ss : List Segment} {q : Segment} {qs : List Segment}

/-- Any number of letters that end no line. -/
def anything : Piece CodeUnit := .many (fun c => !isLineTerminator c)

theorem compileGlob_join_deep (qs : List Segment) :
    compileGlob (join slash (deep :: qs)) = anything :: compileGlob (join slash qs) := by
  by_cases hqs : qs = []
  · subst hqs
    rfl
  · rw [join_cons deep hqs, compileGlob_deep_slash, anything]

theorem compileGlob_join_begins (r : Segment) (hr : slash ∉ r) (hne : r ≠ []) (qs : List Segment) :
    compileGlob (join slash ((deep ++ r) :: qs)) = anything :: compileGlob (join slash (r :: qs)) := by
  have hhead : ∀ t : List CodeUnit, (r ++ t).head? ≠ some slash := by
    intro t
    obtain ⟨c, r, rfl⟩ := List.exists_cons_of_ne_nil hne
    intro h
    obtain rfl : c = slash := Option.some.inj h
    exact hr (by simp)
  by_cases hqs : qs = []
  · subst hqs
    have hjoin (q : Segment) : join slash [q] = q := by simp [join]
    rw [hjoin, hjoin, ← List.append_nil r]
    exact compileGlob_deep (hhead [])
  · rw [join_cons _ hqs, join_cons r hqs]
    exact compileGlob_deep (hhead _)

theorem accepts_anything {pieces : List (Piece CodeUnit)} {text : List CodeUnit}
    (h : ∀ c ∈ text, isLineTerminator c = false) :
    accepts (anything :: pieces) text = true ↔ ∃ rest, rest <:+ text ∧ accepts pieces rest = true :=
  accepts_many_of_all fun c hc => by simp [h c hc]

theorem segmentMatches_begins (r : Segment) {s : Segment} (hs : slash ∉ s) :
    segmentMatches (deep ++ r) s = true ↔ ∃ x, x <:+ s ∧ segmentMatches r x = true := by
  have hall : ∀ c ∈ s, decide (c ≠ slash) = true := fun c hc => by
    simpa using fun h : c = slash => hs (h ▸ hc)
  exact accepts_many_many.trans (accepts_many_of_all hall)

/-- The compiled pattern takes, of the segments it is given, the lists it stands for. -/
def Anchored (path qs : List Segment) : Prop :=
  ∀ ss, ss ≠ [] → ss <:+ path → qs ≠ [] → Regular path false qs → Beyond qs ss →
    (accepts (compileGlob (join slash qs)) (join slash ss) = true ↔ language qs ss = true)

/-- The same behind a `**`, where the compiled pattern may begin anywhere. -/
def Floating (path qs : List Segment) : Prop :=
  ∀ ss, ss ≠ [] → ss <:+ path → Regular path true qs → (stop qs ≠ [] → ∀ rest, rest <:+ ss → Beyond qs rest) →
    ((∃ text, text <:+ join slash ss ∧ accepts (compileGlob (join slash qs)) text = true) ↔
      ∃ rest, rest <:+ ss ∧ language qs rest = true)

def Unbroken (path : List Segment) : Prop := ∀ c ∈ join slash path, isLineTerminator c = false

theorem Unbroken.suffix (h : Unbroken path) (hne : ss ≠ []) (hss : ss <:+ path) {text : List CodeUnit}
    (htext : text <:+ join slash ss) : ∀ c ∈ text, isLineTerminator c = false :=
  fun c hc => h c ((htext.trans (join_suffix hne hss)).subset hc)

theorem exists_anything (h : Unbroken path) (hne : ss ≠ []) (hss : ss <:+ path) {pieces : List (Piece CodeUnit)} :
    (∃ text, text <:+ join slash ss ∧ accepts (anything :: pieces) text = true) ↔
      ∃ text, text <:+ join slash ss ∧ accepts pieces text = true := by
  constructor
  · rintro ⟨text, htext, haccepts⟩
    obtain ⟨rest, hrest, h⟩ := (accepts_anything (h.suffix hne hss htext)).mp haccepts
    exact ⟨rest, hrest.trans htext, h⟩
  · rintro ⟨text, htext, haccepts⟩
    exact ⟨text, htext, (accepts_anything (h.suffix hne hss htext)).mpr ⟨text, List.suffix_rfl, haccepts⟩⟩

theorem exists_language_deep :
    (∃ rest, rest <:+ ss ∧ language (deep :: qs) rest = true) ↔ ∃ rest, rest <:+ ss ∧ language qs rest = true := by
  constructor
  · rintro ⟨rest, hrest, h⟩
    obtain ⟨more, hmore, h⟩ := language_deep.mp h
    exact ⟨more, hmore.trans hrest, h⟩
  · rintro ⟨rest, hrest, h⟩
    exact ⟨rest, hrest, language_deep.mpr ⟨rest, List.suffix_rfl, h⟩⟩

theorem Regular.behind {b : Bool} (h : Regular path b (deep :: qs)) : Regular path true qs := by
  rwa [Regular, if_pos rfl] at h

theorem anchored_deep (hpath : Unbroken path) (h : Floating path qs) : Anchored path (deep :: qs) := by
  intro ss hne hss _ hregular hbeyond
  rw [compileGlob_join_deep, language_deep, accepts_anything (hpath.suffix hne hss List.suffix_rfl)]
  exact h ss hne hss hregular.behind fun hstop rest hrest => beyond_deep hbeyond hstop hrest

theorem floating_deep (hpath : Unbroken path) (h : Floating path qs) : Floating path (deep :: qs) := by
  intro ss hne hss hregular hbeyond
  rw [compileGlob_join_deep, exists_anything hpath hne hss, exists_language_deep]
  refine h ss hne hss hregular.behind fun hstop rest hrest => ?_
  have hcons : stop (deep :: qs) ≠ [] := by
    rw [stop_deep hstop]
    exact List.cons_ne_nil _ _
  exact beyond_deep (hbeyond hcons rest hrest) hstop List.suffix_rfl

theorem anchored_segment (hpath : ∀ s ∈ path, slash ∉ s) (hq : q ≠ deep) (hslash : slash ∉ q) (h : Anchored path qs) :
    Anchored path (q :: qs) := by
  intro ss hne hss _ hregular hbeyond
  obtain ⟨s, rest, rfl⟩ := List.exists_cons_of_ne_nil hne
  rw [Regular, if_neg hq, if_neg Bool.false_ne_true] at hregular
  rw [accepts_join_cons hregular.1 hslash (hpath s (hss.subset (by simp))), language_cons hq]
  have hrest : rest <:+ path := (List.suffix_cons s rest).trans hss
  have hfollows (hmatch : segmentMatches q s = true) : Follows qs rest ↔ language qs rest = true := by
    have hb := beyond_rest hq hmatch hbeyond
    exact follows_iff (fun hqs hnil => h rest hnil hrest hqs hregular.2 hb) hb
  constructor
  · rintro ⟨hmatch, hf⟩
    exact ⟨s, rest, rfl, hmatch, (hfollows hmatch).mp hf⟩
  · rintro ⟨_, _, heq, hmatch, hlanguage⟩
    obtain ⟨rfl, rfl⟩ := List.cons_eq_cons.mp heq
    exact ⟨hmatch, (hfollows hmatch).mpr hlanguage⟩

/-- What a segment looks for inside the segments of a path when it may begin anywhere. -/
structure Core (path : List Segment) (q : Segment) (qs : List Segment) (r : Segment) : Prop where
  plain : ¬ deep <:+: r
  noSlash : slash ∉ r
  found : ∀ s ∈ path, (∃ x, x <:+ s ∧ segmentMatches r x = true) ↔ segmentMatches q s = true
  compiled : ∀ ss, ss ≠ [] → ss <:+ path →
    ((∃ text, text <:+ join slash ss ∧ accepts (compileGlob (join slash (q :: qs))) text = true) ↔
      ∃ text, text <:+ join slash ss ∧ accepts (compileGlob (join slash (r :: qs))) text = true)

theorem exists_core (hpath : ∀ s ∈ path, slash ∉ s) (hunbroken : deep <+: q → Unbroken path) (hq : q ≠ deep)
    (hslash : slash ∉ q) (hregular : Regular path true (q :: qs)) : ∃ r, Core path q qs r := by
  rw [Regular, if_neg hq, if_pos rfl] at hregular
  obtain ⟨⟨hplain | ⟨⟨r, rfl⟩, hplain⟩, haligned⟩, -⟩ := hregular
  · refine ⟨q, hplain, hslash, fun s hs => ⟨?_, fun h => ⟨s, List.suffix_rfl, h⟩⟩, fun _ _ _ => Iff.rfl⟩
    rintro ⟨x, hx, hmatch⟩
    exact haligned s hs x ((List.mem_tails x s).mpr hx) hmatch
  · have hr : slash ∉ r := fun h => hslash (List.mem_append_right _ h)
    refine ⟨r, hplain, hr, fun s hs => (segmentMatches_begins r (hpath s hs)).symm, fun ss hne hss => ?_⟩
    rw [compileGlob_join_begins r hr (by rintro rfl; exact hq rfl)]
    exact exists_anything (hunbroken (List.prefix_append _ _)) hne hss

theorem exists_accepts_join {r : Segment} (hpath : ∀ s ∈ path, slash ∉ s) (hr : ¬ deep <:+: r) (hslash : slash ∉ r)
    (hne : ss ≠ []) (hss : ss <:+ path) :
    (∃ text, text <:+ join slash ss ∧ accepts (compileGlob (join slash (r :: qs))) text = true) ↔
      ∃ s rest, s :: rest <:+ ss ∧ (∃ x, x <:+ s ∧ segmentMatches r x = true) ∧ Follows qs rest := by
  have hnoSlash {s : Segment} {rest : List Segment} (h : s :: rest <:+ ss) : slash ∉ s :=
    hpath s ((h.trans hss).subset (by simp))
  constructor
  · rintro ⟨text, htext, haccepts⟩
    obtain ⟨s, rest, x, hrest, hx, rfl⟩ := exists_of_suffix_join hne htext
    have hcons := (accepts_join_cons hr hslash (fun h => hnoSlash hrest (hx.subset h))).mp haccepts
    exact ⟨s, rest, hrest, ⟨x, hx, hcons.1⟩, hcons.2⟩
  · rintro ⟨s, rest, hrest, ⟨x, hx, hmatch⟩, hfollows⟩
    refine ⟨join slash (x :: rest), ?_, ?_⟩
    · refine List.IsSuffix.trans ?_ (join_suffix (List.cons_ne_nil s rest) hrest)
      by_cases hnil : rest = []
      · subst hnil
        simpa [join] using hx
      · rw [join_cons x hnil, join_cons s hnil]
        exact List.suffix_append_self_iff.mpr hx
    · exact (accepts_join_cons hr hslash (fun h => hnoSlash hrest (hx.subset h))).mpr ⟨hmatch, hfollows⟩

theorem floating_segment (hpath : ∀ s ∈ path, slash ∉ s) (hunbroken : deep <+: q → Unbroken path) (hq : q ≠ deep)
    (hslash : slash ∉ q) (h : Anchored path qs) : Floating path (q :: qs) := by
  intro ss hne hss hregular hbeyond
  obtain ⟨r, hcore⟩ := exists_core hpath hunbroken hq hslash hregular
  rw [hcore.compiled ss hne hss, exists_accepts_join hpath hcore.plain hcore.noSlash hne hss]
  rw [Regular, if_neg hq] at hregular
  have hstop : stop (q :: qs) ≠ [] := by
    rw [stop_cons hq]
    exact List.cons_ne_nil _ _
  have hfollows {s : Segment} {rest : List Segment} (hs : s :: rest <:+ ss) (hmatch : segmentMatches q s = true) :
      Follows qs rest ↔ language qs rest = true := by
    have hb := beyond_rest hq hmatch (hbeyond hstop _ hs)
    have hrest : rest <:+ path := (List.suffix_cons s rest).trans (hs.trans hss)
    exact follows_iff (fun hqs hnil => h rest hnil hrest hqs hregular.2 hb) hb
  have hmem {s : Segment} {rest : List Segment} (hs : s :: rest <:+ ss) : s ∈ path := (hs.trans hss).subset (by simp)
  constructor
  · rintro ⟨s, rest, hs, hx, hf⟩
    have hmatch := (hcore.found s (hmem hs)).mp hx
    exact ⟨s :: rest, hs, (language_cons hq).mpr ⟨s, rest, rfl, hmatch, (hfollows hs hmatch).mp hf⟩⟩
  · rintro ⟨_, hs, hlanguage⟩
    obtain ⟨s, rest, rfl, hmatch, hrest⟩ := (language_cons hq).mp hlanguage
    exact ⟨s, rest, hs, (hcore.found s (hmem hs)).mpr hmatch, (hfollows hs hmatch).mpr hrest⟩

/-- The compiled pattern read from the beginning of a path, and from anywhere inside it. -/
theorem agrees (hpath : ∀ s ∈ path, slash ∉ s) (hunbroken : (∃ q ∈ qs, deep <+: q) → Unbroken path)
    (hqs : ∀ q ∈ qs, slash ∉ q) : Anchored path qs ∧ Floating path qs := by
  induction qs with
  | nil =>
      refine ⟨fun _ _ _ h => absurd rfl h, fun ss _ _ _ _ => ?_⟩
      exact iff_of_true ⟨[], List.nil_suffix, rfl⟩ ⟨[], List.nil_suffix, rfl⟩
  | cons q qs ih =>
      obtain ⟨anchored, floating⟩ := ih (fun ⟨q, hmem, h⟩ => hunbroken ⟨q, by simp [hmem], h⟩)
        (fun q hmem => hqs q (by simp [hmem]))
      have hfirst : deep <+: q → Unbroken path := fun h => hunbroken ⟨q, by simp, h⟩
      by_cases hq : q = deep
      · subst hq
        exact ⟨anchored_deep (hfirst List.prefix_rfl) floating, floating_deep (hfirst List.prefix_rfl) floating⟩
      · have hslash := hqs q (by simp)
        exact ⟨anchored_segment hpath hq hslash anchored, floating_segment hpath hfirst hq hslash anchored⟩

end Agreement

section Patterns

variable {pattern alternative : List CodeUnit} {path : RelativePath}

theorem WellPlaced.accepts_iff {qs : List Segment} (h : WellPlaced qs path) (hne : qs ≠ []) (hqs : ∀ q ∈ qs, slash ∉ q) :
    accepts (compileGlob (join slash qs)) path.text = true ↔ language qs path.segments = true := by
  have hpath : ∀ s ∈ path.segments, slash ∉ s := fun s hs => (path.proper s hs).2
  exact (agrees hpath h.unbroken hqs).1 path.segments path.nonempty List.suffix_rfl hne h.regular h.beyond

theorem noSlash_of_mem_reading {q : Segment} (h : q ∈ reading pattern alternative) : slash ∉ q := by
  rw [reading] at h
  split_ifs at h
  · exact not_mem_of_mem_splitOn h
  · rcases List.mem_cons.mp h with rfl | h
    · decide
    · exact not_mem_of_mem_splitOn h

theorem reading_ne_nil : reading pattern alternative ≠ [] := by
  rw [reading]
  split_ifs
  · exact List.splitOn_ne_nil _ _
  · exact List.cons_ne_nil _ _

/-- What is put in front of a pattern that is to match at any depth. -/
def lead (pattern : List CodeUnit) : List CodeUnit :=
  if slash ∈ trim pattern ∨ deep <+: trim pattern ∨ trim pattern = [] then [] else deep ++ [slash]

theorem normalizeGlobPattern_eq (pattern : List CodeUnit) :
    normalizeGlobPattern pattern = lead pattern ++ trim pattern := by
  rw [normalizeGlobPattern, lead]
  by_cases hempty : trim pattern = []
  · simp [hempty]
  · simp only [List.isEmpty_iff, if_neg hempty]
    by_cases h : slash ∈ trim pattern ∨ [star, star] <+: trim pattern
    · have hlead : slash ∈ trim pattern ∨ deep <+: trim pattern ∨ trim pattern = [] := or_assoc.mp (Or.inl h)
      rw [if_pos h, if_pos hlead, List.nil_append]
    · have hlead : ¬ (slash ∈ trim pattern ∨ deep <+: trim pattern ∨ trim pattern = []) := by
        rw [← or_assoc, not_or]
        exact ⟨h, hempty⟩
      rw [if_neg h, if_neg hlead]
      rfl

theorem noBrace_of_all {text : List CodeUnit} (h : text.all (fun c => !isBrace c) = true) :
    ∀ c ∈ text, isBrace c = false := fun c hc => by
  simpa using List.all_eq_true.mp h c hc

theorem expandGlobBraces_normalize (pattern : List CodeUnit) :
    expandGlobBraces (normalizeGlobPattern pattern) = (expandGlobBraces (trim pattern)).map (lead pattern ++ ·) := by
  have hlead : ∀ c ∈ lead pattern, isBrace c = false := by
    rw [lead]
    split_ifs
    · simp
    · exact noBrace_of_all rfl
  rw [normalizeGlobPattern_eq, expandGlobBraces_append hlead]

theorem exists_compileGlob_deep (rest : List CodeUnit) : ∃ pieces, compileGlob (deep ++ rest) = anything :: pieces := by
  by_cases h : rest.head? = some slash
  · obtain ⟨more, rfl⟩ := List.head?_eq_some_iff.mp h
    exact ⟨_, compileGlob_deep_slash more⟩
  · exact ⟨_, compileGlob_deep h⟩

theorem ne_nil_of_wellPlaced (h : WellPlaced [deep, []] path) : False := by
  obtain ⟨s, rest, hsegments⟩ := List.exists_cons_of_ne_nil path.nonempty
  have hs : s ∈ path.segments := by simp [hsegments]
  have hregular := h.regular
  rw [Regular, if_pos rfl, Regular, if_neg (by decide), if_pos rfl] at hregular
  have hmatch := hregular.1.2 s hs [] (by simp) rfl
  exact (path.proper s hs).1 (accepts_nil.mp hmatch)

/-- The variant of an alternative that is compiled matches what the alternative is read as. -/
theorem accepts_variant (halternative : alternative ∈ expandGlobBraces (trim pattern))
    (h : WellPlaced (reading pattern alternative) path) :
    accepts (compileGlob (lead pattern ++ alternative)) path.text = true ↔
      language (reading pattern alternative) path.segments = true := by
  rw [← h.accepts_iff reading_ne_nil fun q hq => noSlash_of_mem_reading hq]
  by_cases hslash : slash ∈ trim pattern
  · rw [lead, if_pos (Or.inl hslash), reading, if_pos hslash, join_splitOn, List.nil_append]
  · have hjoin : join slash (reading pattern alternative) = deep ++ slash :: alternative := by
      rw [reading, if_neg hslash, join_cons deep (List.splitOn_ne_nil _ _), join_splitOn]
    rw [hjoin]
    by_cases hempty : trim pattern = []
    · rw [hempty, expandGlobBraces_none rfl, List.mem_singleton] at halternative
      rw [reading, if_neg hslash, halternative] at h
      exact (ne_nil_of_wellPlaced h).elim
    · by_cases hdeep : deep <+: trim pattern
      · rw [lead, if_pos (Or.inr (Or.inl hdeep)), List.nil_append, compileGlob_deep_slash]
        obtain ⟨rest, hrest⟩ := hdeep
        rw [← hrest, expandGlobBraces_append (noBrace_of_all rfl)] at halternative
        obtain ⟨behind, -, rfl⟩ := List.mem_map.mp halternative
        obtain ⟨pieces, hpieces⟩ := exists_compileGlob_deep behind
        rw [hpieces]
        exact accepts_many_many.symm
      · rw [lead, if_neg (by simp [hslash, hdeep, hempty]), List.append_assoc]
        rfl

theorem alternatives_of_exec (h : exec (trim pattern) = none) : alternatives pattern = [reading pattern (trim pattern)] := by
  rw [alternatives, expandGlobBraces_none h]
  rfl

def units (text : String) : List CodeUnit := text.toList.map (fun c => c.toNat.toUInt16)

def entry : RelativePath := ⟨[units "src", units "a.ts"], by decide, by decide⟩

def misnamed : RelativePath := ⟨[units "xa"], by decide, by decide⟩

end Patterns

end Kross.Tools.Glob
