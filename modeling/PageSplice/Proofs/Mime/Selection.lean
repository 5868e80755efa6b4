-- SUMMARY: The paths of HTML documents: those with an extension of HTML, and which paths go by something else.
import PageSplice.Mime.Type
import PageSplice.Proofs.Text

/-!
# Selecting HTML documents

Most paths are those of an HTML document exactly when they have an extension of
HTML, which is what stands behind the last dot of the last segment. Tables of
extensions are made for URLs, though. They take a path for a `data:` URL that
begins like one, they see no extension in a name that begins with its only dot,
and where the extension names a compression they go by the extension in front
of it.
-/

namespace PageSplice

-- ---------------------------------------------------------------------------
-- Lower case
-- ---------------------------------------------------------------------------

namespace Text

/-- A dot in front of a word is no part of it. -/
theorem meetsLetter_append_dot (s : Text) : meetsLetter (s ++ ['.']) = meetsLetter s := by
  have hdot : ['.'].dropWhile isCaseIgnorable = [] := by decide
  unfold meetsLetter
  cases h : s.dropWhile isCaseIgnorable with
  | nil => rw [dropWhile_append_of_eq_nil h, hdot]
  | cons c r => rw [dropWhile_append_of_ne_nil (by simp [h]), h, List.cons_append]

theorem lowerAfter_append_dot (passed s : Text) :
    lowerAfter (passed ++ ['.']) s = lowerAfter passed s := by
  induction s generalizing passed with
  | nil => rfl
  | cons c r ih => rw [lowerAfter, lowerAfter, meetsLetter_append_dot, ← List.cons_append, ih]

theorem lower_dot (s : Text) : lower ('.' :: s) = '.' :: lower s := by
  have hdot : lowerChar '.' = '.' := by decide
  rw [lower, lowerAfter, ← List.nil_append ['.'], lowerAfter_append_dot]
  simp [hdot, lower]

/-- A character that is its own lower case stays. -/
theorem mem_lower {c : Char} (hc : lowerChar c = c) (hdotted : c ≠ '\u0130') (hsigma : c ≠ '\u03A3')
    {s : Text} (h : c ∈ s) : c ∈ lower s := by
  suffices hall : ∀ passed, c ∈ lowerAfter passed s from hall []
  induction s with
  | nil => cases h
  | cons d r ih =>
    intro passed
    rw [lowerAfter, List.mem_append]
    rcases List.mem_cons.1 h with rfl | h
    · exact .inl (by simp [hdotted, hsigma, hc])
    · exact .inr (ih h _)

end Text

namespace Mime

-- ---------------------------------------------------------------------------
-- Extensions of paths
-- ---------------------------------------------------------------------------

/-- What stands in front of the last dot of the last segment of a path, and what stands behind it. -/
def cutExtension? (path : Text) : Option (Text × Text) :=
  let file := Text.afterLast '/' path
  if file.contains '.' then
    let extension := Text.afterLast '.' file
    some (path.take (path.length - (extension.length + 1)), extension)
  else none

/-- The extension of a path, in lower case. -/
def extension? (path : Text) : Option Text := (cutExtension? path).map fun cut => Text.lower cut.2

theorem cutExtension?_append (stem : Text) {extension : Text} (hdot : '.' ∉ extension)
    (hslash : '/' ∉ extension) : cutExtension? (stem ++ '.' :: extension) = some (stem, extension) := by
  have hfile : Text.afterLast '/' (stem ++ '.' :: extension) =
      Text.afterLast '/' stem ++ '.' :: extension :=
    afterLast_append_of_not_mem (by simp [hslash]) stem
  have hmem : (Text.afterLast '/' stem ++ '.' :: extension).contains '.' = true := by simp
  have hlength : (stem ++ '.' :: extension).length - (extension.length + 1) = stem.length := by simp
  rw [cutExtension?]
  simp only [hfile, hmem, if_true, afterLast_append hdot, hlength, List.take_left]

theorem exists_of_dot_mem {path : Text} (h : '.' ∈ Text.afterLast '/' path) :
    ∃ stem extension, path = stem ++ '.' :: extension ∧ '.' ∉ extension ∧ '/' ∉ extension := by
  obtain ⟨stem, extension, rfl, hdot⟩ := exists_append_last (subset_afterLast '/' path h)
  refine ⟨stem, extension, rfl, hdot, fun hslash => ?_⟩
  obtain ⟨front, back, rfl, hback⟩ := exists_append_last hslash
  rw [← List.cons_append, ← List.append_assoc, afterLast_append hback] at h
  exact hdot (List.mem_append_right front (List.mem_cons_of_mem _ h))

theorem cutExtension?_eq_none_iff {path : Text} :
    cutExtension? path = none ↔ '.' ∉ Text.afterLast '/' path := by
  rw [cutExtension?]
  by_cases h : '.' ∈ Text.afterLast '/' path <;> simp [h]

theorem cutExtension?_eq_some_iff {path stem extension : Text} :
    cutExtension? path = some (stem, extension) ↔
      path = stem ++ '.' :: extension ∧ '.' ∉ extension ∧ '/' ∉ extension := by
  constructor
  · intro h
    have hmem : '.' ∈ Text.afterLast '/' path := Decidable.not_not.1 fun hnot => by
      rw [cutExtension?_eq_none_iff.2 hnot] at h
      cases h
    obtain ⟨stem', extension', rfl, hdot, hslash⟩ := exists_of_dot_mem hmem
    rw [cutExtension?_append _ hdot hslash] at h
    cases h
    exact ⟨rfl, hdot, hslash⟩
  · rintro ⟨rfl, hdot, hslash⟩
    exact cutExtension?_append _ hdot hslash

/-- Whether a path without its extension ends in a name: its last segment is more than dots. -/
def EndsNamed (stem : Text) : Prop := ∃ c ∈ Text.afterLast '/' stem, c ≠ '.'

instance (stem : Text) : Decidable (EndsNamed stem) :=
  decidable_of_iff ((Text.afterLast '/' stem).any (· ≠ '.') = true) (by simp [EndsNamed])

/-- A table sees the extension of a path where a name stands in front of it. -/
theorem splitExtension_of_cut {path stem extension : Text}
    (h : cutExtension? path = some (stem, extension)) :
    splitExtension path =
      if EndsNamed stem then (stem, '.' :: extension) else (path, []) := by
  obtain ⟨rfl, hdot, hslash⟩ := cutExtension?_eq_some_iff.1 h
  have hfile : Text.afterLast '/' (stem ++ '.' :: extension) =
      Text.afterLast '/' stem ++ '.' :: extension :=
    afterLast_append_of_not_mem (by simp [hslash]) stem
  have hlength : (stem ++ '.' :: extension).length - ('.' :: extension).length = stem.length := by
    simp
  have hnamed : (Text.afterLast '/' stem).all (· = '.') = true ↔ ¬ EndsNamed stem := by
    simp [EndsNamed]
  rw [splitExtension]
  simp only [hfile, beforeLast_append hdot, afterLast_append hdot, hlength, List.take_left, hnamed,
    ite_not]

theorem splitExtension_of_none {path : Text} (h : cutExtension? path = none) :
    splitExtension path = (path, []) := by
  have hstem : Text.beforeLast '.' (Text.afterLast '/' path) = [] :=
    beforeLast_of_not_mem (cutExtension?_eq_none_iff.1 h)
  rw [splitExtension]
  simp only [hstem]
  rfl

theorem EndsNamed.append {stem back : Text} (h : EndsNamed stem) (hslash : '/' ∉ back) :
    EndsNamed (stem ++ back) := by
  obtain ⟨c, hc, hne⟩ := h
  refine ⟨c, ?_, hne⟩
  rw [afterLast_append_of_not_mem hslash]
  exact List.mem_append_left back hc

-- ---------------------------------------------------------------------------
-- The extension that a table is asked for
-- ---------------------------------------------------------------------------

/-- The extension that a table sees in a path: one with a name in front of it, in lower case. -/
def seenExtension? (path : Text) : Option Text :=
  (cutExtension? path).bind fun (stem, name) =>
    if EndsNamed stem then some (Text.lower name) else none

/-- What stands in front of the compression where an extension abbreviates two. -/
def abbreviated? (extension : Text) : Option Text :=
  (abbreviations.lookup ('.' :: extension)).map fun long => Text.before '.' (long.drop 1)

/-- The extension by which a table goes: the one that it sees, but the first of two that are
abbreviated, and the one in front of a compression. -/
def decidingExtension? (path : Text) : Option Text :=
  (cutExtension? path).bind fun (stem, name) =>
    if EndsNamed stem then
      (abbreviated? (Text.lower name)).or
        (if '.' :: name ∈ encodings then seenExtension? stem else some (Text.lower name))
    else none

def IsHtmlType (found : Option Text) : Prop := ∃ type ∈ htmlTypes, found = some type

instance (found : Option Text) : Decidable (IsHtmlType found) :=
  inferInstanceAs (Decidable (∃ _ ∈ _, _))

theorem not_isHtmlType_none : ¬ IsHtmlType none := by
  rintro ⟨type, -, h⟩
  cases h

/-- An abbreviation stands for a compressed file of one segment. -/
theorem exists_of_abbreviated? {extension inner : Text} (h : abbreviated? extension = some inner) :
    ∃ outer, abbreviations.lookup ('.' :: extension) = some ('.' :: (inner ++ '.' :: outer)) ∧
      ('.' ∉ inner ∧ '/' ∉ inner ∧ Text.lower inner = inner) ∧
      '.' ∉ outer ∧ '/' ∉ outer ∧ '.' :: outer ∈ encodings := by
  have hall : ∀ entry ∈ abbreviations, ∃ outer ∈ ["gz".toList, "bz2".toList, "xz".toList],
      let inner := Text.before '.' (entry.2.drop 1)
      entry.2 = '.' :: (inner ++ '.' :: outer) ∧
        ('.' ∉ inner ∧ '/' ∉ inner ∧ Text.lower inner = inner) ∧
        '.' ∉ outer ∧ '/' ∉ outer ∧ '.' :: outer ∈ encodings := by decide +kernel
  obtain ⟨long, hlong, rfl⟩ := Option.map_eq_some_iff.1 h
  obtain ⟨before, after, htable, -⟩ := List.lookup_eq_some_iff.1 hlong
  obtain ⟨outer, -, heq, hinner, houter⟩ := hall ('.' :: extension, long) (by
    rw [htable]
    exact List.mem_append_right before List.mem_cons_self)
  exact ⟨outer, hlong.trans (congrArg some heq), hinner, houter⟩

theorem lookup_abbreviations_of_none {name : Text} (h : abbreviated? (Text.lower name) = none) :
    abbreviations.lookup (Text.lower ('.' :: name)) = none := by
  rw [Text.lower_dot]
  exact Option.map_eq_none_iff.1 h

namespace Table

variable {table : Table}

/-- Whether a table gives an extension, without its dot, a type of HTML documents. -/
def MapsToHtml (table : Table) (extension : Text) : Prop :=
  IsHtmlType ((table.registered.lookup ('.' :: extension)).or
    (table.common.lookup ('.' :: extension)))

instance (extension : Text) : Decidable (table.MapsToHtml extension) :=
  inferInstanceAs (Decidable (IsHtmlType _))

/-- Whether a path has an extension of HTML documents: `html`, or one that the table gives such a
type. -/
def HasHtmlExtension (table : Table) (path : Text) : Prop :=
  ∃ extension, extension? path = some extension ∧
    (extension = "html".toList ∨ table.MapsToHtml extension)

theorem isHtmlPath_eq_true {path : Text} :
    table.isHtmlPath path = true ↔ IsHtmlType (table.ofPath? path) := by
  rw [isHtmlPath]
  cases table.ofPath? path <;> simp [IsHtmlType]

theorem isHtmlType_type? (name : Text) :
    IsHtmlType (table.type? ('.' :: name)) ↔ table.MapsToHtml (Text.lower name) := by
  rw [type?, Text.lower_dot, MapsToHtml]

/-- Without its dot, an extension is in no table. -/
theorem type?_nil : table.type? [] = none := by
  have hnone {entries : List (Text × Text)} (h : ∀ entry ∈ entries, entry.1.head? = some '.') :
      entries.lookup ([] : Text) = none := by
    refine List.lookup_eq_none_iff.2 fun entry hentry => bne_iff_ne.2 fun heq => ?_
    cases (congrArg List.head? heq).trans (h entry hentry)
  have hlower : Text.lower [] = [] := rfl
  rw [type?, hlower, hnone fun entry hentry => table.isDotted entry (List.mem_append_left _ hentry),
    hnone fun entry hentry => table.isDotted entry (List.mem_append_right _ hentry)]
  rfl

theorem isHtmlType_splitExtension (path : Text) :
    IsHtmlType (table.type? (splitExtension path).2) ↔
      ∃ extension, seenExtension? path = some extension ∧ table.MapsToHtml extension := by
  rw [seenExtension?]
  cases hcut : cutExtension? path with
  | none => simp [splitExtension_of_none hcut, type?_nil, not_isHtmlType_none]
  | some cut =>
    obtain ⟨stem, name⟩ := cut
    rw [splitExtension_of_cut hcut]
    by_cases hnamed : EndsNamed stem
    · simp [hnamed, isHtmlType_type?]
    · simp [hnamed, type?_nil, not_isHtmlType_none]

theorem ofExtension?_of_plain {path stem extension : Text}
    (hsplit : splitExtension path = (stem, extension))
    (hplain : abbreviations.lookup (Text.lower extension) = none) :
    table.ofExtension? path =
      table.type? (if encodings.contains extension then (splitExtension stem).2 else extension) := by
  rw [ofExtension?, hsplit]
  simp only [hplain]

theorem ofExtension?_of_abbreviation {path stem extension long : Text}
    (hsplit : splitExtension path = (stem, extension))
    (hshort : abbreviations.lookup (Text.lower extension) = some long) {stem' extension' : Text}
    (hlong : splitExtension (stem ++ long) = (stem', extension')) :
    table.ofExtension? path =
      table.type? (if encodings.contains extension' then (splitExtension stem').2 else extension') := by
  rw [ofExtension?, hsplit]
  simp only [hshort, hlong]

theorem ofExtension?_of_no_extension {path : Text} (h : splitExtension path = (path, [])) :
    table.ofExtension? path = none := by
  have hencodings : encodings.contains [] = false := by decide
  rw [ofExtension?_of_plain h (by decide +kernel), hencodings, if_neg Bool.false_ne_true, type?_nil]

/-- Where an extension abbreviates two, the first of them has the type. -/
theorem isHtmlType_of_abbreviated {path stem name inner : Text} (hnamed : EndsNamed stem)
    (hsplit : splitExtension path = (stem, '.' :: name))
    (hshort : abbreviated? (Text.lower name) = some inner) :
    IsHtmlType (table.ofExtension? path) ↔ table.MapsToHtml inner := by
  obtain ⟨outer, hlong, ⟨hdot, hslash, hlower⟩, hdot', hslash', hencoded⟩ :=
    exists_of_abbreviated? hshort
  rw [← Text.lower_dot] at hlong
  have hcut := cutExtension?_append stem hdot hslash
  have hcut' := cutExtension?_append (stem ++ '.' :: inner) hdot' hslash'
  have hsplit' : splitExtension (stem ++ '.' :: (inner ++ '.' :: outer)) =
      (stem ++ '.' :: inner, '.' :: outer) := by
    have hassoc : stem ++ '.' :: (inner ++ '.' :: outer) = (stem ++ '.' :: inner) ++ '.' :: outer := by
      simp
    rw [hassoc, splitExtension_of_cut hcut', if_pos (hnamed.append (by simp [hslash]))]
  rw [ofExtension?_of_abbreviation hsplit hlong hsplit',
    if_pos (List.contains_iff_mem.2 hencoded), splitExtension_of_cut hcut, if_pos hnamed,
    isHtmlType_type?, hlower]

/-- A table goes by the deciding extension. -/
theorem isHtmlType_ofExtension? (path : Text) :
    IsHtmlType (table.ofExtension? path) ↔
      ∃ extension, decidingExtension? path = some extension ∧ table.MapsToHtml extension := by
  rw [decidingExtension?]
  cases hcut : cutExtension? path with
  | none =>
    rw [ofExtension?_of_no_extension (splitExtension_of_none hcut)]
    simp [not_isHtmlType_none]
  | some cut =>
    obtain ⟨stem, name⟩ := cut
    have hsplit := splitExtension_of_cut hcut
    by_cases hnamed : EndsNamed stem
    · rw [if_pos hnamed] at hsplit
      simp only [Option.bind_some, if_pos hnamed]
      cases hshort : abbreviated? (Text.lower name) with
      | some inner =>
        rw [isHtmlType_of_abbreviated hnamed hsplit hshort]
        simp
      | none =>
        rw [ofExtension?_of_plain hsplit (lookup_abbreviations_of_none hshort), Option.none_or]
        by_cases hmem : '.' :: name ∈ encodings
        · rw [if_pos hmem, if_pos (List.contains_iff_mem.2 hmem), isHtmlType_splitExtension]
        · rw [if_neg hmem, if_neg (mt List.contains_iff_mem.1 hmem), isHtmlType_type?]
          simp
    · rw [if_neg hnamed] at hsplit
      rw [ofExtension?_of_no_extension hsplit]
      simp [hnamed, not_isHtmlType_none]

end Table

-- ---------------------------------------------------------------------------
-- Web types and schemes
-- ---------------------------------------------------------------------------

def IsWebExtension (extension : Text) : Prop := ∃ entry ∈ preferred, entry.2 = extension

instance (extension : Text) : Decidable (IsWebExtension extension) :=
  inferInstanceAs (Decidable (∃ _ ∈ _, _))

/-- No extension of a web type goes on behind a slash. -/
theorem slash_not_mem_of_isWebExtension {name : Text} (h : IsWebExtension (Text.lower name)) :
    '/' ∉ name := by
  have hweb : ∀ entry ∈ preferred, '/' ∉ entry.2 := by decide
  obtain ⟨entry, hentry, heq⟩ := h
  exact fun hmem => hweb entry hentry
    (heq ▸ Text.mem_lower (by decide) (by decide) (by decide) hmem)

theorem find?_preferred_of_none {path : Text} (h : cutExtension? path = none) :
    (preferred.find? fun entry => entry.2 =
      if path.contains '.' then Text.lower (Text.afterLast '.' path) else []) = none := by
  refine List.find?_eq_none.2 fun entry hentry heq => ?_
  have heq := of_decide_eq_true heq
  split at heq
  · rename_i hdot
    obtain ⟨front, back, rfl, hback⟩ := exists_append_last (List.contains_iff_mem.1 hdot)
    rw [afterLast_append hback] at heq
    have hslash : '/' ∉ '.' :: back :=
      List.not_mem_cons_of_ne_of_not_mem (by decide)
        (slash_not_mem_of_isWebExtension ⟨entry, hentry, heq⟩)
    refine cutExtension?_eq_none_iff.1 h ?_
    rw [afterLast_append_of_not_mem hslash]
    exact List.mem_append_right _ List.mem_cons_self
  · have hall : ∀ entry ∈ preferred, entry.2 ≠ [] := by decide
    exact hall entry hentry heq

/-- The web types are asked for the extension of a path. -/
theorem Table.isHtmlPath_iff (table : Table) (path : Text) : table.isHtmlPath path = true ↔
    extension? path = some "html".toList ∨
      (∀ extension, extension? path = some extension → ¬ IsWebExtension extension) ∧
        IsHtmlType (table.guess? path) := by
  rw [isHtmlPath_eq_true, ofPath?]
  cases hcut : cutExtension? path with
  | none =>
    have hextension : extension? path = none := by rw [extension?, hcut]; rfl
    rw [find?_preferred_of_none hcut]
    simp [hextension]
  | some cut =>
    obtain ⟨stem, name⟩ := cut
    have hextension : extension? path = some (Text.lower name) := by rw [extension?, hcut]; rfl
    obtain ⟨rfl, hdot, -⟩ := cutExtension?_eq_some_iff.1 hcut
    have hmem : (stem ++ '.' :: name).contains '.' = true := by simp
    have hhtml : ∀ entry ∈ preferred, IsHtmlType (some entry.1) ↔ entry.2 = "html".toList := by
      have hall : ∀ entry ∈ preferred, entry.1 ∈ htmlTypes ↔ entry.2 = "html".toList := by decide
      exact fun entry hentry => Iff.trans (by simp [IsHtmlType]) (hall entry hentry)
    have hweb : ∃ entry ∈ preferred, entry.2 = "html".toList := by decide
    simp only [hmem, if_true, afterLast_append hdot, hextension, Option.some.injEq, forall_eq']
    cases hfind : preferred.find? fun entry => entry.2 = Text.lower name with
    | none =>
      have hnot : ¬ IsWebExtension (Text.lower name) := fun ⟨entry, hentry, heq⟩ =>
        List.find?_eq_none.1 hfind entry hentry (decide_eq_true heq)
      have hne : Text.lower name ≠ "html".toList := fun heq => hnot (heq ▸ hweb)
      rw [or_iff_right hne, and_iff_right hnot]
    | some entry =>
      have hentry := List.mem_of_find?_eq_some hfind
      have hfound := List.find?_some hfind
      have heq : entry.2 = Text.lower name := of_decide_eq_true hfound
      have hnot : ¬ (¬ IsWebExtension (Text.lower name) ∧
          IsHtmlType (table.guess? (stem ++ '.' :: name))) := fun h => h.1 ⟨entry, hentry, heq⟩
      rw [or_iff_left hnot, ← heq]
      exact hhtml entry hentry

/-- A scheme stands in front of the first colon, in front of every slash. -/
theorem splitScheme_cases (path : Text) :
    splitScheme path = (none, path) ∨
    ∃ scheme rest, path = scheme ++ ':' :: rest ∧
      splitScheme path = (some (Text.lower scheme), rest) := by
  rw [splitScheme]
  cases hafter : Text.after? ':' path with
  | none => exact .inl rfl
  | some rest =>
    simp only
    split
    · exact .inl rfl
    · refine .inr ⟨Text.before ':' path, rest, ?_, rfl⟩
      rw [Text.before, ← dropWhile_of_after? hafter, List.takeWhile_append_dropWhile]

/-- A path that is no `data:` URL has the type of what stands behind its scheme. -/
theorem Table.guess?_eq (table : Table) (path : Text) : table.guess? path =
    if (splitScheme path).1 = some "data".toList then ofDataUrl? (splitScheme path).2
    else table.ofExtension? (splitScheme path).2 := by
  rw [guess?]
  rcases splitScheme_cases path with heq | ⟨scheme, rest, -, heq⟩
  · rw [heq, if_neg nofun]
  · rw [heq]
    simp only [Option.some.injEq]

/-- What stands behind a scheme has the extension of the whole path. -/
theorem extension?_of_local {path stem name : Text}
    (h : cutExtension? (splitScheme path).2 = some (stem, name)) :
    extension? path = some (Text.lower name) := by
  obtain ⟨front, hpath⟩ : ∃ front, path = front ++ (splitScheme path).2 := by
    rcases splitScheme_cases path with heq | ⟨scheme, rest, hpath, heq⟩
    · exact ⟨[], by rw [heq]; rfl⟩
    · exact ⟨scheme ++ [':'], by rw [heq, List.append_assoc]; exact hpath⟩
  obtain ⟨hrest, hdot, hslash⟩ := cutExtension?_eq_some_iff.1 h
  rw [hrest, ← List.append_assoc] at hpath
  rw [extension?, cutExtension?_eq_some_iff.2 ⟨hpath, hdot, hslash⟩]
  rfl

-- ---------------------------------------------------------------------------
-- Selected paths
-- ---------------------------------------------------------------------------

/-- Whether a path goes by its extension: it is no `data:` URL, its extension is none of a web type but
`html`, and if there is one, it stands behind the scheme, with a name in front of it, and has nothing
to do with a compression. -/
structure IsPlainPath (path : Text) : Prop where
  isNoData : (splitScheme path).1 ≠ some "data".toList
  isNoWeb : ∀ extension ∈ extension? path, IsWebExtension extension → extension = "html".toList
  isBehindScheme : cutExtension? (splitScheme path).2 = none → extension? path = none
  isNamed : ∀ cut ∈ cutExtension? (splitScheme path).2, EndsNamed cut.1
  isUncompressed : ∀ cut ∈ cutExtension? (splitScheme path).2,
    '.' :: cut.2 ∉ encodings ∧ abbreviated? (Text.lower cut.2) = none

instance (path : Text) : Decidable (IsPlainPath path) :=
  decidable_of_iff ((splitScheme path).1 ≠ some "data".toList ∧
      (∀ extension ∈ extension? path, IsWebExtension extension → extension = "html".toList) ∧
      (cutExtension? (splitScheme path).2 = none → extension? path = none) ∧
      (∀ cut ∈ cutExtension? (splitScheme path).2, EndsNamed cut.1) ∧
      ∀ cut ∈ cutExtension? (splitScheme path).2,
        '.' :: cut.2 ∉ encodings ∧ abbreviated? (Text.lower cut.2) = none)
    ⟨fun ⟨hdata, hweb, hscheme, hnamed, hcompressed⟩ => ⟨hdata, hweb, hscheme, hnamed, hcompressed⟩,
      fun ⟨hdata, hweb, hscheme, hnamed, hcompressed⟩ => ⟨hdata, hweb, hscheme, hnamed, hcompressed⟩⟩

/-- The extension of a plain path is the one that decides. -/
theorem IsPlainPath.decidingExtension? {path : Text} (h : IsPlainPath path) :
    decidingExtension? (splitScheme path).2 = extension? path := by
  rw [Mime.decidingExtension?]
  cases hcut : cutExtension? (splitScheme path).2 with
  | none => exact (h.isBehindScheme hcut).symm
  | some cut =>
    obtain ⟨stem, name⟩ := cut
    obtain ⟨hencoded, hshort⟩ : '.' :: name ∉ encodings ∧ abbreviated? (Text.lower name) = none :=
      h.isUncompressed _ hcut
    have hnamed : EndsNamed stem := h.isNamed _ hcut
    rw [extension?_of_local hcut, Option.bind_some]
    simp only [if_pos hnamed, hshort, if_neg hencoded, Option.none_or]

namespace Table

variable {table : Table} {path : Text}

theorem isHtmlPath_of_isWebExtension {extension : Text} (h : extension? path = some extension)
    (hweb : IsWebExtension extension) :
    table.isHtmlPath path = true ↔ extension = "html".toList := by
  rw [table.isHtmlPath_iff, h, Option.some_inj]
  exact or_iff_left fun hother => hother.1 extension rfl hweb

theorem isHtmlPath_iff_guess?
    (hweb : ∀ extension, extension? path = some extension → ¬ IsWebExtension extension) :
    table.isHtmlPath path = true ↔ IsHtmlType (table.guess? path) := by
  have hhtml : IsWebExtension "html".toList := by decide
  rw [table.isHtmlPath_iff, or_iff_right fun h => hweb _ h hhtml, and_iff_right hweb]

/-- A plain path is that of an HTML document exactly when it has an extension of HTML. -/
theorem isHtmlPath_iff_of_isPlainPath (h : IsPlainPath path) :
    table.isHtmlPath path = true ↔ table.HasHtmlExtension path := by
  rw [table.isHtmlPath_iff, table.guess?_eq, if_neg h.isNoData, isHtmlType_ofExtension?,
    h.decidingExtension?, HasHtmlExtension]
  constructor
  · rintro (heq | ⟨-, extension, heq, hmaps⟩)
    · exact ⟨_, heq, .inl rfl⟩
    · exact ⟨extension, heq, .inr hmaps⟩
  · rintro ⟨extension, heq, hhtml⟩
    by_cases hplain : extension = "html".toList
    · exact .inl (hplain ▸ heq)
    · refine .inr ⟨fun other hother hweb => ?_, extension, heq, hhtml.resolve_left hplain⟩
      cases heq.symm.trans hother
      exact hplain (h.isNoWeb extension heq hweb)

/-- Which paths are those of HTML documents, by their extensions and a table. The extension of a plain
path decides alone, and so does that of a web type, of which `html` is the only one. Of the others, a
`data:` URL has the type that it says, and every other path is taken by the deciding extension of what
stands behind its scheme. -/
theorem isHtmlPath_extension (table : Table) (path : Text) :
    (IsPlainPath path → (table.isHtmlPath path = true ↔ table.HasHtmlExtension path)) ∧
    (∀ other, IsPlainPath path → IsPlainPath other → extension? path = extension? other →
      table.isHtmlPath path = table.isHtmlPath other) ∧
    (∀ extension, extension? path = some extension → IsWebExtension extension →
      (table.isHtmlPath path = true ↔ extension = "html".toList)) ∧
    ((∀ extension, extension? path = some extension → ¬ IsWebExtension extension) →
      ((splitScheme path).1 = some "data".toList →
        (table.isHtmlPath path = true ↔ IsHtmlType (ofDataUrl? (splitScheme path).2))) ∧
      ((splitScheme path).1 ≠ some "data".toList →
        (table.isHtmlPath path = true ↔ ∃ extension,
          decidingExtension? (splitScheme path).2 = some extension ∧
            table.MapsToHtml extension))) := by
  refine ⟨isHtmlPath_iff_of_isPlainPath, fun other h h' heq => ?_,
    fun extension => isHtmlPath_of_isWebExtension, fun hweb => ⟨fun hdata => ?_, fun hdata => ?_⟩⟩
  · refine Bool.eq_iff_iff.2 ((isHtmlPath_iff_of_isPlainPath h).trans
      (Iff.trans ?_ (isHtmlPath_iff_of_isPlainPath h').symm))
    rw [HasHtmlExtension, heq, HasHtmlExtension]
  · rw [isHtmlPath_iff_guess? hweb, table.guess?_eq, if_pos hdata]
  · rw [isHtmlPath_iff_guess? hweb, table.guess?_eq, if_neg hdata, isHtmlType_ofExtension?]

/-- A document by an extension that only the table of its host has, and one that is taken for a document
by an extension that is not its last. -/
theorem isHtmlPath_extension_compressed :
    let host : Table :=
      ⟨[(".xhtml".toList, "application/xhtml+xml".toList)], commonTypes, by decide +kernel⟩
    (IsPlainPath "/srv/Index.XHTML".toList ∧ host.isHtmlPath "/srv/Index.XHTML".toList = true) ∧
      ¬ IsPlainPath "/a.html.gz".toList ∧ builtin.isHtmlPath "/a.html.gz".toList = true := by
  intro host
  have hplain : IsPlainPath "/srv/Index.XHTML".toList := by decide +kernel
  have hhtml : host.HasHtmlExtension "/srv/Index.XHTML".toList :=
    ⟨"xhtml".toList, by decide +kernel, .inr (by decide +kernel)⟩
  obtain ⟨-, -, -, hother⟩ := isHtmlPath_extension builtin "/a.html.gz".toList
  have hdeciding := (hother (by decide +kernel)).2 (by decide +kernel)
  exact ⟨⟨hplain, ((isHtmlPath_extension host _).1 hplain).2 hhtml⟩, by decide +kernel,
    hdeciding.2 ⟨"html".toList, by decide +kernel, by decide +kernel⟩⟩

-- One extension and two answers, twice.
example : extension? "/a.html.gz".toList = extension? "/b.gz".toList ∧
    builtin.isHtmlPath "/a.html.gz".toList = true ∧
    builtin.isHtmlPath "/b.gz".toList = false := by decide +kernel

example : extension? "/.htm".toList = extension? "/a.htm".toList ∧
    builtin.isHtmlPath "/.htm".toList = false ∧
    builtin.isHtmlPath "/a.htm".toList = true := by decide +kernel

end Table

end Mime

end PageSplice
