-- SUMMARY: Climbing paths: how many segments in front of it a path cancels, and what lies below a directory in the end.
import PageSplice.Proofs.Path

/-!
# Climbing paths

A path that is seen from a directory may begin with more `..` than it has names
to cancel. Each one that is left over takes a segment of the directory away, as
long as there is one; what the path has collapsed to stands behind the segments
that remain. Where none is left over, the path stays in the directory.
-/

namespace PageSplice.Path

-- ---------------------------------------------------------------------------
-- Climbing
-- ---------------------------------------------------------------------------

/-- How many segments in front of them the segments of a path cancel, `depth` names standing in
between. -/
def climbFrom (depth : Nat) : List Text → Nat
  | [] => 0
  | segment :: rest =>
    if segment = ['.', '.'] then
      if depth = 0 then climbFrom 0 rest + 1 else climbFrom (depth - 1) rest
    else climbFrom (depth + 1) rest

/-- How many segments in front of it a path cancels. -/
def climb (p : Path) : Nat := climbFrom 0 p.segments

theorem climbFrom_of_not_mem {segments : List Text} (h : ['.', '.'] ∉ segments) (depth : Nat) :
    climbFrom depth segments = 0 := by
  induction segments generalizing depth with
  | nil => rfl
  | cons segment rest ih =>
    obtain ⟨hfirst, hrest⟩ := not_or.1 (mt List.mem_cons.2 h)
    rw [climbFrom, if_neg (Ne.symm hfirst)]
    exact ih hrest (depth + 1)

/-- What stands in front of the segments is not seen but by the `..` that are left over. -/
theorem foldl_collapseStep_append (segments above base : List Text) :
    segments.foldl collapseStep (above ++ base) =
      segments.foldl collapseStep above ++ base.drop (climbFrom above.length segments) := by
  induction segments generalizing above base with
  | nil => rfl
  | cons segment rest ih =>
    rw [List.foldl_cons, List.foldl_cons, climbFrom]
    by_cases hup : segment = ['.', '.']
    · simp only [collapseStep, if_pos hup]
      cases above with
      | nil =>
        rw [List.nil_append, ← List.nil_append base.tail, ih]
        exact congrArg _ List.drop_tail
      | cons name above => exact ih above base
    · simp only [collapseStep, if_neg hup]
      exact ih (segment :: above) base

/-- A path seen from another one, collapsed: what the one behind collapses to stands behind what is
left of the one in front. -/
theorem collapse_join {p q : Path} (hq : q.anchor = .relative) :
    (p.join q).collapse = ⟨p.anchor, p.collapse.segments.take
      (p.collapse.segments.length - q.climb) ++ q.collapse.segments⟩ := by
  have hjoin : p.join q = ⟨p.anchor, p.segments ++ q.segments⟩ := if_pos hq
  rw [hjoin, collapse, List.foldl_append,
    ← List.nil_append (p.segments.foldl collapseStep []), foldl_collapseStep_append,
    List.reverse_append, List.reverse_drop]
  simp only [collapse, climb, List.length_nil, List.length_reverse]

theorem collapse_of_not_mem {p : Path} (h : ['.', '.'] ∉ p.segments) : p.collapse = p := by
  have general (segments above : List Text) (h : ['.', '.'] ∉ segments) :
      segments.foldl collapseStep above = segments.reverse ++ above := by
    induction segments generalizing above with
    | nil => rfl
    | cons segment rest ih =>
      obtain ⟨hfirst, hrest⟩ := not_or.1 (mt List.mem_cons.2 h)
      rw [List.foldl_cons, collapseStep, if_neg (Ne.symm hfirst), ih _ hrest]
      simp
  rw [collapse, general _ _ h, List.append_nil, List.reverse_reverse]

-- ---------------------------------------------------------------------------
-- Below a directory
-- ---------------------------------------------------------------------------

/-- A path seen from another one lies below that one where it comes down again the way that it has
climbed up, and goes on from there. -/
theorem isBelow_collapse_join {p q : Path} (hq : q.anchor = .relative) :
    (p.join q).collapse.IsBelow p.collapse ↔ ∃ names, names ≠ [] ∧ q.collapse.segments =
      p.collapse.segments.drop (p.collapse.segments.length - q.climb) ++ names := by
  rw [collapse_join hq]
  refine exists_congr fun names => and_congr_right fun _ => ?_
  have hsplit : p.collapse.segments ++ names =
      p.collapse.segments.take (p.collapse.segments.length - q.climb) ++
        (p.collapse.segments.drop (p.collapse.segments.length - q.climb) ++ names) := by
    rw [← List.append_assoc, List.take_append_drop]
  rw [hsplit, Path.mk.injEq]
  exact ⟨fun h => List.append_cancel_left h.2, fun h => ⟨rfl, h ▸ rfl⟩⟩

/-- A path without `..` that leads somewhere stays below the one that it is seen from. -/
theorem isBelow_collapse_join_of_not_mem {p q : Path} (hq : q.anchor = .relative)
    (hnames : q.segments ≠ []) (hup : ['.', '.'] ∉ q.segments) :
    (p.join q).collapse.IsBelow p.collapse := by
  refine (isBelow_collapse_join hq).2 ⟨q.segments, hnames, ?_⟩
  rw [collapse_of_not_mem hup, climb, climbFrom_of_not_mem hup, Nat.sub_zero, List.drop_length,
    List.nil_append]

/-- What lies below the directory of a document lies below every directory that the document does. -/
theorem IsBelow.of_parent {p q directory : Path} (hp : p.IsBelow directory)
    (hq : q.IsBelow p.parent) : q.IsBelow directory := by
  obtain ⟨names, hnames, rfl⟩ := hp
  obtain ⟨more, hmore, rfl⟩ := hq
  refine ⟨names.dropLast ++ more, List.append_ne_nil_of_right_ne_nil _ hmore, ?_⟩
  rw [parent, List.dropLast_append_of_ne_nil hnames, List.append_assoc]

end PageSplice.Path
