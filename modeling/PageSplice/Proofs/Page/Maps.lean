-- SUMMARY: Source maps of compiled regions: which bodies get one, and how it is referred to.
import PageSplice.Proofs.Page.Dispatch
import PageSplice.Proofs.SourceMap.Lines

/-!
# Maps of regions

What a compiler makes of a region gets a map unless it is shorter than a region
or refers to a map already. Both are seen of the code with its end tags escaped,
while the map itself is that of the code as it was made. Code refers to a map on
one of its lines; but what spreads over lines is taken for a reference as well,
and such code goes without a map.
-/

namespace PageSplice.Page

open Build SourceMap Html Html.Document

variable {σ : Type}

/-- Whether a map goes with what was made of a region: its own map, or one line by line where it has
none or an empty one. -/
def IsMapOf (made : Output) (r : CodeRegion) (identity : Text) (map : SourceMap) : Prop :=
  (made.sourceMap = some map ∧ map ≠ []) ∨
    ((made.sourceMap = none ∨ made.sourceMap = some []) ∧
      map = ofLines made.code r.content identity)

/-- Whether code of a region should go without a map: it is shorter than a region, or one of its lines
refers to one. -/
def GoesWithoutMap (rules : RegionRules) (code : Text) : Prop :=
  rules.isBelow code.length = true ∨ HasReferenceLine code

theorem isMapOf_mapFor (made : Output) (r : CodeRegion) (identity : Text) :
    IsMapOf made r identity (mapFor r identity made) := by
  unfold mapFor
  rcases hmap : made.sourceMap with _ | _ | ⟨entry, map⟩
  · exact .inr ⟨.inl hmap, rfl⟩
  · exact .inr ⟨.inr hmap, rfl⟩
  · exact .inl ⟨hmap, List.cons_ne_nil entry map⟩

/-- The new body of a region is its code, or its code with one reference, which is a line of its own at
the end. -/
theorem bodyFor_spec (rules : RegionRules) (r : CodeRegion) (identity : Text) (made : Output) :
    let code := escapeEndTags r.language made.code
    let body := bodyFor rules r identity made
    (GoesWithoutMap rules code ∨ (∃ i, SpreadsAt code i) → body = code) ∧
    (¬ GoesWithoutMap rules code → (∀ i, ¬ SpreadsAt code i) →
      (∃ map, IsMapOf made r identity map ∧
        body = code ++ (if Text.endsWith code ['\n'] then [] else ['\n']) ++
          comment (commentStyle r.language) map ++ ['\n']) ∧
      hasReference body = true ∧ ∃! i, RefersAt body i) := by
  have hmap := isMapOf_mapFor made r identity
  unfold bodyFor
  dsimp only
  generalize escapeEndTags r.language made.code = code
  have href := hasReference_iff_line_or_spreadsAt code
  constructor
  · intro hwithout
    split
    · rfl
    · rename_i hlong
      rw [GoesWithoutMap, or_assoc] at hwithout
      exact if_pos (href.2 (hwithout.resolve_left hlong))
  · intro hwith hspreads
    obtain ⟨hlong, hline⟩ := not_or.1 hwith
    have hnone : ¬ hasReference code = true := fun h =>
      (href.1 h).elim hline fun ⟨i, hi⟩ => hspreads i hi
    rw [if_neg hlong]
    exact ⟨⟨_, hmap, if_neg hnone⟩, hasReference_attach _ _ code,
      existsUnique_refersAt_attach _ _ (Bool.eq_false_iff.2 hnone)⟩

/-- A compilation puts a body in the place of that of each region of which something was made. Where
the code, with its end tags escaped, is shorter than a region or a line of it is a reference, the body
is this code, and also where a reference spreads over lines, which needs a line that is a bare opener.
Otherwise it is this code, followed by a line end unless it ends in one, by exactly one reference and
by a line end. Where a map is attached already, attaching another one changes nothing. -/
theorem maps_of_compile {env : Environment σ} {c : PageCompiler σ} {markup path : Text}
    {s s' : Session σ} {out : Output} (h : (compile env c markup path).Yields s out s') :
    (∃ d regions turns s₀ s₁ edits,
      parse markup = .ok d ∧ Region.ofDocument c.rules d = .ok regions ∧
      turns.map Prod.fst = (codeRegions regions).filter (·.mimeType.isSome) ∧
      Turns env c path turns s₀ s₁ ∧ Rewrites 0 markup edits out.code ∧
      ∀ r made, (r, some made) ∈ turns →
        ∃ e stop body, d.elements[r.element]? = some e ∧ e.bodyEnd = some stop ∧
          ⟨e.bodyStart, stop, body⟩ ∈ edits ∧
          let code := escapeEndTags r.language made.code
          (GoesWithoutMap c.rules code ∨ (∃ i, SpreadsAt code i) → body = code) ∧
          (¬ GoesWithoutMap c.rules code → (∀ i, ¬ SpreadsAt code i) →
            (∃ map, IsMapOf made r (identityOf path r) map ∧
              body = code ++ (if Text.endsWith code ['\n'] then [] else ['\n']) ++
                comment (commentStyle r.language) map ++ ['\n']) ∧
            hasReference body = true ∧ ∃! i, RefersAt body i)) ∧
    (∀ code, (∀ line ∈ Text.splitOn '\n' code, isBareOpener line = false) →
      ∀ i, ¬ SpreadsAt code i) ∧
    (∀ code, hasReference code = true ↔ ∃ i, RefersAt code i) ∧
    ∀ style map code body, printAttached style map code = .ok body →
      ∀ style' map', printAttached style' map' body = .ok body := by
  obtain ⟨d, regions, turns, s₀, s₁, calls, hparse, hregions, hfst, -, hturns, hcode, -, -, hmade⟩ :=
    exists_calls_of_compile h
  refine ⟨⟨d, regions, turns, s₀, s₁, d.editsAfter calls, hparse, hregions, hfst, hturns,
    hcode ▸ rewrites_serialize hparse calls, fun r made hmem => ?_⟩, fun _ => not_spreadsAt,
    hasReference_iff, fun _ _ _ _ => printAttached_printAttached⟩
  have hr : .code r ∈ regions :=
    mem_codeRegions.1 (List.mem_filter.1 (hfst ▸ List.mem_map_of_mem (f := Prod.fst) hmem)).1
  obtain ⟨e, raw, stop, he, -, -, -, hend, -⟩ := exists_of_code hparse hregions hr
  have hleaf := isLeaf_of_code hparse hregions hr he
  have hedit : ⟨e.bodyStart, stop, bodyFor c.rules r (identityOf path r) made⟩ ∈
      d.editsAfter calls := by
    refine mem_editsAfter.2 ⟨r.element, e, he, List.mem_append_right _ ?_⟩
    rw [bodyEdits, if_pos hleaf, hmade r made hmem, hend]
    exact List.mem_singleton.2 rfl
  exact ⟨e, stop, _, he, hend, hedit, bodyFor_spec c.rules r (identityOf path r) made⟩

/-- A script that gets a map, a style that refers to one, and a script with a reference on two lines. -/
theorem maps_of_compile_passthrough :
    let env : Environment Unit := ⟨⟨.root, []⟩, []⟩
    let c : PageCompiler Unit := ⟨.exact
      [("text/javascript".toList, .compiler (.delegate (.passthrough Unit))),
       ("text/css".toList, .compiler (.delegate (.passthrough Unit)))], {}⟩
    let others := "<style type=text/css>b\n /*# sourceMappingURL=m */</style>".toList ++
      "<script>//\n# sourceMappingURL=x</script>".toList
    let map := ofLines "xy".toList "xy".toList "/p/a.html:inline_0.js".toList
    ∃ out s', (compile env c ("<script>xy</script>".toList ++ others) "/p/a.html".toList).Yields
        ⟨(), []⟩ out s' ∧
      out.code = "<script>xy\n".toList ++ comment .script map ++ "\n</script>".toList ++ others ∧
      (∃ edits, Rewrites 0 ("<script>xy</script>".toList ++ others) edits out.code) ∧
      ∃ body, printAttached .script map "xy".toList = .ok body ∧
        printAttached .css [] body = .ok body := by
  intro env c others map
  have hcode : ((compile env c ("<script>xy</script>".toList ++ others) "/p/a.html".toList).run.run
      ⟨(), []⟩).1.toOption.map Output.code = some ("<script>xy\n".toList ++ comment .script map ++
        "\n</script>".toList ++ others) := by decide +kernel
  have hprinted : (printAttached .script map "xy".toList).toOption.isSome = true := by
    decide +kernel
  obtain ⟨body, hbody⟩ := Option.isSome_iff_exists.1 hprinted
  have hbody := eq_ok_of_toOption hbody
  obtain ⟨out, s', hyields, hcode⟩ := exists_yields hcode
  obtain ⟨⟨_, _, _, _, _, edits, -, -, -, -, hrewrites, -⟩, -, -, hattach⟩ := maps_of_compile hyields
  exact ⟨out, s', hyields, hcode, ⟨edits, hrewrites⟩, body, hbody, hattach _ _ _ _ hbody _ _⟩

end PageSplice.Page
