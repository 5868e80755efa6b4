-- SUMMARY: Settings of the moment: through which of them an answer depends on when it is given.
import PageSplice.Proofs.Page.Reading
import PageSplice.Proofs.Server.Transparency

/-!
# Settings of the moment

A server keeps its page compiler, with the compilers and the rules for regions
that the site was set up with, but each visit brings settings of its own. What
they say of the compilers is never looked at. Their rules are looked at for
pages inside of a page, for which a page compiler is made when their turn comes.
So an answer follows the document root, the timeout as far as it is of the wrong
kind, and the rules where these read a page inside of the page otherwise.
-/

namespace PageSplice.Server

open Page

variable {σ : Type}

/-- Whether two settings read the pages inside of a page alike: the regions in them, the types of
these, and which of their bodies are too short. -/
def ReadInsideAlike (host : Host σ) (s t : Settings σ) (draft : Draft) : Prop :=
  ∀ inner page,
    Sheet.Holds host.compiler.lookup s.rules ⟨host.compiler.rules, draft.markup, draft.path⟩ inner →
    Sheet.Within host.compiler.lookup s.rules inner page → s.rules.ReadAlike t.rules page.markup

theorem compiled_eq_of_readInsideAlike {host : Host σ} {s t : Settings σ} {draft : Draft}
    (h : ReadInsideAlike host s t draft) : host.compiled s draft = host.compiled t draft := by
  have hcompile : compile ⟨host.workingDirectory, s⟩ host.compiler draft.markup draft.path =
      compile ⟨host.workingDirectory, t⟩ host.compiler draft.markup draft.path :=
    compile_congr_of_readAlike (by rfl) ⟨host.compiler.rules, draft.markup, draft.path⟩ (.refl _ _) h
  rw [Host.compiled, hcompile]
  rfl

/-- Without a page, the settings are looked at for the document root at most. -/
theorem answer_of_no_draft {host : Host σ} {s t : Settings σ} {request : Text} {response : Response}
    (hroot : s.documentRoot? = t.documentRoot?)
    (h : (⟨s, request, response⟩ : Visit σ).draft? = none) (cache : Cache) :
    (host.serve cache ⟨s, request, response⟩).answer =
      (host.serve cache ⟨t, request, response⟩).answer := by
  unfold Visit.draft? at h
  unfold Host.serve exchange
  rw [← hroot]
  cases hpage : response.isPage with
  | false => simp only [Bool.not_false, if_true]
  | true =>
    simp only [Bool.not_true, Bool.false_eq_true, if_false]
    cases htext : response.text with
    | error e => simp only
    | ok markup =>
      cases hblank : Text.blank markup with
      | true => simp only [hblank, if_true]
      | false =>
        cases hfound : s.documentRoot? with
        | error e => simp only [hblank, Bool.false_eq_true, if_false]
        | ok root => simp [hpage, htext, hblank, hfound] at h

-- ---------------------------------------------------------------------------
-- Main statement
-- ---------------------------------------------------------------------------

/-- Whatever the cache holds, the answer to a request is the same under two settings with one
document root that read the pages inside of the page alike, where the timeouts are both of the right
kind, or wrong alike. So compilers that are set later never count. Names of resource elements, types
and lengths count for pages inside of the page only, and there as far as they make a difference. -/
theorem answer_eq_of_readInsideAlike {host : Host σ} {s t : Settings σ} {request : Text}
    {response : Response} (hroot : s.documentRoot? = t.documentRoot?)
    (htimeout : s.cacheTimeout?.map (fun _ => ()) = t.cacheTimeout?.map fun _ => ())
    (hinside : ∀ draft, (⟨s, request, response⟩ : Visit σ).draft? = some draft →
      ReadInsideAlike host s t draft) (cache : Cache) :
    (host.serve cache ⟨s, request, response⟩).answer =
      (host.serve cache ⟨t, request, response⟩).answer := by
  have hdraft : (⟨s, request, response⟩ : Visit σ).draft? =
      (⟨t, request, response⟩ : Visit σ).draft? := by
    unfold Visit.draft?
    rw [hroot]
  cases hs : (⟨s, request, response⟩ : Visit σ).draft? with
  | none => exact answer_of_no_draft hroot hs cache
  | some draft =>
    have ht := hdraft.symm.trans hs
    cases hlookup : cache.lookup draft.key with
    | some page =>
      rw [(host.serve_of_hit cache hs hlookup).2, (host.serve_of_hit cache ht hlookup).2]
    | none =>
      rw [(host.serve_of_miss cache hs hlookup).1, (host.serve_of_miss cache ht hlookup).1]
      unfold Host.compiledAnswer
      rw [← compiled_eq_of_readInsideAlike (hinside draft hs)]
      obtain ⟨misuse, hs, ht⟩ | ⟨_, _, hs, ht, -⟩ := cases_of_map_eq htimeout
      · rw [hs, ht]
      · rw [hs, ht]
        rfl

theorem answer_eq_of_readInsideAlike_changed :
    let host : Host Unit := ⟨⟨.root, []⟩, .ofSettings (Catalog.find none) [], ()⟩
    let t : Settings Unit := [("COMPILERS".toList, .compilers []),
      ("RESOURCE_TAG".toList, .value (.str "y-require".toList)),
      ("DEFAULT_SCRIPT_TYPE".toList, .value .null), ("MIN_REGION_LENGTH".toList, .value (.int 9))]
    let answer (settings : Settings Unit) (inside : String) : Except Failure Response :=
      let markup := "<script type=text/html>" ++ inside ++ "</script>"
      (host.serve [] ⟨settings, "/a.html".toList,
        { contentType := some "text/html".toList, body := Charset.Utf8.encode markup.toList }⟩).answer
    answer [] "<p>ab</p>" = answer t "<p>ab</p>" ∧
      answer [] "<x-require src=a.js>" ≠ answer t "<x-require src=a.js>" := by
  intro host t answer
  refine ⟨answer_eq_of_readInsideAlike (by rfl) (by rfl) ?_ [], fun heq => ?_⟩
  · intro draft hdraft inner page hholds hwithin
    have hknown : (⟨[], "/a.html".toList, ⟨some "text/html".toList, [], Charset.Utf8.encode
        "<script type=text/html><p>ab</p></script>".toList, false, none⟩⟩ : Visit Unit).draft? =
        some ⟨"/a.html".toList, "<script type=text/html><p>ab</p></script>".toList⟩ := by
      decide +kernel
    cases hknown.symm.trans hdraft
    -- There is one page inside, and it has no regions under either settings.
    have houter : ((Html.Document.parse
        "<script type=text/html><p>ab</p></script>".toList).toOption.bind fun d =>
          (Region.ofDocument (Settings.rules ([] : Settings Unit)) d).toOption) =
        some [.code ⟨.script, 0, 0, some "text/html".toList, some (.fit "text/javascript".toList),
          "<p>ab</p>".toList⟩] := by decide +kernel
    have hnone {rules : RegionRules} {d : Html.Document}
        (hrules : rules = Settings.rules ([] : Settings Unit) ∨ rules = t.rules)
        (hparse : Html.Document.parse "<p>ab</p>".toList = .ok d) :
        Region.ofDocument rules d = .ok [] := by
      have hinner : ((Html.Document.parse "<p>ab</p>".toList).toOption.bind fun d =>
          (Region.ofDocument rules d).toOption) = some [] := by
        rcases hrules with rfl | rfl <;> decide +kernel
      rw [hparse] at hinner
      exact Html.eq_ok_of_toOption hinner
    obtain ⟨d, regions, r, -, -, hparse, hregions, hr, -, -, -, -, rfl⟩ := hholds
    obtain ⟨d', hparse', hregions'⟩ := Option.bind_eq_some_iff.1 houter
    cases hparse.symm.trans (Html.eq_ok_of_toOption hparse')
    cases hregions.symm.trans (Html.eq_ok_of_toOption hregions')
    cases List.mem_singleton.1 hr
    cases hwithin.cases_head with
    | inl heq =>
      subst heq
      intro d hparse
      refine ⟨?_, fun regions r hregions hr => ?_⟩
      · rw [hnone (.inl rfl) hparse, hnone (.inr rfl) hparse]
      · cases (hnone (.inl rfl) hparse).symm.trans hregions
        cases hr
    | inr hinside =>
      obtain ⟨_, ⟨d, regions, r, -, -, hparse, hregions, hr, -⟩, -⟩ := hinside
      cases (hnone (.inl rfl) hparse).symm.trans hregions
      cases hr
  · have hbodies : (answer [] "<x-require src=a.js>").toOption.map Response.body ≠
        (answer t "<x-require src=a.js>").toOption.map Response.body := by
      decide +kernel
    exact hbodies (by rw [heq])

end PageSplice.Server
