-- SUMMARY: Encoding of compiled pages: a page goes out under the charset it came in, as long as that charset has its references.
import PageSplice.Proofs.Charset
import PageSplice.Proofs.Page.Characters
import PageSplice.Proofs.Server.Transparency

/-!
# Encoding of compiled pages

A page is decoded under the charset of its response, and what was made of it is
encoded under the same charset. What a compilation adds is ASCII but for the
references that it writes. These take in the path of the document, which may
have any characters, and come from attributes in which character references
stand for any character. So a page whose charset lacks one of these characters
has been compiled in vain: the answer is an error.
-/

namespace PageSplice

/-- Every charset has the characters of ASCII, so the others decide. -/
theorem Charset.expresses_of_beyondAscii {charset : Charset} {text : Text}
    (h : ∀ c ∈ text, BeyondAscii c → c.toNat < charset.limit) : charset.Expresses text := by
  intro c hc
  by_contra hlimit
  exact hlimit (h c hc (Nat.le_trans charset.ascii_le_limit (Nat.not_lt.1 hlimit)))

-- ---------------------------------------------------------------------------
-- Responses
-- ---------------------------------------------------------------------------

namespace Server

open Build Page

/-- Whether an answer is a response with another text for its body, under the charset, and with the
length of that. -/
def Delivers (response : Response) (charset : Charset) (text : Text)
    (answer : Except Failure Response) : Prop :=
  ∃ body, answer = .ok { response with body, contentLength := some body.length } ∧
    charset.decode body = .ok text

namespace Response

variable {r : Response} {charset : Charset} (hcharset : r.charset = .ok charset) {text : Text}

include hcharset

theorem withText_eq :
    r.withText text = match charset.encode text with
      | .ok body => .ok { r with body, contentLength := some body.length }
      | .error error => .error (.unencodable error) := by
  cases hencode : charset.encode text <;>
    simp only [withText, hcharset, hencode, bind, Except.bind, Except.mapError, pure, Except.pure]

/-- A text goes out where the charset has its characters. -/
theorem delivers_withText (h : charset.Expresses text) :
    Delivers r charset text (r.withText text) := by
  obtain ⟨body, hbody⟩ := Charset.exists_encode_iff.2 h
  refine ⟨body, ?_, Charset.decode_of_encode hbody⟩
  rw [withText_eq hcharset, hbody]

theorem withText_eq_error (h : ¬ charset.Expresses text) :
    ∃ error, r.withText text = .error (.unencodable error) := by
  cases hencode : charset.encode text with
  | ok body => exact absurd (Charset.exists_encode_iff.1 ⟨body, hencode⟩) h
  | error error => exact ⟨error, by rw [withText_eq hcharset, hencode]⟩

/-- The charset of a response has all characters of its text. -/
theorem expresses_of_text (h : r.text = .ok text) : charset.Expresses text := by
  unfold Response.text at h
  split at h
  · cases h
    exact nofun
  · cases hdecode : charset.decode r.body with
    | error error =>
      simp only [hcharset, hdecode, bind, Except.bind, Except.mapError, reduceCtorEq] at h
    | ok decoded =>
      simp only [hcharset, hdecode, bind, Except.bind, Except.mapError, Except.ok.injEq] at h
      exact h ▸ Charset.expresses_of_decode hdecode

end Response

variable {σ : Type}

theorem Visit.text_of_draft? {v : Visit σ} {draft : Draft} (h : v.draft? = some draft) :
    v.response.text = .ok draft.markup := by
  unfold Visit.draft? at h
  split at h
  · cases h
  · split at h
    · rename_i markup root htext hroot
      split at h
      · cases h
      · cases h
        exact htext
    · cases h

-- ---------------------------------------------------------------------------
-- Main statement
-- ---------------------------------------------------------------------------

/-- With the compilers that a site has by default and an empty cache, a page that compiles goes out
under the charset that it came in, with the length of its bytes, where the charset is UTF-8 or has
all characters of the references that are written, into the page or a page inside of it. Else the
answer may be an error, which says that the page cannot be encoded; it is one wherever resource
elements are neither links nor scripts, since then all references are written in full. -/
theorem page_delivered {host : Host σ} {v : Visit σ} {draft : Draft} {charset : Charset}
    {timeout : Option Int} {code : Text} (hlookup : host.compiler.lookup = defaultLookup σ)
    (hdraft : v.draft? = some draft) (hcharset : v.response.charset = .ok charset)
    (htimeout : v.settings.cacheTimeout? = .ok timeout)
    (hcompiled : host.compiled v.settings draft = .ok code) :
    let outer : Sheet := ⟨host.compiler.rules, draft.markup, draft.path⟩
    let answer := (host.serve [] v).answer
    let expressed : Prop := ∀ page value,
      Sheet.Within (defaultLookup σ) v.settings.rules outer page →
      page.Writes host.workingDirectory value → charset.Expresses value
    (charset = .utf8 ∨ expressed → Delivers v.response charset code answer) ∧
    (Delivers v.response charset code answer ∨ ∃ error, answer = .error (.unencodable error)) ∧
    ((∀ rules ∈ [host.compiler.rules, v.settings.rules], ∀ tag, rules.resourceTag = .fit tag →
        Text.lower tag ∉ securedAttributes.map Prod.fst) →
      ¬ expressed → ∃ error, answer = .error (.unencodable error)) := by
  intro outer answer expressed
  have hanswer : answer = v.response.withText code := by
    refine (host.serve_of_miss [] hdraft rfl).1.trans ?_
    simp only [Host.compiledAnswer, hcompiled, htimeout, mapError_ok, bind, Except.bind]
  obtain ⟨out, s', hyields, rfl⟩ : ∃ out s',
      (compile ⟨host.workingDirectory, v.settings⟩ ⟨defaultLookup σ, outer.rules⟩ outer.markup
        outer.path).Yields ⟨host.fresh, []⟩ out s' ∧ out.code = code := by
    rw [← hlookup]
    unfold Host.compiled at hcompiled
    rcases hrun : (compile ⟨host.workingDirectory, v.settings⟩ host.compiler draft.markup
      draft.path).run.run ⟨host.fresh, []⟩ with ⟨failure | out, s'⟩
    · rw [hrun] at hcompiled
      cases hcompiled
    · rw [hrun] at hcompiled
      exact ⟨out, s', hrun, Except.ok.inj hcompiled⟩
  rw [hanswer]
  refine ⟨fun hfits => ?_, ?_, fun hsecured hnot => ?_⟩
  · refine Response.delivers_withText hcharset ?_
    rcases hfits with rfl | hexpressed
    · exact Charset.expresses_utf8 _
    · refine Charset.expresses_of_beyondAscii fun c hmem hc => ?_
      obtain hmem | ⟨page, value, hwithin, hwrites, hmem⟩ := of_mem_compile hc hyields hmem
      · exact Response.expresses_of_text hcharset (Visit.text_of_draft? hdraft) c hmem
      · exact hexpressed page value hwithin hwrites c hmem
  · by_cases hexpresses : charset.Expresses out.code
    · exact .inl (Response.delivers_withText hcharset hexpresses)
    · exact .inr (Response.withText_eq_error hcharset hexpresses)
  · refine Response.withText_eq_error hcharset fun hexpresses => hnot ?_
    intro page value hwithin hwrites
    refine Charset.expresses_of_beyondAscii fun c hmem hc => ?_
    exact hexpresses c (mem_compile_of_writes hc hyields hwithin hsecured hwrites hmem)

theorem page_delivered_snowman :
    let host : Host Unit := ⟨⟨.root, []⟩, .ofSettings (Catalog.find none) [], ()⟩
    let markup := "<x-require src=&#9731;.js>".toList
    let visit (namedCharset : Text) : Visit Unit := ⟨[], "/a.html".toList,
      { contentType := some "text/html".toList, namedCharset, body := Charset.Utf8.encode markup }⟩
    let unicode := visit []
    let western := visit "iso-8859-1".toList
    host.compiled [] ⟨"/a.html".toList, markup⟩ = .ok "<x-require src=\"/\u2603.js\">".toList ∧
    Delivers unicode.response .utf8 "<x-require src=\"/\u2603.js\">".toList
      (host.serve [] unicode).answer ∧
    western.response.text = .ok markup ∧
      ∃ error, (host.serve [] western).answer = .error (.unencodable error) := by
  intro host markup visit unicode western
  have hcompiled : host.compiled [] ⟨"/a.html".toList, markup⟩ =
      .ok "<x-require src=\"/\u2603.js\">".toList := Html.eq_ok_of_toOption (by decide +kernel)
  have hunicode : unicode.draft? = some ⟨"/a.html".toList, markup⟩ := by decide +kernel
  have hwestern : western.draft? = some ⟨"/a.html".toList, markup⟩ := by decide +kernel
  have hutf8 : unicode.response.charset = .ok .utf8 := Html.eq_ok_of_toOption (by decide +kernel)
  have hlatin1 : western.response.charset = .ok .latin1 := Html.eq_ok_of_toOption (by decide +kernel)
  have htimeout : Settings.cacheTimeout? ([] : Settings Unit) = .ok (some 300) := rfl
  obtain ⟨hdelivers, -⟩ := page_delivered rfl hunicode hutf8 htimeout hcompiled
  obtain ⟨-, -, hfails⟩ := page_delivered rfl hwestern hlatin1 htimeout hcompiled
  refine ⟨hcompiled, hdelivers (.inl rfl), Visit.text_of_draft? hwestern, hfails ?_ fun hall => ?_⟩
  · intro rules hrules tag htag
    have hrules : rules = Settings.rules ([] : Settings Unit) := by
      rcases List.mem_cons.1 hrules with h | h
      · exact h
      · exact List.mem_singleton.1 h
    cases (hrules ▸ htag : (Settings.rules ([] : Settings Unit)).resourceTag = .fit tag)
    decide
  · have hfields : (Html.Document.parse markup).toOption.map (fun d =>
        d.elements[0]?.map fun e => (e.tag, e.value? "src".toList)) =
        some (some ("x-require".toList, some "\u2603.js".toList)) := by decide +kernel
    obtain ⟨d, hparse, hfields⟩ := Option.map_eq_some_iff.1 hfields
    obtain ⟨e, he, hfields⟩ := Option.map_eq_some_iff.1 hfields
    have hrelative : IsRelative "\u2603.js".toList := isRelative_iff.2 ⟨by decide, by rfl⟩
    have hexpresses : Charset.latin1.Expresses "/\u2603.js".toList := by
      refine hall _ _ .refl ⟨d, e, Html.eq_ok_of_toOption hparse, List.mem_of_getElem? he, .inl
        ⟨"x-require".toList, _, rfl, ?_, congrArg Prod.snd hfields, hrelative, by decide +kernel⟩⟩
      exact (congrArg Prod.fst hfields).trans (by decide)
    exact absurd (hexpresses '\u2603' (by decide)) (by decide)

end Server

end PageSplice
