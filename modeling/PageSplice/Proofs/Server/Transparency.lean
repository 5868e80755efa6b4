-- SUMMARY: The cache over a history of visits: what a visitor gets is what no cache would give, but for confusable pages.
import PageSplice.Proofs.Digest
import PageSplice.Proofs.Page.Reading
import PageSplice.Server.Exchange

/-!
# Transparency of the cache

A cached page was compiled for an earlier visit with the same key. The key is
the digest of path, NUL and markup in a row, so where no hashes collide the
earlier page had the same path and the same markup, unless a path holds a NUL
character. The settings are no part of the key, and need not be: the document
root is in the path, and the timeout says nothing about a page.
-/

namespace PageSplice

variable {σ : Type}

-- ---------------------------------------------------------------------------
-- Settings that change from visit to visit
-- ---------------------------------------------------------------------------

/-- Whether settings differ in nothing but the document root and the timeout. -/
def Settings.SameBuild (s t : Settings σ) : Prop :=
  ∀ key, key ≠ "DOCUMENT_ROOT".toList → key ≠ "CACHE_TIMEOUT".toList → s.lookup key = t.lookup key

theorem Settings.SameBuild.rules_eq {s t : Settings σ} (h : s.SameBuild t) : s.rules = t.rules := by
  have hvalue (key : Text) (hroot : key ≠ "DOCUMENT_ROOT".toList)
      (htimeout : key ≠ "CACHE_TIMEOUT".toList) : s.value key = t.value key := by
    unfold value get getD
    rw [h key hroot htimeout]
  unfold rules
  rw [hvalue _ (by decide) (by decide), hvalue _ (by decide) (by decide),
    hvalue _ (by decide) (by decide), hvalue _ (by decide) (by decide)]

namespace Server

open Build

-- ---------------------------------------------------------------------------
-- Visits
-- ---------------------------------------------------------------------------

/-- A request, the response of the site to it, and the settings of the moment. -/
structure Visit (σ : Type) where
  settings : Settings σ
  request : Text
  response : Response

/-- What a server keeps from visit to visit, besides its cache. -/
structure Host (σ : Type) where
  workingDirectory : Path
  compiler : PageCompiler σ
  /-- The context that every page is compiled under. -/
  fresh : σ

structure Draft where
  path : Text
  markup : Text
  deriving DecidableEq

/-- What the key of a page is a digest of. -/
def Draft.text (draft : Draft) : Text := draft.path ++ '\x00' :: draft.markup

def Draft.key (draft : Draft) : Text := Cache.key draft.path draft.markup

/-- The page of a visit; `none` where the response goes out untouched, or fails before there is a
page. -/
def Visit.draft? (v : Visit σ) : Option Draft :=
  if !v.response.isPage then none
  else
    match v.response.text, v.settings.documentRoot? with
    | .ok markup, .ok root =>
      if Text.blank markup then none else some ⟨documentPath root v.request, markup⟩
    | _, _ => none

namespace Host

def serve (host : Host σ) (cache : Cache) (v : Visit σ) : Exchange σ :=
  exchange ⟨host.workingDirectory, v.settings⟩ host.compiler host.fresh cache v.request v.response

def compiled (host : Host σ) (settings : Settings σ) (draft : Draft) : Except Failure Text :=
  ((Page.compile ⟨host.workingDirectory, settings⟩ host.compiler draft.markup draft.path).run.run
    ⟨host.fresh, []⟩).1.map Output.code

def compiledAnswer (host : Host σ) (v : Visit σ) (draft : Draft) : Except Failure Response := do
  let code ← host.compiled v.settings draft
  let _ ← v.settings.cacheTimeout?.mapError .misuse
  v.response.withText code

variable (host : Host σ) (cache : Cache) {v : Visit σ} {draft : Draft}

theorem compiled_congr {s t : Settings σ} (h : s.SameBuild t) (draft : Draft) :
    host.compiled s draft = host.compiled t draft := by
  have hcompile : Page.compile ⟨host.workingDirectory, s⟩ host.compiler draft.markup draft.path =
      Page.compile ⟨host.workingDirectory, t⟩ host.compiler draft.markup draft.path :=
    Page.compile_congr (by rfl) h.rules_eq draft.markup draft.path
  rw [compiled, hcompile]
  rfl

/-- A visit without a page has nothing to do with the cache. -/
theorem serve_of_none (h : v.draft? = none) :
    (host.serve cache v).cache = cache ∧ (host.serve cache v).answer = (host.serve [] v).answer := by
  unfold Visit.draft? at h
  unfold serve exchange
  split at h
  · rename_i hother
    simp only [hother, if_true, and_self]
  · rename_i hpage
    simp only [hpage, Bool.false_eq_true, if_false]
    cases htext : v.response.text with
    | error e => exact ⟨rfl, rfl⟩
    | ok markup =>
      cases hblank : Text.blank markup with
      | true => simp [hblank]
      | false =>
        cases hroot : v.settings.documentRoot? with
        | error e => simp [hblank]
        | ok root =>
          rw [htext, hroot] at h
          simp [hblank] at h

/-- A visit with a page is answered with the page, compiled or from the cache. -/
theorem serve_of_some (h : v.draft? = some draft) :
    host.serve cache v =
      match (compileCached ⟨host.workingDirectory, v.settings⟩ host.compiler cache draft.markup
        draft.path).run.run ⟨host.fresh, []⟩ with
      | (.ok (page, cache), session) => ⟨v.response.withText page, session, cache⟩
      | (.error e, session) => ⟨.error e, session, cache⟩ := by
  unfold Visit.draft? at h
  split at h
  · cases h
  · rename_i hpage
    split at h
    · rename_i markup root htext hroot
      split at h
      · cases h
      · rename_i hblank
        cases h
        unfold serve exchange
        rcases hrun : (compileCached ⟨host.workingDirectory, v.settings⟩ host.compiler cache markup
          (documentPath root v.request)).run.run ⟨host.fresh, []⟩ with ⟨_ | _, session⟩ <;>
        simp only [hpage, Bool.false_eq_true, if_false, htext, hblank, hroot, hrun]
    · cases h

theorem key_eq (draft : Draft) : Cache.key draft.path draft.markup = draft.key := rfl

/-- A page that the cache holds goes out as it is there. -/
theorem serve_of_hit (h : v.draft? = some draft) {page : Text}
    (hhit : cache.lookup draft.key = some page) :
    (host.serve cache v).cache = cache ∧
      (host.serve cache v).answer = v.response.withText page := by
  rw [serve_of_some host cache h, compileCached]
  simp only [key_eq, hhit, run_pure, and_self]

/-- A page that the cache does not hold is compiled, and nothing else is put in. -/
theorem serve_of_miss (h : v.draft? = some draft) (hmiss : cache.lookup draft.key = none) :
    (host.serve cache v).answer = host.compiledAnswer v draft ∧
      ((host.serve cache v).cache = cache ∨
        ∃ page timeout, host.compiled v.settings draft = .ok page ∧
          (host.serve cache v).cache = cache.put timeout draft.key page) := by
  rw [serve_of_some host cache h, compileCached, compiledAnswer, compiled]
  simp only [key_eq, hmiss, run_bind]
  rcases (Page.compile ⟨host.workingDirectory, v.settings⟩ host.compiler draft.markup
    draft.path).run.run ⟨host.fresh, []⟩ with ⟨e | made, session⟩
  · exact ⟨rfl, .inl rfl⟩
  · simp only [run_ofExcept]
    cases v.settings.cacheTimeout? with
    | error e => exact ⟨rfl, .inl rfl⟩
    | ok timeout =>
      simp only [mapError_ok, run_log, run_pure, Except.map, bind, Except.bind, true_and]
      exact .inr ⟨made.code, timeout, rfl, rfl⟩

end Host

-- ---------------------------------------------------------------------------
-- Keys
-- ---------------------------------------------------------------------------

/-- Whether no two of the texts have encodings that collide under SHA-256. -/
def NoCollisions (texts : List Text) : Prop :=
  ∀ s ∈ texts, ∀ t ∈ texts,
    Digest.sha256 (Charset.Utf8.encode s) = Digest.sha256 (Charset.Utf8.encode t) →
      Charset.Utf8.encode s = Charset.Utf8.encode t

/-- Whether two pages are different and have one text between them, of which their keys are
digests. -/
def Confusable (draft other : Draft) : Prop := draft ≠ other ∧ draft.text = other.text

theorem text_eq_of_key {texts : List Text} (hcollisions : NoCollisions texts) {draft other : Draft}
    (hdraft : draft.text ∈ texts) (hother : other.text ∈ texts) (h : draft.key = other.key) :
    draft.text = other.text := by
  have hshort : Digest.short 64 draft.text = Digest.short 64 other.text :=
    List.append_cancel_left h
  exact Charset.Utf8.encode_injective
    (hcollisions _ hdraft _ hother (Digest.sha256_eq_of_short hshort))

/-- One of two pages that are confusable has a NUL character in its path. -/
theorem nul_mem_of_confusable {draft other : Draft} (h : Confusable draft other) :
    '\x00' ∈ draft.path ∨ '\x00' ∈ other.path := by
  obtain ⟨path, markup⟩ := draft
  obtain ⟨path', markup'⟩ := other
  obtain ⟨hne, htext⟩ := h
  have hnul {between rest rest' : Text} (h : '\x00' :: rest = between ++ '\x00' :: rest') :
      between = [] ∧ rest = rest' ∨ '\x00' ∈ between := by
    cases between with
    | nil => exact .inl ⟨rfl, List.tail_eq_of_cons_eq h⟩
    | cons c between =>
      cases List.head_eq_of_cons_eq h
      exact .inr List.mem_cons_self
  rcases List.append_eq_append_iff.1 htext with ⟨between, rfl, hrest⟩ | ⟨between, rfl, hrest⟩
  · rcases hnul hrest with ⟨rfl, rfl⟩ | hmem
    · exact absurd (by rw [List.append_nil]) hne
    · exact .inr (List.mem_append_right path hmem)
  · rcases hnul hrest with ⟨rfl, rfl⟩ | hmem
    · exact absurd (by rw [List.append_nil]) hne
    · exact .inl (List.mem_append_right path' hmem)

-- ---------------------------------------------------------------------------
-- Histories
-- ---------------------------------------------------------------------------

/-- Whether a visit may find the cache `found`: under each key, what was last put in, or nothing. -/
def Cache.MayYield (cache found : Cache) : Prop :=
  ∀ key, found.lookup key = none ∨ found.lookup key = cache.lookup key

/-- `History host cache visits`: these visits and what came of them, where before them all of `cache`
was put in, the latest first. A page may be lost at any time, and be there again. -/
inductive History (host : Host σ) : Cache → List (Visit σ × Exchange σ) → Prop
  | nil (cache : Cache) : History host cache []
  | cons {cache found : Cache} {v : Visit σ} {rest : List (Visit σ × Exchange σ)}
      (hfound : cache.MayYield found)
      (hrest : History host ((host.serve found v).cache ++ cache) rest) :
      History host cache ((v, host.serve found v) :: rest)

/-- Whether every page in the cache is what was made of the page of one of the visits, under its
key. -/
def Backed (host : Host σ) (visits : List (Visit σ)) (cache : Cache) : Prop :=
  ∀ key page, cache.lookup key = some page → ∃ v ∈ visits, ∃ draft, v.draft? = some draft ∧
    draft.key = key ∧ host.compiled v.settings draft = .ok page

theorem Backed.of_mayYield {host : Host σ} {visits : List (Visit σ)} {cache found : Cache}
    (h : Backed host visits cache) (hfound : cache.MayYield found) : Backed host visits found := by
  intro key page hpage
  rcases hfound key with hlost | hsame
  · cases hlost.symm.trans hpage
  · exact h key page (hsame.symm.trans hpage)

theorem Backed.append {host : Host σ} {visits : List (Visit σ)} {cache later : Cache}
    (hlater : Backed host visits later) (h : Backed host visits cache) :
    Backed host visits (later ++ cache) := by
  intro key page hpage
  rw [List.lookup_append, Option.or_eq_some_iff] at hpage
  rcases hpage with hpage | ⟨-, hpage⟩
  · exact hlater key page hpage
  · exact h key page hpage

theorem Backed.mono {host : Host σ} {visits more : List (Visit σ)} {cache : Cache}
    (h : Backed host visits cache) : Backed host (visits ++ more) cache := by
  intro key page hpage
  obtain ⟨v, hv, hdraft⟩ := h key page hpage
  exact ⟨v, List.mem_append_left more hv, hdraft⟩

/-- What a visit leaves in the cache is what was there, and what it has compiled. -/
theorem Backed.serve {host : Host σ} {visits : List (Visit σ)} {cache : Cache}
    (h : Backed host visits cache) (v : Visit σ) :
    Backed host (visits ++ [v]) (host.serve cache v).cache := by
  cases hdraft : v.draft? with
  | none => exact (host.serve_of_none cache hdraft).1.symm ▸ h.mono
  | some draft =>
    cases hlookup : cache.lookup draft.key with
    | some page => exact (host.serve_of_hit cache hdraft hlookup).1.symm ▸ h.mono
    | none =>
      rcases (host.serve_of_miss cache hdraft hlookup).2 with
        hsame | ⟨made, timeout, hmade, hput⟩
      · exact hsame.symm ▸ h.mono
      · rw [hput]
        cases hkeeps : Cache.keeps timeout with
        | false => exact (Cache.put_of_not_keeps hkeeps).symm ▸ h.mono
        | true =>
          intro key page hpage
          rw [Cache.lookup_put hkeeps] at hpage
          split at hpage
          · rename_i hkey
            cases hpage
            exact ⟨v, List.mem_append_right visits List.mem_cons_self, draft, hdraft, hkey.symm, hmade⟩
          · exact h.mono key page hpage

/-- Every visit of a history finds a cache that the visits before it back. -/
theorem exists_backed_of_history {host : Host σ} {cache : Cache} {earlier : List (Visit σ)}
    {history before after : List (Visit σ × Exchange σ)} {v : Visit σ} {x : Exchange σ}
    (h : History host cache history) (hbacked : Backed host earlier cache)
    (hx : history = before ++ (v, x) :: after) :
    ∃ found, x = host.serve found v ∧ Backed host (earlier ++ before.map Prod.fst) found := by
  -- By induction on the history. All that was put in so far is backed; what a visit finds is part of it.
  induction h generalizing earlier before with
  | nil cache => exact absurd hx.symm (List.append_ne_nil_of_right_ne_nil _ (List.cons_ne_nil _ _))
  | cons hfound _ ih =>
    have hfound := hbacked.of_mayYield hfound
    cases before with
    | nil =>
      cases hx
      exact ⟨_, rfl, hfound.mono⟩
    | cons first before =>
      cases hx
      obtain ⟨found, hserve, hfound'⟩ := ih ((hfound.serve _).append hbacked.mono) rfl
      refine ⟨found, hserve, ?_⟩
      rw [List.append_assoc] at hfound'
      exact hfound'

-- ---------------------------------------------------------------------------
-- Main statement
-- ---------------------------------------------------------------------------

/-- Over any history of visits in which only the document root and the timeout change, and no hashes
collide, the answer to a visit is the one that the same server gives with an empty cache, but for
two cases. The page of an earlier visit may be confusable with the page of this one, which takes a
NUL character in a path: then what was made of that other page goes out. And a timeout of the wrong
kind, which makes a compilation fail, goes unnoticed where the page is in the cache. -/
theorem answer_of_history {host : Host σ} {history before after : List (Visit σ × Exchange σ)}
    {v : Visit σ} {x : Exchange σ} (h : History host [] history)
    (hsettings : ∀ a ∈ history, ∀ b ∈ history, a.1.settings.SameBuild b.1.settings)
    (hcollisions : NoCollisions (history.filterMap fun a => a.1.draft?.map Draft.text))
    (hx : history = before ++ (v, x) :: after) :
    x.answer = (host.serve [] v).answer ∨
    ∃ draft page, v.draft? = some draft ∧ x.answer = v.response.withText page ∧
      ((∃ earlier ∈ before, ∃ other, earlier.1.draft? = some other ∧ Confusable draft other ∧
          ('\x00' ∈ draft.path ∨ '\x00' ∈ other.path) ∧
          host.compiled earlier.1.settings other = .ok page) ∨
        host.compiled v.settings draft = .ok page ∧
          ∃ misuse, v.settings.cacheTimeout? = .error misuse) := by
  have hempty : Backed host [] [] := nofun
  obtain ⟨found, rfl, hbacked⟩ := exists_backed_of_history h hempty hx
  cases hdraft : v.draft? with
  | none => exact .inl (host.serve_of_none found hdraft).2
  | some draft =>
    have hfresh := (host.serve_of_miss [] hdraft rfl).1
    cases hlookup : found.lookup draft.key with
    | none => exact .inl ((host.serve_of_miss found hdraft hlookup).1.trans hfresh.symm)
    | some page =>
      have hanswer := (host.serve_of_hit found hdraft hlookup).2
      obtain ⟨w, hw, other, hother, hkey, hmade⟩ := hbacked _ _ hlookup
      obtain ⟨earlier, hearlier, rfl⟩ := List.mem_map.1 hw
      have hmemv : (v, host.serve found v) ∈ history := hx ▸ List.mem_append_right _ List.mem_cons_self
      have hmemw : earlier ∈ history := hx ▸ List.mem_append_left _ hearlier
      have htext : draft.text = other.text := by
        refine text_eq_of_key hcollisions ?_ ?_ hkey.symm
        · exact List.mem_filterMap.2 ⟨_, hmemv, by rw [hdraft]; rfl⟩
        · exact List.mem_filterMap.2 ⟨_, hmemw, by rw [hother]; rfl⟩
      -- Of one page, the same was made then as is made now, so the timeout alone can tell them apart.
      by_cases hsame : draft = other
      · subst hsame
        rw [host.compiled_congr (hsettings _ hmemw _ hmemv)] at hmade
        cases htimeout : v.settings.cacheTimeout? with
        | error misuse => exact .inr ⟨draft, page, rfl, hanswer, .inr ⟨hmade, misuse, rfl⟩⟩
        | ok timeout =>
          refine .inl (hanswer.trans (hfresh.trans ?_).symm)
          simp only [Host.compiledAnswer, hmade, htimeout, mapError_ok, bind, Except.bind]
      · have hconfusable : Confusable draft other := ⟨hsame, htext⟩
        exact .inr ⟨draft, page, rfl, hanswer, .inl ⟨earlier, hearlier, other, hother, hconfusable,
          nul_mem_of_confusable hconfusable, hmade⟩⟩

theorem answer_of_history_confused :
    let host : Host Unit := ⟨⟨.root, []⟩, .ofSettings (Catalog.find none) [], ()⟩
    let html : Option Text := some "text/html; charset=utf-8".toList
    let first : Visit Unit := ⟨[], "/a.html".toList,
      { contentType := html, body := Charset.Utf8.encode "b.html\x00<p>".toList }⟩
    let second : Visit Unit := ⟨[("CACHE_TIMEOUT".toList, .value (.int 60))],
      "/a.html\x00b.html".toList, { contentType := html, body := Charset.Utf8.encode "<p>".toList }⟩
    let x₁ := host.serve [] first
    let x₂ := host.serve x₁.cache second
    History host [] [(first, x₁), (second, x₂)] ∧ x₂.answer ≠ (host.serve [] second).answer ∧
      ∃ draft other page, second.draft? = some draft ∧ first.draft? = some other ∧
        Confusable draft other ∧ host.compiled first.settings other = .ok page ∧
        x₂.answer = second.response.withText page := by
  intro host html first second x₁ x₂
  have hfirst : first.draft? = some ⟨"/a.html".toList, "b.html\x00<p>".toList⟩ := by decide +kernel
  have hsecond : second.draft? = some ⟨"/a.html\x00b.html".toList, "<p>".toList⟩ := by decide +kernel
  have hhistory : History host [] [(first, x₁), (second, x₂)] := by
    refine .cons (fun _ => .inl rfl) (.cons (fun _ => .inr ?_) (.nil _))
    rw [List.append_nil]
  have hsettings : ∀ a ∈ [(first, x₁), (second, x₂)], ∀ b ∈ [(first, x₁), (second, x₂)],
      a.1.settings.SameBuild b.1.settings := by
    intro a ha b hb key _ htimeout
    have hnone : ∀ a ∈ [(first, x₁), (second, x₂)], a.1.settings.lookup key = none := by
      simpa [first, second, List.lookup_cons] using htimeout
    rw [hnone a ha, hnone b hb]
  have hcollisions : NoCollisions ([(first, x₁), (second, x₂)].filterMap fun a =>
      a.1.draft?.map Draft.text) := by
    have htext : ∀ s ∈ [(first, x₁), (second, x₂)].filterMap fun a => a.1.draft?.map Draft.text,
        s = "/a.html\x00b.html\x00<p>".toList := by
      simp [hfirst, hsecond, Draft.text]
    intro s hs t ht _
    rw [htext s hs, htext t ht]
  have hbodies : x₂.answer.toOption.map Response.body ≠
      (host.serve [] second).answer.toOption.map Response.body := by decide +kernel
  have hanswer : x₂.answer ≠ (host.serve [] second).answer := fun heq => hbodies (by rw [heq])
  refine ⟨hhistory, hanswer, ?_⟩
  have hsplit : [(first, x₁), (second, x₂)] = [(first, x₁)] ++ (second, x₂) :: [] := rfl
  rcases answer_of_history hhistory hsettings hcollisions hsplit with
    hfresh | ⟨draft, page, hdraft, hpage, hother | ⟨-, misuse, hmisuse⟩⟩
  · exact absurd hfresh hanswer
  · obtain ⟨earlier, hearlier, other, hother, hconfusable, -, hmade⟩ := hother
    cases List.mem_singleton.1 hearlier
    exact ⟨draft, other, page, hdraft, hother, hconfusable, hmade, hpage⟩
  · cases hmisuse

end Server

end PageSplice
