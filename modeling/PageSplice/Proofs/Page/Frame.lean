-- SUMMARY: What a compilation changes: the spans of a page that are replaced, and that all else stays.
import PageSplice.Proofs.Html.Attributes
import PageSplice.Proofs.Page.Turn
import PageSplice.Proofs.Region

/-!
# The frame of a compilation

References are made absolute, addresses are made secure, and bodies are
replaced, each by a pass of its own over the same document. All of them are
calls on elements, so what is written in the end follows from which elements
the calls are on: the start tags of relative resources and of addresses without
a scheme, and the bodies of the regions of which a compiler has made something.
-/

namespace PageSplice.Page

open Build Html.Document

variable {σ : Type}

-- ---------------------------------------------------------------------------
-- Resources
-- ---------------------------------------------------------------------------

def IsRelativeResource (rules : RegionRules) (e : Html.Element) : Prop :=
  ∃ tag reference, rules.resourceTag = .fit tag ∧ e.tag = Text.lower tag ∧
    e.value? "src".toList = some reference ∧ reference ≠ [] ∧ isAbsolute reference = .ok false

def anchorCall? (directory : Path) (path : Text) (r : ResourceRegion) : Option Call :=
  match canonical? directory path (r.reference.getD []) with
  | .ok (some reference) => some (.setAttribute r.element "src".toList reference)
  | _ => none

theorem exists_of_anchorCall? {directory : Path} {path : Text} {r : ResourceRegion} {call : Call}
    (h : anchorCall? directory path r = some call) :
    ∃ reference, call = .setAttribute r.element "src".toList reference := by
  unfold anchorCall? at h
  split at h
  · rename_i reference _
    exact ⟨reference, (Option.some.inj h).symm⟩
  · cases h

theorem canonicalize_eq_ok {directory : Path} {path : Text} {d d' : Html.Document}
    {r : ResourceRegion} (h : canonicalize directory path d r = .ok d') :
    d' = d.performAll (anchorCall? directory path r).toList ∧
      ∃ new, canonical? directory path (r.reference.getD []) = .ok new := by
  unfold canonicalize at h
  unfold anchorCall?
  cases hnew : canonical? directory path (r.reference.getD []) with
  | error failure =>
    rw [hnew] at h
    cases h
  | ok new =>
    rw [hnew] at h
    cases h
    cases new <;> exact ⟨rfl, _, rfl⟩

theorem foldlM_canonicalize_eq_ok {directory : Path} {path : Text} {d d' : Html.Document}
    {resources : List ResourceRegion}
    (h : resources.foldlM (canonicalize directory path) d = .ok d') :
    d' = d.performAll (resources.filterMap (anchorCall? directory path)) ∧
      ∀ r ∈ resources, ∃ new, canonical? directory path (r.reference.getD []) = .ok new := by
  induction resources generalizing d with
  | nil =>
    cases h
    exact ⟨rfl, fun r hr => nomatch hr⟩
  | cons r rest ih =>
    rw [List.foldlM_cons] at h
    cases hfirst : canonicalize directory path d r with
    | error failure =>
      rw [hfirst] at h
      cases h
    | ok d₁ =>
      rw [hfirst] at h
      obtain ⟨rfl, hnew⟩ := canonicalize_eq_ok hfirst
      obtain ⟨hdocument, hrest⟩ := ih h
      refine ⟨?_, List.forall_mem_cons.2 ⟨hnew, hrest⟩⟩
      rw [hdocument, ← performAll_append, List.filterMap_cons]
      cases anchorCall? directory path r <;> rfl

/-- Of the references that can be made absolute, just the relative ones are. -/
theorem isSome_anchorCall? {directory : Path} {path : Text} {r : ResourceRegion}
    {new : Option Text} (h : canonical? directory path (r.reference.getD []) = .ok new) :
    (∃ call, anchorCall? directory path r = some call) ↔
      ∃ reference, r.reference = some reference ∧ reference ≠ [] ∧
        isAbsolute reference = .ok false := by
  unfold anchorCall?
  rw [h]
  unfold canonical? at h
  cases hreference : r.reference with
  | none =>
    rw [hreference] at h
    cases h
    simp
  | some reference =>
    simp only [hreference, Option.getD_some, Option.some.injEq, exists_eq_left'] at h ⊢
    split at h
    · rename_i hempty
      cases h
      simp [List.isEmpty_iff.1 hempty]
    · rename_i hempty
      split at h
      · cases h
      · split at h
        · cases h
        · rename_i habsolute
          cases h
          simp [habsolute]
        · rename_i habsolute
          cases h
          simpa [habsolute] using hempty

-- ---------------------------------------------------------------------------
-- Addresses
-- ---------------------------------------------------------------------------

def IsInsecure (e : Html.Element) : Prop :=
  ∃ name reference, (e.tag, name) ∈ securedAttributes ∧ e.value? name = some reference ∧
    lacksScheme reference = true

/-- Whether the attribute `name` of the element at `index` is an address that lacks a scheme. -/
def NeedsScheme (d : Html.Document) (name : Text) (index : Nat) : Prop :=
  ∃ e reference, d.elements[index]? = some e ∧ e.value? name = some reference ∧
    lacksScheme reference = true

theorem secureElement_cases (name : Text) (d : Html.Document) (index : Nat) :
    (NeedsScheme d name index ∧ ∃ reference,
      secureElement name d index = d.performAll [.setAttribute index name reference]) ∨
    (¬ NeedsScheme d name index ∧ secureElement name d index = d) := by
  unfold secureElement NeedsScheme
  cases he : d.elements[index]? with
  | none => simp
  | some e =>
    cases hvalue : e.value? name with
    | none => simp [hvalue]
    | some reference =>
      cases hlacks : lacksScheme reference with
      | false => simp [hvalue, hlacks]
      | true =>
        refine .inl ⟨⟨e, reference, rfl, hvalue, hlacks⟩, "https:".toList ++ reference, ?_⟩
        simp only [Option.bind_some, hvalue, hlacks, if_true]
        rfl

/-- Calls that do not change the attribute of an element do not change whether it needs a scheme. -/
theorem needsScheme_performAll {d : Html.Document} {calls : List Call} {name : Text} {index : Nat}
    (h : ∀ e, d.elements[index]? = some e →
      (actAll calls index e).value? name = e.value? name) :
    NeedsScheme (d.performAll calls) name index ↔ NeedsScheme d name index := by
  unfold NeedsScheme
  rw [getElem?_performAll]
  cases he : d.elements[index]? with
  | none => simp
  | some e => simp [h e he]

/-- Making addresses secure sets the attribute of just those elements that need a scheme. -/
theorem exists_calls_secureElement (name : Text) (d : Html.Document) (indices : List Nat) :
    ∃ calls, indices.foldl (secureElement name) d = d.performAll calls ∧
      (∀ call ∈ calls, ∃ index reference, call = .setAttribute index name reference) ∧
      ∀ i, calls.any (Call.setsTag i) = true ↔ i ∈ indices ∧ NeedsScheme d name i := by
  induction indices generalizing d with
  | nil => exact ⟨[], rfl, List.forall_mem_nil _, fun i => by simp⟩
  | cons index rest ih =>
    rcases secureElement_cases name d index with ⟨hneeds, reference, hset⟩ | ⟨hneeds, hkeep⟩
    · obtain ⟨calls, hcalls, hshape, hany⟩ :=
        ih (d.performAll [.setAttribute index name reference])
      refine ⟨.setAttribute index name reference :: calls, ?_, ?_, fun i => ?_⟩
      · rw [List.foldl_cons, hset, hcalls]
        rfl
      · exact List.forall_mem_cons.2 ⟨⟨index, reference, rfl⟩, hshape⟩
      · rw [List.any_cons, Bool.or_eq_true, hany, List.mem_cons]
        by_cases hi : index = i
        · subst hi
          simp [Call.setsTag, hneeds]
        · have hsame : NeedsScheme (d.performAll [.setAttribute index name reference]) name i ↔
              NeedsScheme d name i := by
            refine needsScheme_performAll fun e _ => ?_
            rw [actAll_eq_self (by simpa [Call.setsTag] using hi) (by simp [Call.body?])]
          rw [hsame]
          simp [Call.setsTag, hi, Ne.symm hi]
    · obtain ⟨calls, hcalls, hshape, hany⟩ := ih d
      refine ⟨calls, by rw [List.foldl_cons, hkeep, hcalls], hshape, fun i => ?_⟩
      rw [hany, List.mem_cons]
      constructor
      · rintro ⟨hmem, hi⟩
        exact ⟨.inr hmem, hi⟩
      · rintro ⟨rfl | hmem, hi⟩
        · exact absurd hi hneeds
        · exact ⟨hmem, hi⟩

theorem secureLinks_eq (d : Html.Document) :
    secureLinks d =
      let d₁ := (d.query "link".toList).foldl (secureElement "href".toList) d
      (d₁.query "script".toList).foldl (secureElement "src".toList) d₁ := rfl

theorem mem_query_performAll {d : Html.Document} {calls : List Call} {tag : Text} {i : Nat} :
    i ∈ (d.performAll calls).query tag ↔ i ∈ d.query tag := by
  rw [mem_query, mem_query, getElem?_performAll]
  cases he : d.elements[i]? with
  | none => simp
  | some e => simp [tag_actAll]

/-- The two passes that make addresses secure are calls on the elements that have such addresses. -/
theorem exists_calls_secureLinks (d : Html.Document) :
    ∃ calls, secureLinks d = d.performAll calls ∧ (∀ call ∈ calls, ∀ i, call.body? i = none) ∧
      ∀ i e, d.elements[i]? = some e → (calls.any (Call.setsTag i) = true ↔ IsInsecure e) := by
  obtain ⟨links, hlinks, hlinkShape, hlinkAny⟩ :=
    exists_calls_secureElement "href".toList d (d.query "link".toList)
  obtain ⟨scripts, hscripts, hscriptShape, hscriptAny⟩ := exists_calls_secureElement "src".toList
    (d.performAll links) ((d.performAll links).query "script".toList)
  refine ⟨links ++ scripts, ?_, ?_, fun i e he => ?_⟩
  · rw [secureLinks_eq, hlinks]
    exact hscripts.trans (performAll_append d links scripts).symm
  · intro call hcall i
    rcases List.mem_append.1 hcall with hcall | hcall
    · obtain ⟨index, reference, rfl⟩ := hlinkShape call hcall
      rfl
    · obtain ⟨index, reference, rfl⟩ := hscriptShape call hcall
      rfl
  · have hsource : NeedsScheme (d.performAll links) "src".toList i ↔
        NeedsScheme d "src".toList i := by
      refine needsScheme_performAll fun e _ => value?_actAll (fun call hcall j name value heq => ?_) i e
      obtain ⟨index, reference, rfl⟩ := hlinkShape call hcall
      cases heq
      decide
    have hneeds (name : Text) : NeedsScheme d name i ↔
        ∃ reference, e.value? name = some reference ∧ lacksScheme reference = true := by
      simp [NeedsScheme, he]
    have hnamed (tag : Text) : i ∈ d.query tag ↔ e.tag = Text.lower tag := by
      simp [mem_query, he]
    rw [List.any_append, Bool.or_eq_true, hlinkAny, hscriptAny, hsource, mem_query_performAll,
      hneeds, hneeds, hnamed, hnamed]
    constructor
    · rintro (⟨htag, reference, hvalue⟩ | ⟨htag, reference, hvalue⟩)
      · exact ⟨_, reference, by rw [htag]; decide, hvalue⟩
      · exact ⟨_, reference, by rw [htag]; decide, hvalue⟩
    · rintro ⟨name, reference, hsecured, hvalue⟩
      simp only [securedAttributes, List.mem_cons, List.not_mem_nil, or_false,
        Prod.mk.injEq] at hsecured
      rcases hsecured with ⟨htag, rfl⟩ | ⟨htag, rfl⟩
      · exact .inl ⟨htag.trans (by decide), reference, hvalue⟩
      · exact .inr ⟨htag.trans (by decide), reference, hvalue⟩

-- ---------------------------------------------------------------------------
-- Preparation
-- ---------------------------------------------------------------------------

theorem mem_resourceRegions {regions : List Region} {r : ResourceRegion} :
    r ∈ resourceRegions regions ↔ .resource r ∈ regions := by
  unfold resourceRegions
  rw [List.mem_filterMap]
  constructor
  · rintro ⟨region, hregion, heq⟩
    cases region with
    | code r' => cases heq
    | resource r' =>
      cases heq
      exact hregion
  · exact fun h => ⟨_, h, rfl⟩

theorem mem_codeRegions {regions : List Region} {r : CodeRegion} :
    r ∈ codeRegions regions ↔ .code r ∈ regions := by
  unfold codeRegions
  rw [List.mem_filterMap]
  constructor
  · rintro ⟨region, hregion, heq⟩
    cases region with
    | resource r' => cases heq
    | code r' =>
      cases heq
      exact hregion
  · exact fun h => ⟨_, h, rfl⟩

/-- Making references absolute is calls on the elements that are relative resources. -/
theorem any_anchorCalls {rules : RegionRules} {d : Html.Document} {regions : List Region}
    {directory : Path} {path : Text} (h : Region.ofDocument rules d = .ok regions)
    (hnew : ∀ r ∈ resourceRegions regions, ∃ new,
      canonical? directory path (r.reference.getD []) = .ok new)
    {i : Nat} {e : Html.Element} (he : d.elements[i]? = some e) :
    ((resourceRegions regions).filterMap (anchorCall? directory path)).any (Call.setsTag i) = true ↔
      IsRelativeResource rules e := by
  rw [List.any_eq_true]
  constructor
  · rintro ⟨call, hcall, hsets⟩
    obtain ⟨r, hr, hanchor⟩ := List.mem_filterMap.1 hcall
    obtain ⟨new, hnew⟩ := hnew r hr
    obtain ⟨reference, hreference, hrelative⟩ := (isSome_anchorCall? hnew).1 ⟨call, hanchor⟩
    obtain ⟨tag, e', htag, he', hname, hvalue⟩ := Region.of_mem_resource h (mem_resourceRegions.1 hr)
    have hi : r.element = i := by
      obtain ⟨reference, rfl⟩ := exists_of_anchorCall? hanchor
      simpa [Call.setsTag] using hsets
    subst hi
    cases he.symm.trans he'
    exact ⟨tag, reference, htag, hname, hvalue ▸ hreference, hrelative⟩
  · rintro ⟨tag, reference, htag, hname, hvalue, hrelative⟩
    obtain ⟨r, hr, rfl, hreference⟩ := Region.exists_resource h htag he hname
    have hr := mem_resourceRegions.2 hr
    obtain ⟨new, hnew⟩ := hnew r hr
    obtain ⟨call, hanchor⟩ :=
      (isSome_anchorCall? hnew).2 ⟨reference, hreference.trans hvalue, hrelative⟩
    refine ⟨call, List.mem_filterMap.2 ⟨r, hr, hanchor⟩, ?_⟩
    obtain ⟨reference, rfl⟩ := exists_of_anchorCall? hanchor
    simp [Call.setsTag]

theorem prepare_of_malformed {workingDirectory : Path} {rules : RegionRules} {markup path : Text}
    {e : Html.Malformation} (hparse : Html.Document.parse markup = .error e) :
    prepare workingDirectory rules markup path = .error (.malformed e) := by
  unfold prepare
  split
  · rename_i hfails
    cases hparse.symm.trans hfails
    rfl
  · rename_i hok
    cases hparse.symm.trans hok

theorem prepare_of_misuse {workingDirectory : Path} {rules : RegionRules} {markup path : Text}
    {d : Html.Document} {e : Misuse} (hparse : Html.Document.parse markup = .ok d)
    (hregions : Region.ofDocument rules d = .error e) :
    prepare workingDirectory rules markup path = .error (.misuse e) := by
  unfold prepare
  split
  · rename_i hfails
    cases hparse.symm.trans hfails
  · rename_i hok
    cases hparse.symm.trans hok
    split
    · rename_i hfails
      cases hregions.symm.trans hfails
      rfl
    · rename_i hok
      cases hregions.symm.trans hok

/-- A page is prepared where its document can be read, its regions are found and all its references
can be made absolute. Then relative references are made absolute, and addresses secure. -/
theorem prepare_eq_ok {workingDirectory : Path} {rules : RegionRules} {markup path : Text}
    {page : Prepared markup} (h : prepare workingDirectory rules markup path = .ok page) :
    ∃ d regions, Html.Document.parse markup = .ok d ∧ Region.ofDocument rules d = .ok regions ∧
      page.regions = codeRegions regions ∧
      page.document = secureLinks (d.performAll ((resourceRegions regions).filterMap
        (anchorCall? (Path.directoryOf workingDirectory path) path))) ∧
      ∀ r ∈ resourceRegions regions, ∃ new,
        canonical? (Path.directoryOf workingDirectory path) path (r.reference.getD []) = .ok new := by
  unfold prepare at h
  split at h
  · cases h
  · rename_i d hparse
    split at h
    · cases h
    · rename_i regions hregions
      simp only at h
      cases hanchored : (resourceRegions regions).foldlM
          (canonicalize (Path.directoryOf workingDirectory path) path) d with
      | error failure =>
        rw [hanchored] at h
        cases h
      | ok anchored =>
        rw [hanchored] at h
        cases h
        obtain ⟨rfl, hnew⟩ := foldlM_canonicalize_eq_ok hanchored
        exact ⟨d, regions, hparse, hregions, rfl, rfl, hnew⟩

/-- What preparing a page does to its document is calls on the elements that are relative resources
or have insecure addresses. -/
theorem exists_calls_of_prepare {workingDirectory : Path} {rules : RegionRules}
    {markup path : Text} {page : Prepared markup}
    (h : prepare workingDirectory rules markup path = .ok page) :
    ∃ d regions calls, Html.Document.parse markup = .ok d ∧
      Region.ofDocument rules d = .ok regions ∧ page.regions = codeRegions regions ∧
      page.document = d.performAll calls ∧ (∀ call ∈ calls, ∀ i, call.body? i = none) ∧
      ∀ i e, d.elements[i]? = some e →
        (calls.any (Call.setsTag i) = true ↔ IsRelativeResource rules e ∨ IsInsecure e) := by
  obtain ⟨d, regions, hparse, hregions, hcode, hdocument, hnew⟩ := prepare_eq_ok h
  generalize hanchors : (resourceRegions regions).filterMap
    (anchorCall? (Path.directoryOf workingDirectory path) path) = anchors at hdocument
  have hbody : ∀ call ∈ anchors, ∀ i, call.body? i = none := by
    intro call hcall i
    obtain ⟨r, -, hanchor⟩ := List.mem_filterMap.1 (hanchors ▸ hcall)
    obtain ⟨reference, rfl⟩ := exists_of_anchorCall? hanchor
    rfl
  obtain ⟨secures, hsecure, hsecureBody, hsecureAny⟩ :=
    exists_calls_secureLinks (d.performAll anchors)
  refine ⟨d, regions, anchors ++ secures, hparse, hregions, hcode, ?_, ?_, fun i e he => ?_⟩
  · rw [hdocument, hsecure, ← performAll_append]
  · intro call hcall i
    rcases List.mem_append.1 hcall with hcall | hcall
    · exact hbody call hcall i
    · exact hsecureBody call hcall i
  · have hany := any_anchorCalls hregions hnew he
    rw [hanchors] at hany
    have hsecureAny := hsecureAny i _ (by rw [getElem?_performAll, he]; rfl)
    rw [List.any_append, Bool.or_eq_true, hany, hsecureAny]
    -- An element that has been anchored is among those that are set, whatever it is now.
    cases hanchor : anchors.any (Call.setsTag i) with
    | true =>
      have := hany.1 hanchor
      simp [this]
    | false =>
      rw [actAll_eq_self hanchor (fun call hcall => hbody call hcall i)]

-- ---------------------------------------------------------------------------
-- Bodies
-- ---------------------------------------------------------------------------

/-- Whether something was made of the region that the element at `index` is. -/
def IsCompiled (turns : List (CodeRegion × Option Output)) (index : Nat) : Prop :=
  ∃ r made, (r, some made) ∈ turns ∧ r.element = index

theorem lastBody?_spliceCalls {rules : RegionRules} {path : Text}
    {turns : List (CodeRegion × Option Output)} {i : Nat} {body : Text}
    (h : lastBody? (turns.filterMap (spliceCall? rules path)) i = some body) :
    IsCompiled turns i := by
  obtain ⟨call, hcall, hbody⟩ := List.mem_filterMap.1 (List.mem_of_getLast? h)
  obtain ⟨⟨r, made?⟩, hturn, hsplice⟩ := List.mem_filterMap.1 hcall
  obtain ⟨made, rfl, rfl⟩ := Option.map_eq_some_iff.1 hsplice
  by_cases hi : r.element = i
  · exact ⟨r, made, hturn, hi⟩
  · rw [Call.body?, if_neg hi] at hbody
    cases hbody

theorem lastBody?_spliceCalls_of_mem {rules : RegionRules} {path : Text}
    {turns : List (CodeRegion × Option Output)}
    (hsorted : (turns.map Prod.fst).Pairwise fun a b => a.element < b.element) {r : CodeRegion}
    {made : Output} (h : (r, some made) ∈ turns) :
    lastBody? (turns.filterMap (spliceCall? rules path)) r.element =
      some (bodyFor rules r (identityOf path r) made) := by
  induction turns with
  | nil => cases h
  | cons turn rest ih =>
    obtain ⟨hbefore, hrest⟩ := List.pairwise_cons.1 hsorted
    rcases List.mem_cons.1 h with rfl | h
    · have hlater : lastBody? (rest.filterMap (spliceCall? rules path)) r.element = none := by
        refine Option.eq_none_iff_forall_ne_some.2 fun body hbody => ?_
        obtain ⟨r', made', hmem, heq⟩ := lastBody?_spliceCalls hbody
        have := hbefore r' (List.mem_map_of_mem (f := Prod.fst) hmem)
        exact absurd heq (Nat.ne_of_gt this)
      rw [List.filterMap_cons]
      simp only [spliceCall?, Option.map_some]
      rw [lastBody?_cons]
      refine (congrArg (Option.or · _) hlater).trans ?_
      exact (Option.none_or).trans (if_pos rfl)
    · rw [List.filterMap_cons]
      cases spliceCall? rules path turn with
      | none => exact ih hrest h
      | some call =>
        simp only [lastBody?_cons, ih hrest h, Option.some_or]

-- ---------------------------------------------------------------------------
-- The frame
-- ---------------------------------------------------------------------------

theorem setsTag_spliceCalls {rules : RegionRules} {path : Text} {i : Nat}
    (turns : List (CodeRegion × Option Output)) :
    (turns.filterMap (spliceCall? rules path)).any (Call.setsTag i) = false := by
  refine List.any_eq_false.2 fun call hcall => ?_
  obtain ⟨turn, -, hsplice⟩ := List.mem_filterMap.1 hcall
  obtain ⟨made, -, rfl⟩ := Option.map_eq_some_iff.1 hsplice
  simp [Call.setsTag]

/-- New bodies leave all attributes as they are. -/
theorem value?_actAll_spliceCalls (rules : RegionRules) (path : Text)
    (turns : List (CodeRegion × Option Output)) (i : Nat) (e : Html.Element) (name : Text) :
    (actAll (turns.filterMap (spliceCall? rules path)) i e).value? name = e.value? name := by
  refine value?_actAll (fun call hcall j other value heq => ?_) i e
  obtain ⟨turn, -, hsplice⟩ := List.mem_filterMap.1 hcall
  obtain ⟨made, -, rfl⟩ := Option.map_eq_some_iff.1 hsplice
  cases heq

theorem lastBody?_append_of_none {calls : List Call}
    (h : ∀ call ∈ calls, ∀ i, call.body? i = none) (more : List Call) (i : Nat) :
    lastBody? (calls ++ more) i = lastBody? more i := by
  unfold lastBody?
  rw [List.filterMap_append, List.filterMap_eq_nil_iff.2 fun call hcall => h call hcall i,
    List.nil_append]

theorem pairwise_codeRegions_of {R : Region → Region → Prop} {regions : List Region}
    (h : regions.Pairwise R) : (codeRegions regions).Pairwise fun a b => R (.code a) (.code b) := by
  refine List.Pairwise.filterMap _ ?_ h
  intro a b hab r hr r' hr'
  cases a <;> cases hr
  cases b <;> cases hr'
  exact hab

theorem pairwise_codeRegions {rules : RegionRules} {d : Html.Document} {regions : List Region}
    (h : Region.ofDocument rules d = .ok regions) :
    (codeRegions regions).Pairwise fun a b => a.element < b.element :=
  pairwise_codeRegions_of (Region.pairwise_ofDocument h)

/-- What a compilation writes is the document of the page after calls: some set an attribute of each
element that is a relative resource or has an insecure address, the others set the text of each
region that something was made of. -/
theorem exists_calls_of_compile {env : Environment σ} {c : PageCompiler σ} {markup path : Text}
    {s s' : Session σ} {out : Output} (h : (compile env c markup path).Yields s out s') :
    ∃ d regions turns s₀ s₁ calls,
      Html.Document.parse markup = .ok d ∧
      Region.ofDocument c.rules d = .ok regions ∧
      turns.map Prod.fst = (codeRegions regions).filter (·.mimeType.isSome) ∧
      (((codeRegions regions).filter (·.mimeType.isNone)).forM (logUntyped · path)).Yields s () s₀ ∧
      Turns env c path turns s₀ s₁ ∧
      out.code = (d.performAll calls).serialize ∧
      (∀ i e, d.elements[i]? = some e →
        (calls.any (Call.setsTag i) = true ↔ IsRelativeResource c.rules e ∨ IsInsecure e)) ∧
      (∀ i e, d.elements[i]? = some e →
        ((isLeaf e = true ∧ ∃ body, lastBody? calls i = some body) ↔ IsCompiled turns i)) ∧
      ∀ r made, (r, some made) ∈ turns →
        lastBody? calls r.element = some (bodyFor c.rules r (identityOf path r) made) := by
  obtain ⟨page, turns, s₀, s₁, hprepare, hfst, hnotes, hturns, hcode, hleaf⟩ := turns_of_compile h
  obtain ⟨d, regions, calls, hparse, hregions, hcodeRegions, hdocument, hnoBody, htag⟩ :=
    exists_calls_of_prepare hprepare
  rw [hcodeRegions] at hfst hnotes
  rw [hdocument, ← performAll_append] at hcode
  generalize hsplices : turns.filterMap (spliceCall? c.rules path) = splices at hcode
  have hsorted : (turns.map Prod.fst).Pairwise fun a b => a.element < b.element :=
    hfst ▸ List.Pairwise.filter _ (pairwise_codeRegions hregions)
  have hmade (r : CodeRegion) (made : Output) (hmem : (r, some made) ∈ turns) :
      lastBody? (calls ++ splices) r.element =
        some (bodyFor c.rules r (identityOf path r) made) := by
    rw [lastBody?_append_of_none hnoBody, ← hsplices]
    exact lastBody?_spliceCalls_of_mem hsorted hmem
  refine ⟨d, regions, turns, s₀, s₁, calls ++ splices, hparse, hregions, hfst, hnotes, hturns, hcode,
    fun i e he => ?_, fun i e he => ?_, hmade⟩
  · rw [List.any_append, ← hsplices, setsTag_spliceCalls, Bool.or_false]
    exact htag i e he
  · constructor
    · rintro ⟨-, body, hbody⟩
      rw [lastBody?_append_of_none hnoBody, ← hsplices] at hbody
      exact lastBody?_spliceCalls hbody
    · rintro ⟨r, made, hmem, rfl⟩
      refine ⟨?_, _, hmade r made hmem⟩
      rw [← isLeaf_actAll calls r.element]
      exact hleaf r made _ hmem (by rw [hdocument, getElem?_performAll, he]; rfl)

/-- What a compilation writes is the markup with these stretches replaced, none of which overlap,
and all else kept: the start tag of each element that is a relative resource or has an insecure
address, and the body of each code region with a type and a compiler that has taken it when its turn
came, by what was made of it. Where there is no such element and no such region, the markup is
written as it was. -/
theorem rewrites_compile {env : Environment σ} {c : PageCompiler σ} {markup path : Text}
    {s s' : Session σ} {out : Output} (h : (compile env c markup path).Yields s out s') :
    ∃ d regions turns s₀ s₁ edits,
      Html.Document.parse markup = .ok d ∧
      Region.ofDocument c.rules d = .ok regions ∧
      turns.map Prod.fst = (codeRegions regions).filter (·.mimeType.isSome) ∧
      (((codeRegions regions).filter (·.mimeType.isNone)).forM (logUntyped · path)).Yields s () s₀ ∧
      Turns env c path turns s₀ s₁ ∧
      Rewrites 0 markup edits out.code ∧
      edits.Pairwise Edit.Precedes ∧
      (∀ edit ∈ edits, edit.start ≤ edit.stop ∧ edit.stop ≤ markup.length) ∧
      (∀ start stop, (∃ text, ⟨start, stop, text⟩ ∈ edits) ↔ ∃ i e, d.elements[i]? = some e ∧
        ((IsRelativeResource c.rules e ∨ IsInsecure e) ∧ start = e.start ∧ stop = e.bodyStart ∨
          IsCompiled turns i ∧ start = e.bodyStart ∧ e.bodyEnd = some stop)) ∧
      (∀ r made, (r, some made) ∈ turns → ∃ e stop, d.elements[r.element]? = some e ∧
        e.bodyEnd = some stop ∧
        ⟨e.bodyStart, stop, bodyFor c.rules r (identityOf path r) made⟩ ∈ edits) ∧
      ((∀ i e, d.elements[i]? = some e →
        ¬ (IsRelativeResource c.rules e ∨ IsInsecure e) ∧ ¬ IsCompiled turns i) →
          out.code = markup) := by
  obtain ⟨d, regions, turns, s₀, s₁, calls, hparse, hregions, hfst, hnotes, hturns, hcode, htags,
    hcompiled, hmade⟩ := exists_calls_of_compile h
  have hspans (start stop : Nat) : (∃ text, ⟨start, stop, text⟩ ∈ d.editsAfter calls) ↔
      ∃ i e, d.elements[i]? = some e ∧
        ((IsRelativeResource c.rules e ∨ IsInsecure e) ∧ start = e.start ∧ stop = e.bodyStart ∨
          IsCompiled turns i ∧ start = e.bodyStart ∧ e.bodyEnd = some stop) := by
    rw [exists_mem_editsAfter]
    refine exists_congr fun i => exists_congr fun e => and_congr_right fun he => ?_
    rw [htags i e he, hcompiled i e he]
  have hrewrites : Rewrites 0 markup (d.editsAfter calls) out.code :=
    hcode ▸ rewrites_serialize hparse calls
  refine ⟨d, regions, turns, s₀, s₁, d.editsAfter calls, hparse, hregions, hfst, hnotes, hturns,
    hrewrites, pairwise_editsAfter hparse _, bounds_editsAfter hparse _, hspans, ?_, ?_⟩
  · intro r made hmem
    have hr : r ∈ codeRegions regions :=
      (List.mem_filter.1 (hfst ▸ List.mem_map_of_mem (f := Prod.fst) hmem)).1
    obtain ⟨e, he, -⟩ := Region.of_mem_code hregions (mem_codeRegions.1 hr)
    obtain ⟨hisLeaf, -⟩ := (hcompiled r.element e he).2 ⟨r, made, hmem, rfl⟩
    obtain ⟨stop, hstop⟩ : ∃ stop, e.bodyEnd = some stop := by
      rw [isLeaf, Bool.and_eq_true] at hisLeaf
      exact Option.isSome_iff_exists.1 hisLeaf.1
    refine ⟨e, stop, he, hstop, mem_editsAfter.2 ⟨r.element, e, he, List.mem_append_right _ ?_⟩⟩
    rw [bodyEdits, if_pos hisLeaf, hmade r made hmem, hstop]
    exact List.mem_singleton.2 rfl
  · intro hnone
    have hnil : d.editsAfter calls = [] := by
      refine List.eq_nil_iff_forall_not_mem.2 fun edit hedit => ?_
      obtain ⟨i, e, he, ⟨hset, -⟩ | ⟨hdone, -⟩⟩ :=
        (hspans edit.start edit.stop).1 ⟨edit.replacement, hedit⟩
      · exact (hnone i e he).1 hset
      · exact (hnone i e he).2 hdone
    rw [hnil] at hrewrites
    generalize out.code = code at hrewrites
    cases hrewrites
    rfl

/-- A delegate that keeps the first character of its code. -/
def shorten : Delegate Unit where
  name := "Shorten".toList
  compile code _ := pure { code := code.take 1, mimeType := "text/javascript".toList }

theorem rewrites_compile_mixed :
    let env : Environment Unit := ⟨⟨.root, []⟩, []⟩
    let c : PageCompiler Unit :=
      ⟨.exact [("text/javascript".toList, .compiler (.delegate shorten))], {}⟩
    let markup := "<x-require src=a.js><link href=//h><script>xy</script><style>b</style>".toList
    ∃ out s' edits, (compile env c markup "/p/a.html".toList).Yields ⟨(), []⟩ out s' ∧
      out.code = ("<x-require src=\"/p/a.js\"><link href=\"https://h\">".toList ++
        "<script>x</script><style>b</style>".toList) ∧
      Rewrites 0 markup edits out.code := by
  intro env c markup
  have hcode : ((compile env c markup "/p/a.html".toList).run.run ⟨(), []⟩).1.toOption.map Output.code =
      some ("<x-require src=\"/p/a.js\"><link href=\"https://h\">".toList ++
        "<script>x</script><style>b</style>".toList) := by decide +kernel
  obtain ⟨out, s', hyields, hcode⟩ := exists_yields hcode
  obtain ⟨-, -, -, -, -, edits, -, -, -, -, -, hrewrites, -⟩ := rewrites_compile hyields
  exact ⟨out, s', edits, hyields, hcode, hrewrites⟩

end PageSplice.Page
