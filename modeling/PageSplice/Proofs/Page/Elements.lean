-- SUMMARY: Elements of a compiled page: what becomes of each start tag and each body, and what the written page is read back as.
import PageSplice.Proofs.Html.Rereading
import PageSplice.Proofs.Page.Anchoring
import PageSplice.Proofs.Page.Dispatch

/-!
# Elements of a compiled page

A compilation goes over the document several times, but what it leaves of an
element depends on that element alone: the reference of a resource is made
absolute, the address of a link or script is made secure, and a region of which
something was made has a new body. So the document that is written is the
document that was read with few changes, at most one to each start tag.
-/

namespace PageSplice.Page

open Build Html.Document

variable {σ : Type}

-- ---------------------------------------------------------------------------
-- Secure elements
-- ---------------------------------------------------------------------------

/-- An element with the scheme `https` in front of the address in its attribute `name`, where that
lacks one. -/
def withScheme (name : Text) (e : Html.Element) : Html.Element :=
  match e.value? name with
  | some reference =>
    if lacksScheme reference then e.setAttribute name ("https:".toList ++ reference) else e
  | none => e

/-- What becomes of an element when the addresses of its document are made secure. -/
def secured (e : Html.Element) : Html.Element :=
  match securedAttributes.lookup e.tag with
  | some name => withScheme name e
  | none => e

theorem lacksScheme_https (reference : Text) :
    lacksScheme ("https:".toList ++ reference) = false := by
  unfold lacksScheme
  rw [show "//".toList.isPrefixOf ("https:".toList ++ reference) = false from rfl, Bool.and_false]

/-- An element keeps its attributes, or its address lacks a scheme and gets one. -/
theorem withScheme_cases (name : Text) (e : Html.Element) :
    (∃ reference, e.value? name = some reference ∧ lacksScheme reference = true ∧
      withScheme name e = e.setAttribute name ("https:".toList ++ reference)) ∨
    (∀ reference, e.value? name = some reference → lacksScheme reference = false) ∧
      withScheme name e = e := by
  unfold withScheme
  cases e.value? name with
  | none => exact .inr ⟨nofun, rfl⟩
  | some reference =>
    cases hlacks : lacksScheme reference with
    | true => exact .inl ⟨reference, rfl, hlacks, by simp only [hlacks, if_true]⟩
    | false => exact .inr ⟨fun _ h => Option.some.inj h ▸ hlacks, by simp [hlacks]⟩

theorem tag_withScheme (name : Text) (e : Html.Element) : (withScheme name e).tag = e.tag := by
  obtain ⟨_, -, -, h⟩ | ⟨-, h⟩ := withScheme_cases name e
  · rw [h]
    rfl
  · rw [h]

theorem withScheme_withScheme (name : Text) (e : Html.Element) :
    withScheme name (withScheme name e) = withScheme name e := by
  obtain ⟨reference, -, -, h⟩ | ⟨-, h⟩ := withScheme_cases name e
  · have hvalue : (e.setAttribute name ("https:".toList ++ reference)).value? name =
        some ("https:".toList ++ reference) := e.value?_setAttribute_self rfl _
    rw [h, withScheme, hvalue]
    simp only [lacksScheme_https, if_neg Bool.false_ne_true]
  · rw [h, h]

theorem secureElement_eq (name : Text) (d : Html.Document) (index : Nat) :
    secureElement name d index = { d with elements := d.elements.modify index (withScheme name) } := by
  unfold secureElement
  cases he : d.elements[index]? with
  | none =>
    rw [List.modify_eq_self (List.getElem?_eq_none_iff.1 he)]
    rfl
  | some e =>
    have hmodify {f : Html.Element → Html.Element} (h : withScheme name e = f e) :
        d.elements.modify index (withScheme name) = d.elements.modify index f := by
      rw [modify_eq_mapIdx, modify_eq_mapIdx]
      refine mapIdx_congr fun i e' he' => ?_
      split
      · rename_i hi
        subst hi
        cases he.symm.trans he'
        exact h
      · rfl
    rw [Option.bind_some]
    obtain ⟨reference, hvalue, hlacks, h⟩ | ⟨hsafe, h⟩ := withScheme_cases name e
    · rw [hvalue, hmodify h]
      exact if_pos hlacks
    · rw [hmodify (f := id) h, List.modify_id]
      cases hvalue : e.value? name with
      | none => rfl
      | some reference => exact if_neg (Bool.eq_false_iff.1 (hsafe reference hvalue))

/-- Elements are made secure one by one; to do so twice is to do so once. -/
theorem foldl_secureElement (name : Text) (d : Html.Document) (indices : List Nat) :
    indices.foldl (secureElement name) d =
      { d with elements := d.elements.mapIdx fun i e =>
          if i ∈ indices then withScheme name e else e } := by
  induction indices generalizing d with
  | nil =>
    have hself : d.elements.mapIdx (fun i e => if i ∈ [] then withScheme name e else e) =
        d.elements := mapIdx_eq_self fun i e _ => if_neg List.not_mem_nil
    rw [hself]
    rfl
  | cons index rest ih =>
    rw [List.foldl_cons, ih, secureElement_eq, modify_eq_mapIdx]
    refine congrArg (Html.Document.mk d.markup) (List.mapIdx_mapIdx.trans ?_)
    refine mapIdx_congr fun i e _ => ?_
    by_cases hi : index = i
    · subst hi
      by_cases hrest : index ∈ rest
      · simp [hrest, withScheme_withScheme]
      · simp [hrest]
    · simp [hi, Ne.symm hi]

/-- Each element has its address in one attribute at most. -/
theorem mem_securedAttributes_iff {tag name : Text} :
    (tag, name) ∈ securedAttributes ↔ securedAttributes.lookup tag = some name := by
  constructor
  · intro hmem
    simp only [securedAttributes, List.mem_cons, List.not_mem_nil, or_false, Prod.mk.injEq] at hmem
    rcases hmem with ⟨rfl, rfl⟩ | ⟨rfl, rfl⟩ <;> rfl
  · intro hlookup
    obtain ⟨before, after, heq, -⟩ := List.lookup_eq_some_iff.1 hlookup
    rw [heq]
    exact List.mem_append_right before List.mem_cons_self

theorem secured_of_mem {e : Html.Element} {name : Text} (h : (e.tag, name) ∈ securedAttributes) :
    secured e = withScheme name e := by
  rw [secured, mem_securedAttributes_iff.1 h]

theorem secured_of_other {e : Html.Element} (h : e.tag ∉ securedAttributes.map Prod.fst) :
    secured e = e := by
  have hnone : securedAttributes.lookup e.tag = none := by
    refine List.lookup_eq_none_iff.2 fun entry hentry => ?_
    have hne : e.tag ≠ entry.1 := fun heq => h (heq ▸ List.mem_map_of_mem (f := Prod.fst) hentry)
    simpa using hne
  rw [secured, hnone]

/-- An element is not insecure, or its address gets a scheme. -/
theorem secured_cases (e : Html.Element) :
    (∃ name reference, (e.tag, name) ∈ securedAttributes ∧ e.value? name = some reference ∧
      lacksScheme reference = true ∧
      secured e = e.setAttribute name ("https:".toList ++ reference)) ∨
    ¬ IsInsecure e ∧ secured e = e := by
  by_cases hmem : e.tag ∈ securedAttributes.map Prod.fst
  · obtain ⟨⟨tag, name⟩, hmem, heq⟩ := List.mem_map.1 hmem
    have hmem : (e.tag, name) ∈ securedAttributes := heq ▸ hmem
    rw [secured_of_mem hmem]
    obtain ⟨reference, hvalue, hlacks, hset⟩ | ⟨hsafe, hkept⟩ := withScheme_cases name e
    · exact .inl ⟨name, reference, hmem, hvalue, hlacks, hset⟩
    · refine .inr ⟨?_, hkept⟩
      rintro ⟨other, reference, hother, hvalue, hlacks⟩
      cases (mem_securedAttributes_iff.1 hmem).symm.trans (mem_securedAttributes_iff.1 hother)
      cases (hsafe reference hvalue).symm.trans hlacks
  · refine .inr ⟨?_, secured_of_other hmem⟩
    rintro ⟨name, -, hother, -⟩
    exact hmem (List.mem_map_of_mem hother)

/-- Addresses depend on the name and the attributes of an element. -/
theorem isInsecure_congr {e e' : Html.Element} (htag : e'.tag = e.tag)
    (hlookup : ∀ name, e'.attributes.lookup name = e.attributes.lookup name) :
    IsInsecure e' ↔ IsInsecure e := by
  simp only [IsInsecure, htag, Html.Element.value?, Html.Attributes.value?, hlookup]

/-- An element that has been made secure is so. -/
theorem not_isInsecure_secured (e : Html.Element) : ¬ IsInsecure (secured e) := by
  obtain ⟨name, reference, hmem, -, -, hset⟩ | ⟨hsafe, hkept⟩ := secured_cases e
  · rw [hset]
    rintro ⟨other, found, hother, hfound, hlacks⟩
    cases (mem_securedAttributes_iff.1 hmem).symm.trans (mem_securedAttributes_iff.1 hother)
    have hself : (e.setAttribute name ("https:".toList ++ reference)).value? name =
        some ("https:".toList ++ reference) := e.value?_setAttribute_self rfl _
    cases hself.symm.trans hfound
    cases (lacksScheme_https reference).symm.trans hlacks
  · rw [hkept]
    exact hsafe

/-- Making an element secure changes no other attribute than its address. -/
theorem value?_secured {other : Text} (h : ∀ name ∈ securedAttributes.map Prod.snd,
    Text.lower other ≠ Text.lower name) (e : Html.Element) :
    (secured e).value? other = e.value? other := by
  obtain ⟨name, reference, hmem, -, -, hset⟩ | ⟨-, hkept⟩ := secured_cases e
  · rw [hset, e.value?_setAttribute_ne (h name (List.mem_map_of_mem (f := Prod.snd) hmem))]
  · rw [hkept]

/-- Making an element secure gives it no new attribute. -/
theorem hasAttribute_secured (e : Html.Element) (other : Text) :
    (secured e).hasAttribute other = e.hasAttribute other := by
  obtain ⟨name, reference, -, hvalue, -, hset⟩ | ⟨-, hkept⟩ := secured_cases e
  · rw [hset, Html.Element.hasAttribute, Html.Element.hasAttribute, Html.Attributes.contains,
      Html.Attributes.contains, Html.Element.setAttribute, Html.Attributes.lookup_set]
    split
    · rename_i hname
      rw [Html.Element.value?, Html.Attributes.value?, Option.join_eq_some_iff] at hvalue
      rw [hname, hvalue]
      rfl
    · rfl
  · rw [hkept]

/-- A pass over the elements called `tag`. -/
theorem foldl_query (tag name : Text) (d : Html.Document) :
    (d.query tag).foldl (secureElement name) d =
      { d with elements := d.elements.map fun e =>
          if e.tag = Text.lower tag then withScheme name e else e } := by
  rw [foldl_secureElement]
  refine congrArg (Html.Document.mk d.markup) (List.mapIdx_eq_iff.2 fun i => ?_)
  rw [List.getElem?_map]
  refine Option.map_congr fun e he => ?_
  simp only [mem_query, Option.mem_def.1 he, Option.some.injEq, exists_eq_left']

/-- What the two passes that make addresses secure do to a document, they do to each element. -/
theorem secureLinks_eq_map (d : Html.Document) :
    secureLinks d = { d with elements := d.elements.map secured } := by
  rw [secureLinks_eq]
  dsimp only
  rw [foldl_query, foldl_query]
  refine congrArg (Html.Document.mk d.markup) (List.map_map.trans (List.map_congr_left fun e _ => ?_))
  rw [Function.comp_apply, show Text.lower "link".toList = "link".toList by decide,
    show Text.lower "script".toList = "script".toList by decide]
  by_cases hlink : e.tag = "link".toList
  · have hscript : e.tag ≠ "script".toList := fun h => absurd (hlink.symm.trans h) (by decide)
    have hmem : (e.tag, "href".toList) ∈ securedAttributes := by
      rw [hlink]
      decide
    rw [if_pos hlink, tag_withScheme, if_neg hscript, secured_of_mem hmem]
  · rw [if_neg hlink]
    by_cases hscript : e.tag = "script".toList
    · have hmem : (e.tag, "src".toList) ∈ securedAttributes := by
        rw [hscript]
        decide
      rw [if_pos hscript, secured_of_mem hmem]
    · rw [if_neg hscript, secured_of_other]
      exact fun hmem => (List.mem_cons.1 hmem).elim hlink fun hmem => hscript (List.mem_singleton.1 hmem)

-- ---------------------------------------------------------------------------
-- Prepared elements
-- ---------------------------------------------------------------------------

/-- What becomes of a resource element whose reference is made absolute as `new`. -/
def anchored (new : Option Text) (e : Html.Element) : Html.Element :=
  match new with
  | some reference => e.setAttribute "src".toList reference
  | none => e

/-- What becomes of an element when its page is prepared: resource elements are called `tag`, and
their references taken from `directory`. -/
inductive Prepares (directory : Path) (path tag : Text) (e : Html.Element) : Html.Element → Prop
  | resource {new : Option Text} (htag : e.tag = Text.lower tag)
      (hnew : canonical? directory path ((e.value? "src".toList).getD []) = .ok new) :
      Prepares directory path tag e (anchored new e)
  | other (htag : e.tag ≠ Text.lower tag) : Prepares directory path tag e (secured e)

theorem isAsciiName_src : Html.IsAsciiName "src".toList := .of_letters rfl rfl

theorem isAsciiName_of_secured {tag name : Text} (h : (tag, name) ∈ securedAttributes) :
    Html.IsAsciiName name := by
  simp only [securedAttributes, List.mem_cons, List.not_mem_nil, or_false, Prod.mk.injEq] at h
  rcases h with ⟨-, rfl⟩ | ⟨-, rfl⟩
  · exact .of_letters rfl rfl
  · exact isAsciiName_src

/-- A source that is relative is there. -/
theorem exists_reference_of_isRelative {e : Html.Element}
    (h : IsRelative ((e.value? "src".toList).getD [])) :
    ∃ reference, e.value? "src".toList = some reference ∧ IsRelative reference := by
  cases hvalue : e.value? "src".toList with
  | none =>
    rw [hvalue] at h
    exact absurd rfl h.1
  | some reference =>
    rw [hvalue] at h
    exact ⟨reference, rfl, h⟩

theorem isRelativeResource_of_isRelative {rules : RegionRules} {tag : Text} {e : Html.Element}
    (htag : rules.resourceTag = .fit tag) (hname : e.tag = Text.lower tag)
    (h : IsRelative ((e.value? "src".toList).getD [])) : IsRelativeResource rules e := by
  obtain ⟨reference, hvalue, hrelative⟩ := exists_reference_of_isRelative h
  obtain ⟨hne, habsolute⟩ := isRelative_iff.1 hrelative
  exact ⟨tag, reference, htag, hname, hvalue, hne, habsolute⟩

/-- Preparing a page sets an attribute of a relative resource and of an insecure element, and changes
no other element. -/
theorem Prepares.eq_or_setAttribute {directory : Path} {path tag : Text} {rules : RegionRules}
    {e e' : Html.Element} (h : Prepares directory path tag e e')
    (htag : rules.resourceTag = .fit tag) :
    e' = e ∨ (IsRelativeResource rules e ∨ IsInsecure e) ∧
      ∃ name value, Html.IsAsciiName name ∧ e' = e.setAttribute name value := by
  cases h with
  | @resource new hname hnew =>
    obtain ⟨-, hrelative, rfl⟩ | ⟨-, rfl⟩ := canonical?_eq_ok hnew
    · exact .inr ⟨.inl (isRelativeResource_of_isRelative htag hname hrelative), _, _,
        isAsciiName_src, rfl⟩
    · exact .inl rfl
  | other _ =>
    obtain ⟨name, reference, hmem, hvalue, hlacks, hset⟩ | ⟨-, hkept⟩ := secured_cases e
    · exact .inr ⟨.inr ⟨name, reference, hmem, hvalue, hlacks⟩, name, _,
        isAsciiName_of_secured hmem, hset⟩
    · exact .inl hkept

section Prepared

variable {workingDirectory : Path} {rules : RegionRules} {markup path tag : Text}
  {d : Html.Document} {page : Prepared markup}

/-- Every element of a page is prepared on its own: the reference of a resource element is made
absolute, and then the address is made secure. -/
theorem element_of_prepare (hparse : Html.Document.parse markup = .ok d)
    (hprepare : prepare workingDirectory rules markup path = .ok page)
    (htag : rules.resourceTag = .fit tag) {i : Nat} {e : Html.Element}
    (he : d.elements[i]? = some e) :
    ∃ new, page.document.elements[i]? = some (secured (anchored new e)) ∧
      (e.tag = Text.lower tag → canonical? (Path.directoryOf workingDirectory path) path
        ((e.value? "src".toList).getD []) = .ok new) ∧
      (e.tag ≠ Text.lower tag → new = none) := by
  obtain ⟨d', regions, hparse', hregions, -, hdocument, hnew⟩ := prepare_eq_ok hprepare
  cases hparse.symm.trans hparse'
  have hany := any_anchorCalls hregions hnew he
  generalize hanchors : (resourceRegions regions).filterMap
    (anchorCall? (Path.directoryOf workingDirectory path) path) = anchors at hdocument hany
  have helement : page.document.elements[i]? = some (secured (actAll anchors i e)) := by
    rw [hdocument, secureLinks_eq_map, List.getElem?_map, getElem?_performAll, he]
    rfl
  by_cases hname : e.tag = Text.lower tag
  · obtain ⟨r, hr, rfl, hreference⟩ := Region.exists_resource hregions htag he hname
    have hr := mem_resourceRegions.2 hr
    obtain ⟨new, hcanonical⟩ := hnew r hr
    have hact : actAll anchors r.element e = anchored new e := by
      rw [← hanchors, actAll_anchorCalls ((pairwise_resourceRegions hregions).imp Nat.ne_of_lt) hr,
        anchorCall?, hcanonical]
      cases new with
      | none => rfl
      | some reference => exact if_pos rfl
    exact ⟨new, hact ▸ helement, fun _ => hreference ▸ hcanonical, fun h => absurd hname h⟩
  · have hkept : actAll anchors i e = e := by
      refine actAll_eq_self (Bool.eq_false_iff.2 fun hset => ?_) (fun call hcall => ?_) e
      · obtain ⟨tag', -, htag', hname', -⟩ := hany.1 hset
        cases htag.symm.trans htag'
        exact hname hname'
      · obtain ⟨r, -, hanchor⟩ := List.mem_filterMap.1 (hanchors ▸ hcall)
        obtain ⟨reference, rfl⟩ := exists_of_anchorCall? hanchor
        rfl
    exact ⟨none, hkept ▸ helement, fun h => absurd h hname, fun _ => rfl⟩

/-- Where resource elements are neither links nor scripts, one thing at most becomes of an element of
a page. -/
theorem prepares_of_prepare (hparse : Html.Document.parse markup = .ok d)
    (hprepare : prepare workingDirectory rules markup path = .ok page)
    (htag : rules.resourceTag = .fit tag)
    (hsecured : Text.lower tag ∉ securedAttributes.map Prod.fst) {i : Nat} {e : Html.Element}
    (he : d.elements[i]? = some e) :
    ∃ e', page.document.elements[i]? = some e' ∧
      Prepares (Path.directoryOf workingDirectory path) path tag e e' := by
  obtain ⟨new, helement, hresource, hother⟩ := element_of_prepare hparse hprepare htag he
  refine ⟨_, helement, ?_⟩
  by_cases hname : e.tag = Text.lower tag
  · have htag' : (anchored new e).tag = e.tag := by cases new <;> rfl
    rw [secured_of_other (by rw [htag', hname]; exact hsecured)]
    exact .resource hname (hresource hname)
  · rw [hother hname]
    exact .other hname

end Prepared

-- ---------------------------------------------------------------------------
-- Compiled elements
-- ---------------------------------------------------------------------------

/-- Whether a compilation of markup leaves the document `d'` behind, to be written, once the regions
have had the turns. -/
def Leaves (env : Environment σ) (c : PageCompiler σ) (markup path : Text)
    (turns : List (CodeRegion × Option Output)) (d' : Html.Document) : Prop :=
  ∃ (page : Prepared markup) (s s' : Session σ),
    prepare env.workingDirectory c.rules markup path = .ok page ∧
    turns.map Prod.fst = page.regions.filter (·.mimeType.isSome) ∧ Turns env c path turns s s' ∧
    d' = page.document.performAll (turns.filterMap (spliceCall? c.rules path))

/-- What is written is the document that the compilation leaves. -/
theorem exists_leaves {env : Environment σ} {c : PageCompiler σ} {markup path : Text}
    {s s' : Session σ} {out : Output} (h : (compile env c markup path).Yields s out s') :
    ∃ turns d', Leaves env c markup path turns d' ∧
      out = { code := d'.serialize, mimeType := "text/html".toList } := by
  have hout : ∃ d : Html.Document, out = { code := d.serialize, mimeType := "text/html".toList } := by
    rw [compile_eq] at h
    obtain ⟨_, _, _, hrest⟩ := yields_bind.1 h
    obtain ⟨_, _, _, hmain⟩ := yields_bind.1 hrest
    obtain ⟨d, _, _, hfinish⟩ := yields_bind.1 hmain
    exact ⟨d, yields_finish hfinish⟩
  obtain ⟨page, turns, s₀, s₁, hprepare, hfst, -, hturns, hcode, -⟩ := turns_of_compile h
  obtain ⟨d, rfl⟩ := hout
  exact ⟨turns, _, ⟨page, s₀, s₁, hprepare, hfst, hturns, rfl⟩,
    congrArg (Output.mk · "text/html".toList none) hcode⟩

/-- What becomes of the element at `index`, once prepared, when the regions have had the turns. -/
inductive Splices (rules : RegionRules) (path : Text) (turns : List (CodeRegion × Option Output))
    (index : Nat) (e : Html.Element) : Html.Element → Prop
  | body {r : CodeRegion} {made : Output} (hturn : (r, some made) ∈ turns) (hr : r.element = index) :
      Splices rules path turns index e
        { e with newBody := some (bodyFor rules r (identityOf path r) made) }
  | kept (h : ¬ IsCompiled turns index) : Splices rules path turns index e e

/-- Calls on bodies change the new body of an element at most. -/
theorem actAll_of_bodies {calls : List Call} {i : Nat} (h : calls.any (Call.setsTag i) = false)
    {e : Html.Element} (hleaf : isLeaf e = true) :
    actAll calls i e = { e with newBody := (lastBody? calls i).or e.newBody } := by
  induction calls generalizing e with
  | nil => rfl
  | cons call calls ih =>
    rw [List.any_cons, Bool.or_eq_false_iff] at h
    rw [lastBody?_cons, Option.or_assoc]
    cases call with
    | setAttribute index name value =>
      have hact : (Call.setAttribute index name value).act i e = e :=
        if_neg (by simpa [Call.setsTag] using h.1)
      refine (congrArg (actAll calls i) hact).trans (ih h.2 hleaf)
    | setBody index body =>
      by_cases hi : index = i
      · have hact : (Call.setBody index body).act i e = { e with newBody := some body } :=
          if_pos ⟨hi, hleaf⟩
        refine (congrArg (actAll calls i) hact).trans
          ((ih (e := { e with newBody := some body }) h.2 hleaf).trans ?_)
        rw [Call.body?, if_pos hi]
        rfl
      · have hact : (Call.setBody index body).act i e = e := if_neg fun h => hi h.1
        refine (congrArg (actAll calls i) hact).trans ((ih h.2 hleaf).trans ?_)
        rw [Call.body?, if_neg hi]
        rfl

section Compiled

variable {env : Environment σ} {c : PageCompiler σ} {markup path tag : Text}
  {turns : List (CodeRegion × Option Output)} {d d' : Html.Document}

theorem Leaves.exists_parse (h : Leaves env c markup path turns d') :
    ∃ d, Html.Document.parse markup = .ok d := by
  obtain ⟨page, -, -, hprepare, -⟩ := h
  obtain ⟨d, -, hparse, -⟩ := prepare_eq_ok hprepare
  exact ⟨d, hparse⟩

/-- The turns are those of code regions of the document, in document order. -/
theorem Leaves.exists_regions (h : Leaves env c markup path turns d')
    (hparse : Html.Document.parse markup = .ok d) :
    ∃ regions, Region.ofDocument c.rules d = .ok regions ∧
      turns.map Prod.fst = (codeRegions regions).filter (·.mimeType.isSome) := by
  obtain ⟨page, s, s', hprepare, hfst, -⟩ := h
  obtain ⟨d', regions, hparse', hregions, hcode, -⟩ := prepare_eq_ok hprepare
  cases hparse.symm.trans hparse'
  exact ⟨regions, hregions, hcode ▸ hfst⟩

theorem Leaves.mem_of_turn (h : Leaves env c markup path turns d')
    (hparse : Html.Document.parse markup = .ok d) {regions : List Region}
    (hregions : Region.ofDocument c.rules d = .ok regions) {r : CodeRegion} {made : Option Output}
    (hturn : (r, made) ∈ turns) : .code r ∈ regions ∧ r.mimeType.isSome = true := by
  obtain ⟨regions', hregions', hfst⟩ := h.exists_regions hparse
  cases hregions.symm.trans hregions'
  obtain ⟨hr, hsome⟩ := List.mem_filter.1 (hfst ▸ List.mem_map_of_mem (f := Prod.fst) hturn)
  exact ⟨mem_codeRegions.1 hr, hsome⟩

/-- The start tag of an element in the document that a compilation leaves is that of the prepared
page. -/
theorem Leaves.newTag (h : Leaves env c markup path turns d')
    (hparse : Html.Document.parse markup = .ok d) (htag : c.rules.resourceTag = .fit tag) {i : Nat}
    {e : Html.Element} (he : d.elements[i]? = some e) :
    ∃ new e', d'.elements[i]? = some e' ∧ e'.newTag = (secured (anchored new e)).newTag ∧
      (e.tag = Text.lower tag → canonical? (Path.directoryOf env.workingDirectory path) path
        ((e.value? "src".toList).getD []) = .ok new) ∧
      (e.tag ≠ Text.lower tag → new = none) := by
  obtain ⟨page, s, s', hprepare, -, -, rfl⟩ := h
  obtain ⟨new, helement, hnew⟩ := element_of_prepare hparse hprepare htag he
  refine ⟨new, _, by rw [getElem?_performAll, helement]; rfl, ?_, hnew⟩
  obtain ⟨-, -, -, -, hnewTag, -⟩ := actAll_eq (turns.filterMap (spliceCall? c.rules path)) i
    (secured (anchored new e))
  rw [hnewTag, setsTag_spliceCalls, if_neg Bool.false_ne_true]

/-- The regions that have their turns stand one behind the other. -/
theorem Leaves.pairwise (h : Leaves env c markup path turns d')
    (hparse : Html.Document.parse markup = .ok d) :
    (turns.map Prod.fst).Pairwise fun a b => a.element < b.element := by
  obtain ⟨regions, hregions, hfst⟩ := h.exists_regions hparse
  exact hfst ▸ List.Pairwise.filter _ (pairwise_codeRegions hregions)

/-- What a compilation does to a document is calls. Those that ask for bodies are the ones for regions
of which something was made. -/
theorem Leaves.exists_calls (h : Leaves env c markup path turns d')
    (hparse : Html.Document.parse markup = .ok d) :
    ∃ calls, d' = d.performAll calls ∧
      ∀ i, lastBody? calls i = lastBody? (turns.filterMap (spliceCall? c.rules path)) i := by
  obtain ⟨page, s, s', hprepare, -, -, rfl⟩ := h
  obtain ⟨d₀, regions, calls, hparse₀, -, -, hdocument, hnoBody, -⟩ := exists_calls_of_prepare hprepare
  cases hparse.symm.trans hparse₀
  refine ⟨calls ++ turns.filterMap (spliceCall? c.rules path), ?_, ?_⟩
  · rw [hdocument, ← performAll_append]
  · exact lastBody?_append_of_none hnoBody _

/-- The body of an element in the document that a compilation leaves is new just where something was
made of a region. -/
theorem Leaves.newBody_eq_some_iff (h : Leaves env c markup path turns d')
    (hparse : Html.Document.parse markup = .ok d) {i : Nat} {e' : Html.Element}
    (he' : d'.elements[i]? = some e') {body : Text} :
    e'.newBody = some body ↔ ∃ r made, (r, some made) ∈ turns ∧ r.element = i ∧
      body = bodyFor c.rules r (identityOf path r) made := by
  have hsorted := h.pairwise hparse
  obtain ⟨regions, hregions, -⟩ := h.exists_regions hparse
  have hcode {r : CodeRegion} {made : Output} (hturn : (r, some made) ∈ turns) : .code r ∈ regions :=
    (h.mem_of_turn hparse hregions hturn).1
  obtain ⟨calls, rfl, hlast⟩ := h.exists_calls hparse
  rw [getElem?_performAll] at he'
  obtain ⟨e, he, rfl⟩ := Option.map_eq_some_iff.1 he'
  obtain ⟨-, -, hnone⟩ := isUnchanged_of_parse hparse e (List.mem_of_getElem? he)
  obtain ⟨-, -, -, -, -, hnewBody⟩ := actAll_eq calls i e
  rw [hnewBody, hnone, hlast, Option.or_none]
  constructor
  · intro hbody
    split at hbody
    · obtain ⟨r, made, hturn, rfl⟩ := lastBody?_spliceCalls hbody
      rw [lastBody?_spliceCalls_of_mem hsorted hturn] at hbody
      exact ⟨r, made, hturn, rfl, (Option.some.inj hbody).symm⟩
    · cases hbody
  · rintro ⟨r, made, hturn, rfl, rfl⟩
    rw [if_pos (isLeaf_of_code hparse hregions (hcode hturn) he),
      lastBody?_spliceCalls_of_mem hsorted hturn]

/-- What a compilation leaves of an element. -/
theorem Leaves.element (h : Leaves env c markup path turns d')
    (hparse : Html.Document.parse markup = .ok d) (htag : c.rules.resourceTag = .fit tag)
    (hsecured : Text.lower tag ∉ securedAttributes.map Prod.fst) {i : Nat} {e : Html.Element}
    (he : d.elements[i]? = some e) :
    ∃ e₁ e', Prepares (Path.directoryOf env.workingDirectory path) path tag e e₁ ∧
      Splices c.rules path turns i e₁ e' ∧ d'.elements[i]? = some e' := by
  have hsorted := h.pairwise hparse
  obtain ⟨regions, hregions, hfst⟩ := h.exists_regions hparse
  obtain ⟨page, s, s', hprepare, -, hturns, rfl⟩ := h
  obtain ⟨e₁, he₁, hprepares⟩ := prepares_of_prepare hparse hprepare htag hsecured he
  have he' : (page.document.performAll (turns.filterMap (spliceCall? c.rules path))).elements[i]? =
      some (actAll (turns.filterMap (spliceCall? c.rules path)) i e₁) := by
    rw [getElem?_performAll, he₁]
    rfl
  refine ⟨e₁, _, hprepares, ?_, he'⟩
  by_cases hcompiled : IsCompiled turns i
  · obtain ⟨r, made, hturn, rfl⟩ := hcompiled
    have hr := (List.mem_filter.1 (hfst ▸ List.mem_map_of_mem (f := Prod.fst) hturn)).1
    have hleaf : isLeaf e₁ = true := by
      have hleaf := isLeaf_of_code hparse hregions (mem_codeRegions.1 hr) he
      obtain rfl | ⟨-, name, value, -, rfl⟩ := hprepares.eq_or_setAttribute htag <;> exact hleaf
    rw [actAll_of_bodies (setsTag_spliceCalls turns) hleaf,
      lastBody?_spliceCalls_of_mem hsorted hturn]
    exact .body hturn rfl
  · rw [actAll_eq_self (setsTag_spliceCalls turns)]
    · exact .kept hcompiled
    · intro call hcall
      obtain ⟨⟨r, made?⟩, hturn, hsplice⟩ := List.mem_filterMap.1 hcall
      obtain ⟨made, rfl, rfl⟩ := Option.map_eq_some_iff.1 hsplice
      exact if_neg fun hi => hcompiled ⟨r, made, hturn, hi⟩

/-- A compilation leaves the markup it was read from, and all elements. -/
theorem Leaves.frame (h : Leaves env c markup path turns d')
    (hparse : Html.Document.parse markup = .ok d) :
    d'.markup = d.markup ∧ d'.elements.length = d.elements.length := by
  obtain ⟨calls, rfl, -⟩ := h.exists_calls hparse
  rw [performAll_eq]
  simp only [List.length_mapIdx, and_self]

/-- A compilation changes start tags and the bodies of code regions. -/
theorem Leaves.changes (h : Leaves env c markup path turns d')
    (hparse : Html.Document.parse markup = .ok d) (htag : c.rules.resourceTag = .fit tag)
    (hsecured : Text.lower tag ∉ securedAttributes.map Prod.fst) : d.Changes d' := by
  refine ⟨(h.frame hparse).1, (h.frame hparse).2, fun {i e e'} he he' => ?_⟩
  obtain ⟨e₁, _, hprepares, hsplices, hleft⟩ := h.element hparse htag hsecured he
  cases hleft.symm.trans he'
  obtain ⟨-, hnoTag, hnoBody⟩ := isUnchanged_of_parse hparse e (List.mem_of_getElem? he)
  have hprepared : ChangesElement e e₁ := by
    obtain rfl | ⟨-, name, value, hname, rfl⟩ := hprepares.eq_or_setAttribute htag
    · exact ⟨rfl, rfl, rfl, .inl ⟨hnoTag, rfl⟩, .inl hnoBody⟩
    · refine ⟨rfl, rfl, rfl, .inr ⟨name, value, hname, ?_, rfl⟩, .inl hnoBody⟩
      rw [Html.Element.setAttribute, Html.Element.startText, hnoTag, Option.getD_none]
  cases hsplices with
  | kept _ => exact hprepared
  | @body r made hturn hr =>
    obtain ⟨regions, hregions, -⟩ := h.exists_regions hparse
    obtain ⟨e₀, raw, stop, he₀, hraw, -, hself, hend, hlt⟩ :=
      exists_of_code hparse hregions (h.mem_of_turn hparse hregions hturn).1
    subst hr
    cases he.symm.trans he₀
    exact { hprepared with newBody := .inr ⟨_, raw, stop, rfl, hraw, hself, hend, hlt⟩ }

/-- Whether every element of the document that a compilation changes stands behind plain tags. -/
def ChangesBehindPlainTags (rules : RegionRules) (turns : List (CodeRegion × Option Output))
    (d : Html.Document) : Prop :=
  ∀ i e, d.elements[i]? = some e →
    IsRelativeResource rules e ∨ IsInsecure e ∨ IsCompiled turns i → d.PlainUpTo i

/-- What has changed of an element: its start tag, where its reference or address is one to change,
and its body, where something was made of the region. -/
theorem Leaves.changed (h : Leaves env c markup path turns d')
    (hparse : Html.Document.parse markup = .ok d) (htag : c.rules.resourceTag = .fit tag)
    (hsecured : Text.lower tag ∉ securedAttributes.map Prod.fst) {i : Nat} {e e' : Html.Element}
    (he : d.elements[i]? = some e) (he' : d'.elements[i]? = some e') :
    (e'.newTag ≠ none → IsRelativeResource c.rules e ∨ IsInsecure e) ∧
      ∀ body, e'.newBody = some body → ∃ r made, (r, some made) ∈ turns ∧ r.element = i ∧
        Language.ofTag? e'.tag = some r.language ∧
        body = bodyFor c.rules r (identityOf path r) made := by
  obtain ⟨e₁, _, hprepares, hsplices, hleft⟩ := h.element hparse htag hsecured he
  cases hleft.symm.trans he'
  obtain ⟨-, hnoTag, hnoBody⟩ := isUnchanged_of_parse hparse e (List.mem_of_getElem? he)
  have hname : e₁.tag = e.tag ∧ e₁.newBody = none ∧
      (e₁.newTag ≠ none → IsRelativeResource c.rules e ∨ IsInsecure e) := by
    obtain rfl | ⟨hchanged, name, value, -, rfl⟩ := hprepares.eq_or_setAttribute htag
    · exact ⟨rfl, hnoBody, fun hset => absurd hnoTag hset⟩
    · exact ⟨rfl, hnoBody, fun _ => hchanged⟩
  cases hsplices with
  | kept _ =>
    refine ⟨hname.2.2, fun body hbody => ?_⟩
    cases hname.2.1.symm.trans hbody
  | @body r made hturn hr =>
    refine ⟨hname.2.2, fun body hbody => ?_⟩
    cases hbody
    obtain ⟨regions, hregions, -⟩ := h.exists_regions hparse
    obtain ⟨e₀, he₀, hlanguage, -⟩ :=
      Region.of_mem_code hregions (h.mem_of_turn hparse hregions hturn).1
    subst hr
    cases he.symm.trans he₀
    exact ⟨r, made, hturn, rfl, (congrArg Language.ofTag? hname.1).trans hlanguage, rfl⟩

/-- An element keeps its body where nothing was made of a region. -/
theorem Leaves.text_of_kept (h : Leaves env c markup path turns d')
    (hparse : Html.Document.parse markup = .ok d) {i : Nat} {e e' : Html.Element}
    (he : d.elements[i]? = some e) (he' : d'.elements[i]? = some e')
    (hnot : ¬ IsCompiled turns i) : d'.text e' = d.body e := by
  obtain ⟨calls, rfl, hlast⟩ := h.exists_calls hparse
  obtain ⟨e₁, he₁, -, htext⟩ := texts_performAll hparse calls he
  cases he'.symm.trans he₁
  have hnone : lastBody? calls i = none :=
    Option.eq_none_iff_forall_ne_some.2 fun body hbody =>
      hnot (lastBody?_spliceCalls ((hlast i).symm.trans hbody))
  rw [htext, hnone, ite_self, Option.getD_none]

/-- Behind plain tags a compilation changes a document plainly, unless it puts an end tag of its
element into a body. -/
theorem Leaves.changesPlainly (h : Leaves env c markup path turns d')
    (hparse : Html.Document.parse markup = .ok d) (htag : c.rules.resourceTag = .fit tag)
    (hsecured : Text.lower tag ∉ securedAttributes.map Prod.fst)
    (hplain : ChangesBehindPlainTags c.rules turns d)
    (hbodies : ∀ r made, (r, some made) ∈ turns → ¬ HoldsSpacedEndTag r.language made.code) :
    d.ChangesPlainly d' := by
  have hchanges := h.changes hparse htag hsecured
  refine ⟨hchanges, fun {i e'} he' hchanged => ?_, fun {i e' body raw} he' hbody hraw => ?_⟩
  · obtain ⟨e, he⟩ := hchanges.exists_element he'
    obtain ⟨hset, hmade⟩ := h.changed hparse htag hsecured he he'
    refine hplain i e he ?_
    rcases hchanged with hnewTag | hnewBody
    · exact (hset hnewTag).imp_right .inl
    · obtain ⟨body, hbody⟩ := Option.ne_none_iff_exists'.1 hnewBody
      obtain ⟨r, made, hturn, hr, -⟩ := hmade body hbody
      exact .inr (.inr ⟨r, made, hturn, hr⟩)
  · obtain ⟨e, he⟩ := hchanges.exists_element he'
    obtain ⟨r, made, hturn, -, hlanguage, rfl⟩ := (h.changed hparse htag hsecured he he').2 body hbody
    obtain ⟨raw', hraw', hname⟩ := exists_raw hlanguage
    cases hraw'.symm.trans hraw
    rw [hname, holdsEndTag_bodyFor]
    exact hbodies r made hturn

end Compiled

end PageSplice.Page
