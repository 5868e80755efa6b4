-- SUMMARY: Addresses of a compiled page: which of them still lack a scheme when the page is read back.
import PageSplice.Proofs.Page.Standard

/-!
# Secure addresses

An address without a scheme gets one where it stands at the very beginning of
its attribute. A reader of the page takes the white space around an address for
no part of it, and so does the search for the files that a page depends on. So
what a compiled page holds are the addresses without a scheme that stood behind
white space, and no other.
-/

namespace PageSplice.Page

open Build Html Html.Document

variable {σ : Type}

-- ---------------------------------------------------------------------------
-- Addresses and white space
-- ---------------------------------------------------------------------------

theorem lacksScheme_eq_true {reference : Text} (h : lacksScheme reference = true) :
    2 < reference.length ∧ "//".toList <+: reference := by
  rw [lacksScheme, Bool.and_eq_true] at h
  exact ⟨of_decide_eq_true h.1, List.isPrefixOf_iff_prefix.1 h.2⟩

/-- An address with a scheme has one when white space is taken off as well. -/
theorem lacksScheme_trim_https (reference : Text) :
    lacksScheme (Text.trim ("https:".toList ++ reference)) = false := by
  have hleft : Text.trimLeft Text.isBlank ("https:".toList ++ reference) =
      'h' :: ("ttps:".toList ++ reference) :=
    List.dropWhile_cons_of_neg (by decide)
  rw [Text.trim, hleft, TagText.trimRight_cons (by decide)]
  exact Bool.eq_false_iff.2 fun hlacks =>
    absurd (List.cons_prefix_cons.1 (lacksScheme_eq_true hlacks).2).1 (by decide)

/-- Where an address lacks a scheme once white space is taken off, it lacks one as it is, or it
stands behind white space. -/
theorem lacksScheme_of_trim {c : Char} {r : Text}
    (h : lacksScheme (Text.trim (c :: r)) = true) :
    lacksScheme (c :: r) = true ↔ Text.isBlank c = false := by
  constructor
  · intro hlacks
    obtain ⟨hc, -⟩ := List.cons_prefix_cons.1 (lacksScheme_eq_true hlacks).2
    rw [← hc]
    decide
  · intro hblank
    have hprefix : Text.trim (c :: r) <+: c :: r := by
      rw [Text.trim, Text.trimLeft, List.dropWhile_cons_of_neg (by simp [hblank])]
      exact TagText.trimRight_isPrefix _ _
    obtain ⟨hlong, hslashes⟩ := lacksScheme_eq_true h
    rw [lacksScheme, Bool.and_eq_true]
    exact ⟨decide_eq_true (Nat.lt_of_lt_of_le hlong hprefix.length_le),
      List.isPrefixOf_iff_prefix.2 (hslashes.trans hprefix)⟩

-- ---------------------------------------------------------------------------
-- Elements with addresses
-- ---------------------------------------------------------------------------

/-- Whether an element has an address that lacks a scheme, the white space around it set aside. -/
def HasBareAddress (e : Element) : Prop :=
  ∃ name reference, (e.tag, name) ∈ securedAttributes ∧ e.value? name = some reference ∧
    lacksScheme (Text.trim reference) = true

/-- Whether an element has an address that lacks a scheme and stands behind white space. -/
def HasPaddedAddress (e : Element) : Prop :=
  ∃ name c r, (e.tag, name) ∈ securedAttributes ∧ e.value? name = some (c :: r) ∧
    Text.isBlank c = true ∧ lacksScheme (Text.trim (c :: r)) = true

/-- Addresses depend on the name and the attributes of an element. -/
theorem hasBareAddress_congr {e e' : Element} (htag : e'.tag = e.tag)
    (hlookup : ∀ name, e'.attributes.lookup name = e.attributes.lookup name) :
    HasBareAddress e' ↔ HasBareAddress e := by
  simp only [HasBareAddress, htag, Element.value?, Attributes.value?, hlookup]

theorem not_hasBareAddress_of_other {e : Element} (h : e.tag ∉ securedAttributes.map Prod.fst) :
    ¬ HasBareAddress e :=
  fun ⟨_, _, hmem, _⟩ => h (List.mem_map_of_mem (f := Prod.fst) hmem)

theorem HasPaddedAddress.hasBareAddress {e : Element} (h : HasPaddedAddress e) :
    HasBareAddress e := by
  obtain ⟨name, c, r, hmem, hvalue, -, hlacks⟩ := h
  exact ⟨name, c :: r, hmem, hvalue, hlacks⟩

/-- An element that is not insecure has no address without a scheme but behind white space. -/
theorem hasBareAddress_iff_of_not_isInsecure {e : Element} (h : ¬ IsInsecure e) :
    HasBareAddress e ↔ HasPaddedAddress e := by
  refine ⟨?_, HasPaddedAddress.hasBareAddress⟩
  rintro ⟨name, reference, hmem, hvalue, hlacks⟩
  cases reference with
  | nil => cases hlacks
  | cons c r =>
    refine ⟨name, c, r, hmem, hvalue, ?_, hlacks⟩
    cases hblank : Text.isBlank c with
    | true => rfl
    | false =>
      exact absurd ⟨name, c :: r, hmem, hvalue, (lacksScheme_of_trim hlacks).2 hblank⟩ h

/-- Making an element secure leaves it the addresses without a scheme that stand behind white
space. -/
theorem hasBareAddress_secured_iff (e : Element) :
    HasBareAddress (secured e) ↔ HasPaddedAddress e := by
  obtain ⟨name, reference, hmem, hvalue, hlacks, hset⟩ | ⟨hsafe, hkept⟩ := secured_cases e
  · rw [hset]
    refine iff_of_false ?_ ?_
    · rintro ⟨other, found, hother, hfound, hbare⟩
      cases (mem_securedAttributes_iff.1 hmem).symm.trans (mem_securedAttributes_iff.1 hother)
      have hself : (e.setAttribute name ("https:".toList ++ reference)).value? name =
          some ("https:".toList ++ reference) := e.value?_setAttribute_self rfl _
      cases hself.symm.trans hfound
      cases (lacksScheme_trim_https reference).symm.trans hbare
    · rintro ⟨other, c, r, hother, hfound, hblank, htrim⟩
      cases (mem_securedAttributes_iff.1 hmem).symm.trans (mem_securedAttributes_iff.1 hother)
      cases hvalue.symm.trans hfound
      cases ((lacksScheme_of_trim htrim).1 hlacks).symm.trans hblank
  · rw [hkept]
    exact hasBareAddress_iff_of_not_isInsecure hsafe

-- ---------------------------------------------------------------------------
-- Compiled pages
-- ---------------------------------------------------------------------------

/-- A compilation leaves an element without a scheme to its address exactly where the address stands
behind white space. -/
theorem Leaves.hasBareAddress_iff {env : Environment σ} {c : PageCompiler σ} {markup path tag : Text}
    {turns : List (CodeRegion × Option Output)} {d d' : Document}
    (h : Leaves env c markup path turns d') (hparse : Document.parse markup = .ok d)
    (htag : c.rules.resourceTag = .fit tag)
    (hsecured : Text.lower tag ∉ securedAttributes.map Prod.fst) {i : Nat} {e e' : Element}
    (he : d.elements[i]? = some e) (he' : d'.elements[i]? = some e') :
    HasBareAddress e' ↔ HasPaddedAddress e := by
  obtain ⟨e₁, _, hprepares, hsplices, hleft⟩ := h.element hparse htag hsecured he
  cases hleft.symm.trans he'
  have hspliced : HasBareAddress e' ↔ HasBareAddress e₁ := by
    cases hsplices <;> exact hasBareAddress_congr rfl fun _ => rfl
  rw [hspliced]
  cases hprepares with
  | @resource new hname _ =>
    have hother : e.tag ∉ securedAttributes.map Prod.fst := hname ▸ hsecured
    have hsame : (anchored new e).tag = e.tag := by
      cases new <;> rfl
    exact iff_of_false (not_hasBareAddress_of_other (hsame ▸ hother))
      fun hpadded => not_hasBareAddress_of_other hother hpadded.hasBareAddress
  | other _ => exact hasBareAddress_secured_iff e

def IsSecure (d : Document) : Prop := ∀ e ∈ d.elements, ¬ HasBareAddress e

/-- With the compilers that a site has by default, what a compiled page is read back as is secure
exactly where the markup has no address without a scheme behind white space. Where every change
stands behind plain tags, the page is read back; elsewhere this holds if it is read back with the
changes that were made. -/
theorem isSecure_reread_iff {env : Environment σ} {tag : Text}
    (htag : env.settings.rules.resourceTag = .fit tag)
    (hsecured : Text.lower tag ∉ securedAttributes.map Prod.fst) {markup path : Text}
    {s s' : Session σ} {out : Output}
    (h : (compile env (standard env.settings) markup path).Yields s out s') :
    ∃ d turns d₁, Document.parse markup = .ok d ∧
      Leaves env (standard env.settings) markup path turns d₁ ∧ out.code = d₁.serialize ∧
      (ChangesBehindPlainTags env.settings.rules turns d →
        ∃ d₂, Document.parse out.code = .ok d₂ ∧ d₁.IsShownBy d₂) ∧
      ∀ d₂, Document.parse out.code = .ok d₂ → d₁.IsShownBy d₂ →
        (IsSecure d₂ ↔ ∀ e ∈ d.elements, ¬ HasPaddedAddress e) := by
  obtain ⟨d, turns, d₁, hparse, hleaves, rfl, hreread⟩ := exists_reread htag hsecured h
  refine ⟨d, turns, d₁, hparse, hleaves, rfl, hreread, fun d₂ _ hshown => ?_⟩
  have hlength : d₂.elements.length = d.elements.length :=
    hshown.length.trans (hleaves.frame hparse).2
  have hbare {i : Nat} {e e₂ : Element} (he : d.elements[i]? = some e)
      (he₂ : d₂.elements[i]? = some e₂) : HasBareAddress e₂ ↔ HasPaddedAddress e := by
    obtain ⟨_, e₁, -, -, he₁⟩ := hleaves.element hparse htag hsecured he
    exact (hasBareAddress_congr (hshown.tag he₁ he₂) (hshown.lookup he₁ he₂)).trans
      (hleaves.hasBareAddress_iff hparse htag hsecured he he₁)
  constructor
  · intro hsecure e hmem hpadded
    obtain ⟨i, he⟩ := List.getElem?_of_mem hmem
    have hlt := (List.getElem?_eq_some_iff.1 he).1
    have he₂ := List.getElem?_eq_getElem (hlength ▸ hlt)
    exact hsecure _ (List.mem_of_getElem? he₂) ((hbare he he₂).2 hpadded)
  · intro hnone e₂ hmem hfound
    obtain ⟨i, he₂⟩ := List.getElem?_of_mem hmem
    have hlt := (List.getElem?_eq_some_iff.1 he₂).1
    have he := List.getElem?_eq_getElem (hlength ▸ hlt)
    exact hnone _ (List.mem_of_getElem? he) ((hbare he he₂).1 hfound)

/-- Of two links, the one whose address stands at the beginning gets a scheme, and the page is still
not secure. -/
theorem isSecure_reread_padded :
    let env : Environment Unit := ⟨⟨.root, []⟩, []⟩
    let markup := "<link href=//a><link href=' //b'>".toList
    ∃ out s' d₂, (compile env (standard env.settings) markup "/p.html".toList).Yields ⟨(), []⟩ out s' ∧
      out.code = "<link href=\"https://a\"><link href=' //b'>".toList ∧
      Document.parse out.code = .ok d₂ ∧ ¬ IsSecure d₂ := by
  intro env markup
  have hcode : ((compile env (standard env.settings) markup "/p.html".toList).run.run
      ⟨(), []⟩).1.toOption.map Output.code =
      some "<link href=\"https://a\"><link href=' //b'>".toList := by decide +kernel
  obtain ⟨out, s', hyields, hcode⟩ := exists_yields hcode
  let first : Attributes := [("href".toList, some "//a".toList)]
  let second : Attributes := [("href".toList, some " //b".toList)]
  let d : Document := ⟨markup, [
    ⟨⟨"link href=//a>".toList, "link".toList, first, false⟩, 0, none, false, first, none, none⟩,
    ⟨⟨"link href=' //b'>".toList, "link".toList, second, false⟩, 15, none, false, second, none,
      none⟩]⟩
  have hparse : Document.parse markup = .ok d := eq_ok_of_toOption (by decide +kernel)
  have hplain : d.PlainUpTo 1 := by
    refine plainUpTo_of_forall (List.forall_mem_cons.2 ⟨⟨?_, ?_⟩,
      List.forall_mem_singleton.2 ⟨?_, ?_⟩⟩) 1
    · exact StartTag.isPlain_of_fit (c := 'l') (r := "ink".toList)
        [.separator ' ', .named "href".toList (.bare [] [] "//a".toList)] rfl rfl rfl rfl
        ⟨rfl, rfl⟩ (by decide +kernel)
    · decide +kernel
    · exact StartTag.isPlain_of_fit (c := 'l') (r := "ink".toList)
        [.separator ' ', .named "href".toList (.quoted [] [] '\'' " //b".toList)] rfl rfl rfl rfl
        ⟨rfl, rfl⟩ (by decide +kernel)
    · decide +kernel
  obtain ⟨_, turns, d₁, hparse', -, -, hreread, hsecure⟩ :=
    isSecure_reread_iff (show env.settings.rules.resourceTag = .fit "x-require".toList from rfl)
      (by decide) hyields
  cases hparse.symm.trans hparse'
  obtain ⟨d₂, hparse₂, hshown⟩ := hreread fun i e he _ =>
    hplain.mono (Nat.le_of_lt_succ (List.getElem?_eq_some_iff.1 he).1)
  refine ⟨out, s', d₂, hyields, hcode, hparse₂, fun hall => ?_⟩
  exact (hsecure d₂ hparse₂ hshown).1 hall _ (List.mem_cons_of_mem _ List.mem_cons_self)
    ⟨"href".toList, ' ', "//b".toList, by decide, by decide +kernel, by decide, by decide⟩

end PageSplice.Page
