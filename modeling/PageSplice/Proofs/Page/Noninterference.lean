-- SUMMARY: Regions of one type in two compilations: what the compilers of other types do is nothing to them.
import Mathlib.Data.List.Pairwise
import PageSplice.Catalog
import PageSplice.Proofs.Page.Elements

/-!
# Noninterference

Two compilations of one page may differ in the compilers of all types but one.
Other regions may then be made longer, be declined, or be left alone; still a
region of that one type has the same number, the same code and the same place,
and so the same identity and the same body. What it takes is that the compiler
of that type does not look into the session, which is the one thing that regions
share, and that it is not a page compiler, which would look for compilers of
other types again.
-/

namespace PageSplice

variable {σ : Type}

-- ---------------------------------------------------------------------------
-- Agreement
-- ---------------------------------------------------------------------------

/-- Whether a compiler comes to the same answer in every session. -/
def Build.IgnoresSession {α : Type} (build : Build σ α) : Prop :=
  ∀ s s', (build.run.run s).1 = (build.run.run s').1

/-- Whether a delegate takes the same regions in every session, and makes the same of them. -/
def Delegate.IgnoresSession (d : Delegate σ) : Prop :=
  (∀ identity, (d.accepts identity).IgnoresSession) ∧
    ∀ content identity, (d.compile content identity).IgnoresSession

/-- Whether two ways of finding compilers find the same one for every spelling of a type, which is
given in its normal form. -/
def Lookup.AgreesOn (type : Text) (lookup lookup' : Lookup σ) : Prop :=
  ∀ spelling, Mime.normalize spelling = type → lookup.find? spelling = lookup'.find? spelling

theorem Build.IgnoresSession.eq_of_yields {α : Type} {build : Build σ α} (h : build.IgnoresSession)
    {s₁ s₁' s₂ s₂' : Session σ} {a₁ a₂ : α} (h₁ : build.Yields s₁ a₁ s₁')
    (h₂ : build.Yields s₂ a₂ s₂') : a₁ = a₂ := by
  have hsame := h s₁ s₂
  rw [Build.Yields] at h₁ h₂
  rw [h₁, h₂] at hsame
  exact Except.ok.inj hsame

theorem ignoresSession_passthrough : (Delegate.passthrough σ).IgnoresSession :=
  ⟨fun _ _ _ => rfl, fun _ _ _ _ => rfl⟩

/-- Registries that have the same entry for a type find the same compiler for it. -/
theorem agreesOn_registry {load : Importer σ} {type : Text} {registry registry' : Registry σ}
    (h : registry.table.lookup type = registry'.table.lookup type) :
    Lookup.AgreesOn type (.registry load registry) (.registry load registry') := by
  rintro spelling rfl
  rw [Lookup.find?, Lookup.find?, Registry.find?, Registry.find?, h]

namespace Page

open Build Html.Document

-- ---------------------------------------------------------------------------
-- One turn
-- ---------------------------------------------------------------------------

/-- A region whose compiler is no page compiler has none at all, or its turn is that of a delegate. -/
theorem Turn.exists_delegate {env : Environment σ} {c : PageCompiler σ} {path type : Text}
    {r : CodeRegion} {s s' : Session σ} {made : Option Output} (h : Turn env c path r s made s')
    (htype : r.typeText = .ok type)
    (hpage : ∀ name, c.lookup.find? type ≠ .ok (some (.html name))) :
    (c.lookup.find? type = .ok none ∧ made = none) ∨
    ∃ d s₁ accepted, c.lookup.find? type = .ok (some (.delegate d)) ∧
      (d.accepts (identityOf path r)).Yields s accepted s₁ ∧
      match made with
      | none => accepted = false
      | some out => accepted = true ∧
          ∃ s₂, (d.compile r.content (identityOf path r)).Yields s₁ out s₂ := by
  have hdelegate {compiler : CompilerClass σ} {handler : Handler σ}
      (hfind : c.lookup.find? type = .ok (some compiler))
      (hmake : instantiate env c.lookup compiler = .ok handler) :
      (∃ d, compiler = .delegate d ∧ handler = .delegate d) ∨ ∃ name, handler = .foreign name := by
    cases compiler with
    | html name => exact absurd hfind (hpage name)
    | delegate d => exact .inl ⟨d, rfl, (Except.ok.inj hmake).symm⟩
    | abstract name objection => cases hmake
    | foreign name => exact .inr ⟨name, (Except.ok.inj hmake).symm⟩
    | module name => cases hmake
  cases h with
  | unsupported htype' hfind =>
    cases htype.symm.trans htype'
    exact .inl ⟨hfind, rfl⟩
  | declined htype' hfind hmake hdeclines =>
    cases htype.symm.trans htype'
    rcases hdelegate hfind hmake with ⟨d, rfl, rfl⟩ | ⟨name, rfl⟩
    · exact .inr ⟨d, _, false, hfind, hdeclines, rfl⟩
    · exact absurd hdeclines not_yields_throw
  | accepted htype' hfind hmake haccepts hmakes =>
    cases htype.symm.trans htype'
    rcases hdelegate hfind hmake with ⟨d, rfl, rfl⟩ | ⟨name, rfl⟩
    · exact .inr ⟨d, _, true, hfind, haccepts, rfl, _, hmakes⟩
    · exact absurd haccepts not_yields_throw

/-- The turns that a region has in two compilations come to the same, where both find the same
compiler for it. -/
theorem Turn.made_eq {env : Environment σ} {c₁ c₂ : PageCompiler σ} {path type : Text}
    {r : CodeRegion} {s₁ s₁' s₂ s₂' : Session σ} {made₁ made₂ : Option Output}
    (h₁ : Turn env c₁ path r s₁ made₁ s₁') (h₂ : Turn env c₂ path r s₂ made₂ s₂')
    (htype : r.typeText = .ok type) (hsame : c₁.lookup.find? type = c₂.lookup.find? type)
    (hpage : ∀ name, c₁.lookup.find? type ≠ .ok (some (.html name)))
    (hignores : ∀ d, c₁.lookup.find? type = .ok (some (.delegate d)) → d.IgnoresSession) :
    made₁ = made₂ := by
  rcases h₁.exists_delegate htype hpage with
    ⟨hnone₁, rfl⟩ | ⟨d, t₁, accepted₁, hfind₁, hyields₁, hmade₁⟩
  · rcases h₂.exists_delegate htype (hsame ▸ hpage) with ⟨-, rfl⟩ | ⟨d, _, _, hfind₂, -⟩
    · rfl
    · cases (hsame.symm.trans hnone₁).symm.trans hfind₂
  · rcases h₂.exists_delegate htype (hsame ▸ hpage) with
      ⟨hnone₂, -⟩ | ⟨d', t₂, accepted₂, hfind₂, hyields₂, hmade₂⟩
    · cases (hsame.trans hnone₂).symm.trans hfind₁
    · cases (hsame.symm.trans hfind₁).symm.trans hfind₂
      obtain ⟨haccepts, hcompile⟩ := hignores d hfind₁
      obtain rfl := (haccepts _).eq_of_yields hyields₁ hyields₂
      cases made₁ with
      | none =>
        cases made₂ with
        | none => rfl
        | some out₂ => cases hmade₁.symm.trans hmade₂.1
      | some out₁ =>
        cases made₂ with
        | none => cases hmade₂.symm.trans hmade₁.1
        | some out₂ =>
          obtain ⟨-, _, hout₁⟩ := hmade₁
          obtain ⟨-, _, hout₂⟩ := hmade₂
          exact congrArg some ((hcompile _ _).eq_of_yields hout₁ hout₂)

-- ---------------------------------------------------------------------------
-- All turns
-- ---------------------------------------------------------------------------

/-- Among all turns, each is one of a region from session to session. -/
theorem Turns.exists_turn {env : Environment σ} {c : PageCompiler σ} {path : Text}
    {turns : List (CodeRegion × Option Output)} {s s' : Session σ} (h : Turns env c path turns s s')
    {r : CodeRegion} {made : Option Output} (hmem : (r, made) ∈ turns) :
    ∃ s₀ s₁, Turn env c path r s₀ made s₁ := by
  induction h with
  | nil s => cases hmem
  | cons hturn _ ih =>
    rcases List.mem_cons.1 hmem with heq | hmem
    · cases heq
      exact ⟨_, _, hturn⟩
    · exact ih hmem

/-- A region that is left alone in its turn has no other turn. -/
theorem not_isCompiled_of_none {turns : List (CodeRegion × Option Output)} {r : CodeRegion}
    (hsorted : (turns.map Prod.fst).Pairwise fun a b => a.element < b.element)
    (hturn : (r, none) ∈ turns) : ¬ IsCompiled turns r.element := by
  rintro ⟨r', made, hturn', helement⟩
  have hpairs := List.pairwise_map.1 hsorted
  have hdistinct : turns.Pairwise fun a b => a.1.element ≠ b.1.element := hpairs.imp Nat.ne_of_lt
  have : Std.Symm fun a b : CodeRegion × Option Output => a.1.element ≠ b.1.element :=
    ⟨fun _ _ => Ne.symm⟩
  have hne : ((r', some made) : CodeRegion × Option Output) ≠ (r, none) := fun heq =>
    nomatch congrArg Prod.snd heq
  exact hdistinct.forall hturn' hturn hne helement

/-- The text of a region in the document that a compilation leaves: what was made of it, or its
code. -/
theorem Leaves.text_of_turn {env : Environment σ} {c : PageCompiler σ} {markup path : Text}
    {turns : List (CodeRegion × Option Output)} {w : Html.Document}
    (h : Leaves env c markup path turns w) {r : CodeRegion} {made : Option Output}
    (hturn : (r, made) ∈ turns) :
    ∃ e, w.elements[r.element]? = some e ∧
      w.text e = (made.map (bodyFor c.rules r (identityOf path r))).getD r.content := by
  obtain ⟨d, hparse⟩ := h.exists_parse
  obtain ⟨regions, hregions, -⟩ := h.exists_regions hparse
  have hr := (h.mem_of_turn hparse hregions hturn).1
  obtain ⟨e, he, -, hcontent, -⟩ := Region.of_mem_code hregions hr
  obtain ⟨e', he'⟩ : ∃ e', w.elements[r.element]? = some e' := by
    obtain ⟨hi, -⟩ := List.getElem?_eq_some_iff.1 he
    exact ⟨_, List.getElem?_eq_getElem ((h.frame hparse).2 ▸ hi)⟩
  refine ⟨e', he', ?_⟩
  cases made with
  | some out =>
    rw [Html.Document.text, (h.newBody_eq_some_iff hparse he').2 ⟨r, out, hturn, rfl, rfl⟩]
    rfl
  | none =>
    rw [h.text_of_kept hparse he he' (not_isCompiled_of_none (h.pairwise hparse) hturn), hcontent]
    rfl

-- ---------------------------------------------------------------------------
-- Main statement
-- ---------------------------------------------------------------------------

/-- Two compilations of a page at one path, in whatever sessions, may find different compilers for
all types but one. If both succeed, they have the same regions in the same turns, and for a region
of that type they come to the same under the same identity: either both leave it alone, or the
delegate of the type has made the same of it, and the body that is written is the same. Nothing is
said about the compilers of other types, but the one of this type is no page compiler and ignores
the session. -/
theorem text_eq_of_agreesOn {env : Environment σ} {rules : RegionRules} {lookup₁ lookup₂ : Lookup σ}
    {type markup path : Text} {s₁ s₁' s₂ s₂' : Session σ} {out₁ out₂ : Output}
    (hagrees : lookup₁.AgreesOn type lookup₂)
    (hpage : ∀ spelling name, Mime.normalize spelling = type →
      lookup₁.find? spelling ≠ .ok (some (.html name)))
    (hignores : ∀ spelling d, Mime.normalize spelling = type →
      lookup₁.find? spelling = .ok (some (.delegate d)) → d.IgnoresSession)
    (h₁ : (compile env ⟨lookup₁, rules⟩ markup path).Yields s₁ out₁ s₁')
    (h₂ : (compile env ⟨lookup₂, rules⟩ markup path).Yields s₂ out₂ s₂') :
    ∃ d regions turns₁ turns₂ w₁ w₂, Html.Document.parse markup = .ok d ∧
      Region.ofDocument rules d = .ok regions ∧
      Leaves env ⟨lookup₁, rules⟩ markup path turns₁ w₁ ∧ out₁.code = w₁.serialize ∧
      Leaves env ⟨lookup₂, rules⟩ markup path turns₂ w₂ ∧ out₂.code = w₂.serialize ∧
      turns₁.map Prod.fst = turns₂.map Prod.fst ∧
      ∀ r spelling, .code r ∈ regions → r.mimeType.isSome = true → r.typeText = .ok spelling →
        Mime.normalize spelling = type →
        ∃ made e₁ e₂, (r, made) ∈ turns₁ ∧ (r, made) ∈ turns₂ ∧
          w₁.elements[r.element]? = some e₁ ∧ w₂.elements[r.element]? = some e₂ ∧
          w₁.text e₁ = w₂.text e₂ ∧
          w₁.text e₁ = (made.map
            (bodyFor rules r (Mime.identity path r.ordinal spelling))).getD r.content := by
  obtain ⟨turns₁, w₁, hleaves₁, rfl⟩ := exists_leaves h₁
  obtain ⟨turns₂, w₂, hleaves₂, rfl⟩ := exists_leaves h₂
  obtain ⟨d, hparse⟩ := hleaves₁.exists_parse
  obtain ⟨regions, hregions, hfst₁⟩ := hleaves₁.exists_regions hparse
  obtain ⟨regions', hregions', hfst₂⟩ := hleaves₂.exists_regions hparse
  cases hregions.symm.trans hregions'
  refine ⟨d, regions, turns₁, turns₂, w₁, w₂, hparse, hregions, hleaves₁, rfl, hleaves₂, rfl,
    hfst₁.trans hfst₂.symm, ?_⟩
  intro r spelling hr hsome htype hnormal
  have hmem : r ∈ (codeRegions regions).filter (·.mimeType.isSome) :=
    List.mem_filter.2 ⟨mem_codeRegions.2 hr, hsome⟩
  obtain ⟨⟨_, made₁⟩, hturn₁, rfl⟩ := List.mem_map.1 (hfst₁ ▸ hmem)
  obtain ⟨⟨r, made₂⟩, hturn₂, hsame⟩ := List.mem_map.1 (hfst₂ ▸ hmem)
  dsimp only at hsame hr hsome htype hturn₁
  subst hsame
  -- What the turns come to is the same, whatever the sessions in which they begin.
  have hmade : made₁ = made₂ := by
    obtain ⟨-, _, _, -, -, hturns₁, -⟩ := hleaves₁
    obtain ⟨-, _, _, -, -, hturns₂, -⟩ := hleaves₂
    obtain ⟨_, _, h₁⟩ := hturns₁.exists_turn hturn₁
    obtain ⟨_, _, h₂⟩ := hturns₂.exists_turn hturn₂
    exact h₁.made_eq h₂ htype (hagrees spelling hnormal) (hpage spelling · hnormal)
      (hignores spelling · hnormal)
  subst hmade
  obtain ⟨e₁, he₁, htext₁⟩ := hleaves₁.text_of_turn hturn₁
  obtain ⟨e₂, he₂, htext₂⟩ := hleaves₂.text_of_turn hturn₂
  rw [identityOf_eq htype] at htext₁ htext₂
  exact ⟨made₁, e₁, e₂, hturn₁, hturn₂, he₁, he₂, htext₁.trans htext₂.symm, htext₁⟩

theorem text_eq_of_agreesOn_longer :
    let env : Environment Unit := ⟨⟨.root, []⟩, []⟩
    let double : Delegate Unit :=
      { name := "Double".toList
        compile := fun code _ => pure { code := code ++ code, mimeType := "text/plain".toList } }
    let style : Text × Entry Unit := ("text/css".toList, .compiler (.delegate (.passthrough Unit)))
    let script : Text × Entry Unit := ("text/javascript".toList, .compiler (.delegate double))
    let lookup₁ : Lookup Unit := .registry (Catalog.find none) ⟨[script, style]⟩
    let lookup₂ : Lookup Unit := .registry (Catalog.find none) ⟨[style]⟩
    let markup := "<script>x;</script><style type=text/CSS>ab</style>".toList
    ∃ out₁ out₂ s₁' s₂',
      (compile env ⟨lookup₁, {}⟩ markup "/a.html".toList).Yields ⟨(), []⟩ out₁ s₁' ∧
      (compile env ⟨lookup₂, {}⟩ markup "/a.html".toList).Yields ⟨(), []⟩ out₂ s₂' ∧
      lookup₁.AgreesOn "text/css".toList lookup₂ ∧ out₁.code ≠ out₂.code ∧
      ∃ (r : CodeRegion) (w₁ w₂ : Html.Document) (e₁ e₂ : Html.Element),
        r.content = "ab".toList ∧ out₁.code = w₁.serialize ∧ out₂.code = w₂.serialize ∧
        w₁.elements[r.element]? = some e₁ ∧ w₂.elements[r.element]? = some e₂ ∧
        w₁.text e₁ = w₂.text e₂ := by
  intro env double style script lookup₁ lookup₂ markup
  have hagrees : lookup₁.AgreesOn "text/css".toList lookup₂ := agreesOn_registry rfl
  have hfind (spelling : Text) (hnormal : Mime.normalize spelling = "text/css".toList) :
      lookup₁.find? spelling = .ok (some (.delegate (.passthrough Unit))) := by
    rw [Lookup.find?, Registry.find?, hnormal]
    rfl
  have hlength₁ : ((compile env ⟨lookup₁, {}⟩ markup "/a.html".toList).run.run
      ⟨(), []⟩).1.toOption.map (·.code.length) = some 459 := by decide +kernel
  have hlength₂ : ((compile env ⟨lookup₂, {}⟩ markup "/a.html".toList).run.run
      ⟨(), []⟩).1.toOption.map (·.code.length) = some 255 := by decide +kernel
  obtain ⟨out₁, s₁', hyields₁, hcode₁⟩ := exists_yields hlength₁
  obtain ⟨out₂, s₂', hyields₂, hcode₂⟩ := exists_yields hlength₂
  have hne : out₁.code ≠ out₂.code := fun heq => by
    rw [heq, hcode₂] at hcode₁
    exact absurd hcode₁ (by decide)
  obtain ⟨d, regions, turns₁, turns₂, w₁, w₂, hparse, hregions, -, hw₁, -, hw₂, -, hsame⟩ :=
    text_eq_of_agreesOn hagrees
      (fun spelling name hnormal h => nomatch (hfind spelling hnormal).symm.trans h)
      (fun spelling d hnormal h => by
        cases (hfind spelling hnormal).symm.trans h
        exact ignoresSession_passthrough)
      hyields₁ hyields₂
  let r : CodeRegion := ⟨.style, 1, 1, some "text/css".toList, none, "ab".toList⟩
  have hr : .code r ∈ regions := by
    have hall : ((Html.Document.parse markup).toOption.bind fun d =>
        (Region.ofDocument {} d).toOption.map (·.contains (.code r))) = some true := by decide +kernel
    rw [hparse] at hall
    obtain ⟨regions', hregions', hmem⟩ := Option.map_eq_some_iff.1 hall
    cases hregions.symm.trans (Html.eq_ok_of_toOption hregions')
    exact List.contains_iff_mem.1 hmem
  obtain ⟨made, e₁, e₂, -, -, he₁, he₂, htext, -⟩ := hsame r "text/css".toList hr rfl rfl (by decide)
  exact ⟨out₁, out₂, s₁', s₂', hyields₁, hyields₂, hagrees, hne, r, w₁, w₂, e₁, e₂, rfl, hw₁, hw₂,
    he₁, he₂, htext⟩

end Page

end PageSplice
