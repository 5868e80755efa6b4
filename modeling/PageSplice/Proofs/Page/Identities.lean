-- SUMMARY: The identities of regions: those of a page and of the pages inside of it all differ.
import Mathlib.Data.List.Nodup
import PageSplice.Catalog
import PageSplice.Proofs.Page.Dispatch
import PageSplice.Proofs.Recording

/-!
# Identities

A region goes to its compiler under an identity that is made of the path of its
document, its number there and an extension that the author of the page has a
say in. A page inside of a page has the identity of its region for a path. The
number is written in digits and ends in a dot, so identities of regions with
different numbers part there, whatever stands behind; and those inside of a
region are longer than that of the region.
-/

namespace PageSplice

variable {σ : Type}

-- ---------------------------------------------------------------------------
-- Recorded compilations
-- ---------------------------------------------------------------------------

def PageCompiler.recorded (c : PageCompiler σ) : PageCompiler (Recorded σ) :=
  ⟨c.lookup.recorded, c.rules⟩

namespace Page

open Build

def Handler.recorded : Handler σ → Handler (Recorded σ)
  | .page name compiler => .page name compiler.recorded
  | .delegate d => .delegate d.recorded
  | .foreign name => .foreign name

theorem instantiate_recorded (env : Environment σ) (lookup : Lookup σ)
    (compiler : CompilerClass σ) :
    instantiate env.recorded lookup.recorded compiler.recorded =
      (instantiate env lookup compiler).map Handler.recorded := by
  cases compiler with
  | html name =>
    have hrules : env.recorded.settings.rules = env.settings.rules :=
      env.settings.rules_recorded
    simp only [CompilerClass.recorded, instantiate, PageCompiler.withLookup, hrules]
    rfl
  | _ => rfl

theorem mirrors_handlerFor (env : Environment σ) (lookup : Lookup σ) (type identity : Text) :
    Mirrors (Option.map Handler.recorded) []
      (handlerFor env.recorded lookup.recorded type identity)
      (handlerFor env lookup type identity) := by
  unfold handlerFor
  refine (mirrors_ofExcept id (find?_recorded lookup type)).quiet_bind fun _ found _ _ => ?_
  cases found with
  | none => exact (mirrors_log _ _ _).quiet_bind fun _ _ _ _ => mirrors_pure none
  | some compiler =>
    exact (mirrors_ofExcept id (instantiate_recorded env lookup compiler)).map fun _ => rfl

section Mirrors

variable {nested' : PageCompiler (Recorded σ) → Build (Recorded σ) Output}
  {nested : PageCompiler σ → Build σ Output} {content identity : Text} {inner : List Text}

theorem mirrors_handle_page {name : Text} {compiler : PageCompiler σ}
    (hnested : Mime.isHtmlPath identity = true →
      Mirrors id inner (nested' compiler.recorded) (nested compiler)) :
    Mirrors id inner (handle nested' (Handler.page name compiler).recorded content identity)
      (handle nested (.page name compiler) content identity) := by
  rw [handle_eq, handle_eq]
  have hpure : Mirrors id [] (pure (Mime.isHtmlPath identity) : Build (Recorded σ) Bool)
      (pure (Mime.isHtmlPath identity) : Build σ Bool) := mirrors_pure _
  refine hpure.quiet_bind fun s accepted s' hyields => ?_
  obtain ⟨rfl, -⟩ := yields_pure.1 hyields
  cases haccepts : Mime.isHtmlPath identity with
  | false => exact (mirrors_log _ _ _).quiet_bind fun _ _ _ _ => mirrors_pure none
  | true => exact (hnested haccepts).map fun _ => rfl

theorem mirrors_handle_delegate (d : Delegate σ) :
    Mirrors id [identity] (handle nested' (Handler.delegate d).recorded content identity)
      (handle nested (.delegate d) content identity) := by
  intro s calls
  have haccepts := d.run_recorded_accepts identity s calls
  rw [run_handle, run_handle]
  simp only [Handler.recorded, Handler.accepts, Handler.make, haccepts]
  rcases (d.accepts identity).run.run s with ⟨cause | accepted, s₁⟩
  · exact ⟨_, orderly_accepts identity, rfl⟩
  · cases accepted with
    | false => exact ⟨_, orderly_accepts identity, rfl⟩
    | true =>
      refine ⟨_, orderly_compile content identity, ?_⟩
      have hmake := d.run_recorded_compile content identity s₁ (calls ++ [.accepts identity])
      simp only [hmake]
      rcases (d.compile content identity).run.run s₁ with ⟨cause | made, s₂⟩ <;>
        simp [Except.map]

end Mirrors

-- ---------------------------------------------------------------------------
-- The identities of a page
-- ---------------------------------------------------------------------------

/-- The page compiler of a region that is compiled as a page of its own. -/
def pageCompiler? (env : Environment σ) (lookup : Lookup σ) (path : Text) (r : CodeRegion) :
    Option (PageCompiler σ) :=
  match handlerOf? env lookup r with
  | some (.page _ compiler) => if Mime.isHtmlPath (identityOf path r) then some compiler else none
  | _ => none

/-- The identities of the code regions with a type, those of a document and of the pages inside of
it at every depth, in the order in which compilers are called. -/
def identities (env : Environment σ) (c : PageCompiler σ) (markup path : Text) : List Text :=
  match prepare env.workingDirectory c.rules markup path with
  | .error _ => []
  | .ok page =>
    (page.regions.filter (·.mimeType.isSome)).attach.flatMap fun ⟨r, hr⟩ =>
      have := page.length_content_lt r (List.mem_filter.1 hr).1
      identityOf path r ::
        match pageCompiler? env c.lookup path r with
        | some compiler => identities env compiler r.content (identityOf path r)
        | none => []
termination_by markup.length

def identitiesOf (env : Environment σ) (c : PageCompiler σ) (path : Text) (r : CodeRegion) :
    List Text :=
  identityOf path r ::
    match pageCompiler? env c.lookup path r with
    | some compiler => identities env compiler r.content (identityOf path r)
    | none => []

theorem identities_eq {env : Environment σ} {c : PageCompiler σ} {markup path : Text}
    {page : Prepared markup} (h : prepare env.workingDirectory c.rules markup path = .ok page) :
    identities env c markup path =
      (page.regions.filter (·.mimeType.isSome)).flatMap (identitiesOf env c path) := by
  rw [identities, h]
  conv => rhs; rw [← List.attach_map_subtype_val (page.regions.filter _), List.flatMap_map]
  rfl

theorem mirrors_replaceBody (rules : RegionRules) (d : Html.Document) (r : CodeRegion)
    (identity : Text) (made : Output) :
    Mirrors id [] (replaceBody rules d r identity made : Build (Recorded σ) Html.Document)
      (replaceBody rules d r identity made) :=
  (mirrors_ofExcept_id _ _).quiet_bind fun _ _ _ _ =>
    (mirrors_ofExcept_id _ _).quiet_bind fun _ _ _ _ =>
      (mirrors_log _ _ _).quiet_bind fun _ _ _ _ => mirrors_pure _

theorem mirrors_finish (d : Html.Document) (path : Text) :
    Mirrors id [] (finish d path : Build (Recorded σ) Output) (finish d path) := by
  unfold finish
  cases !d.isModified with
  | true => exact (mirrors_log _ _ _).quiet_bind fun _ _ _ _ => mirrors_pure _
  | false => exact mirrors_pure _

theorem mirrors_compileRegion {env : Environment σ} {c : PageCompiler σ} {path : Text}
    {nested' : PageCompiler (Recorded σ) → Text → Build (Recorded σ) Output}
    {nested : PageCompiler σ → Text → Build σ Output} {r : CodeRegion}
    (hnested : ∀ compiler, pageCompiler? env c.lookup path r = some compiler →
      Mirrors id (identities env compiler r.content (identityOf path r))
        (nested' compiler.recorded (identityOf path r)) (nested compiler (identityOf path r)))
    (d : Html.Document) :
    Mirrors id (identitiesOf env c path r)
      (compileRegion env.recorded c.recorded path nested' d r)
      (compileRegion env c path nested d r) := by
  refine (mirrors_ofExcept_id _ r.typeText).quiet_bind fun _ type _ hyields => ?_
  obtain ⟨htype, -⟩ := yields_ofExcept.1 hyields
  have hidentity : Mime.identity path r.ordinal type = identityOf path r :=
    (identityOf_eq htype).symm
  simp only [id_eq, hidentity]
  refine (mirrors_handlerFor env c.lookup type _).quiet_bind fun _ found _ hfound => ?_
  cases found with
  | none => exact mirrors_pure d
  | some h =>
    refine Mirrors.bind_quiet (f := id) (Mirrors.mapFailure ?_ _) fun _ made _ _ => ?_
    · have hhandler : handlerOf? env c.lookup r = some h := by
        rcases yields_handlerFor hfound with ⟨-, hnone, -⟩ | ⟨compiler, _, hfind, hmake, hsome, -⟩
        · cases hnone
        · cases hsome
          exact handlerOf?_eq htype hfind hmake
      cases h with
      | page name compiler =>
        refine (mirrors_handle_page fun hpage => ?_).mono (List.sublist_cons_self _ _)
        have hcompiler : pageCompiler? env c.lookup path r = some compiler := by
          rw [pageCompiler?, hhandler]
          exact if_pos hpage
        rw [hcompiler]
        exact hnested compiler hcompiler
      | delegate d =>
        exact (mirrors_handle_delegate d).mono (List.cons_sublist_cons.2 (List.nil_sublist _))
      | foreign name => exact mirrors_throw _
    · cases made with
      | none => exact mirrors_pure d
      | some made => exact mirrors_replaceBody _ _ _ _ _

/-- A compilation with recorded delegates does what the compilation without does. -/
theorem mirrors_compile (env : Environment σ) (c : PageCompiler σ) (markup path : Text) :
    Mirrors id (identities env c markup path) (compile env.recorded c.recorded markup path)
      (compile env c markup path) := by
  induction hn : markup.length using Nat.strongRecOn generalizing c markup path with
  | ind n ih =>
    subst hn
    rw [compile_eq, compile_eq]
    refine (mirrors_ofExcept_id id _).quiet_bind fun _ page _ hpage => ?_
    have hprepare : prepare env.workingDirectory c.rules markup path = .ok page :=
      (yields_ofExcept.1 hpage).1
    rw [identities_eq hprepare]
    refine (mirrors_forM (fun r => mirrors_log _ _ _) _).quiet_bind fun _ _ _ _ => ?_
    refine Mirrors.bind_quiet (f := id) (mirrors_foldlM (fun d r hr => ?_) _) fun _ d _ _ => ?_
    · have hshorter := page.length_content_lt r (List.mem_filter.1 hr).1
      exact mirrors_compileRegion (fun compiler _ => ih _ hshorter compiler r.content _ rfl) d
    · exact mirrors_finish d path

-- ---------------------------------------------------------------------------
-- Different regions
-- ---------------------------------------------------------------------------

/-- What the identities of the region with number `n` of the document at `path` begin with, and those
of all regions inside of it. -/
def numbered (path : Text) (n : Nat) : Text := path ++ ":inline_".toList ++ Text.ofNat n ++ ['.']

theorem identityOf_eq_numbered (path : Text) (r : CodeRegion) :
    identityOf path r = numbered path r.ordinal ++ Mime.extension (typeOf r) := rfl

theorem numbered_isPrefix_identityOf (path : Text) (r : CodeRegion) :
    numbered path r.ordinal <+: identityOf path r :=
  List.prefix_append _ _

theorem length_lt_identityOf (path : Text) (r : CodeRegion) :
    path.length < (identityOf path r).length := by
  simp only [identityOf_eq_numbered, numbered, List.length_append, List.length_singleton]
  omega

/-- A numeral is digits up to the dot behind it. -/
theorem takeWhile_numeral (n : Nat) (rest : Text) :
    (Text.ofNat n ++ '.' :: rest).takeWhile Char.isDigit = Text.ofNat n :=
  takeWhile_run (fun _ hc => Nat.isDigit_of_mem_toDigits (by decide) (by decide) hc)
    (by decide) rest

theorem ofNat_injective {n m : Nat} (h : Text.ofNat n = Text.ofNat m) : n = m := by
  have hread (k : Nat) : Nat.ofDigitChars 10 (Text.ofNat k) 0 = k :=
    Nat.ofDigitChars_toDigits (by decide) (by decide)
  rw [← hread n, h, hread]

/-- A text that begins like the identity of a region says which number the region has. -/
theorem numbered_unique {path identity : Text} {n m : Nat} (hn : numbered path n <+: identity)
    (hm : numbered path m <+: identity) : n = m := by
  obtain ⟨rest, rfl⟩ := hn
  obtain ⟨rest', heq⟩ := hm
  simp only [numbered, List.append_assoc, List.append_cancel_left_eq, List.singleton_append] at heq
  have hnumeral := congrArg (List.takeWhile Char.isDigit) heq
  rw [takeWhile_numeral, takeWhile_numeral] at hnumeral
  exact (ofNat_injective hnumeral).symm

/-- The identities of the regions of a document begin with its path, and go on. -/
theorem isPrefix_of_mem_identities {env : Environment σ} {c : PageCompiler σ}
    {markup path identity : Text} (h : identity ∈ identities env c markup path) :
    path <+: identity ∧ path.length < identity.length := by
  induction hn : markup.length using Nat.strongRecOn generalizing c markup path with
  | ind n ih =>
    subst hn
    cases hprepare : prepare env.workingDirectory c.rules markup path with
    | error failure =>
      rw [identities, hprepare] at h
      cases h
    | ok page =>
      rw [identities_eq hprepare] at h
      obtain ⟨r, hr, hmem⟩ := List.mem_flatMap.1 h
      have hregion : path <+: identityOf path r := by
        simp only [identityOf_eq_numbered, numbered, List.append_assoc]
        exact List.prefix_append _ _
      obtain rfl | hinner := List.mem_cons.1 hmem
      · exact ⟨hregion, length_lt_identityOf path r⟩
      · split at hinner
        · have hshorter := page.length_content_lt r (List.mem_filter.1 hr).1
          obtain ⟨hbegins, hlonger⟩ := ih _ hshorter hinner rfl
          exact ⟨hregion.trans hbegins, Nat.lt_trans (length_lt_identityOf path r) hlonger⟩
        · cases hinner

theorem numbered_isPrefix_of_mem {env : Environment σ} {c : PageCompiler σ} {path identity : Text}
    {r : CodeRegion} (h : identity ∈ identitiesOf env c path r) :
    numbered path r.ordinal <+: identity := by
  obtain rfl | hinner := List.mem_cons.1 h
  · exact numbered_isPrefix_identityOf path r
  · split at hinner
    · exact (numbered_isPrefix_identityOf path r).trans (isPrefix_of_mem_identities hinner).1
    · cases hinner

theorem pairwise_ordinal_of_prepare {workingDirectory : Path} {rules : RegionRules}
    {markup path : Text} {page : Prepared markup}
    (h : prepare workingDirectory rules markup path = .ok page) :
    page.regions.Pairwise fun a b => a.ordinal < b.ordinal := by
  obtain ⟨d, regions, -, hregions, hcode, -⟩ := prepare_eq_ok h
  exact hcode ▸ pairwise_codeRegions_of (Region.pairwise_ordinal_ofDocument hregions)

/-- No two regions have the same identity, be they in the same document or not. -/
theorem nodup_identities (env : Environment σ) (c : PageCompiler σ) (markup path : Text) :
    (identities env c markup path).Nodup := by
  induction hn : markup.length using Nat.strongRecOn generalizing c markup path with
  | ind n ih =>
    subst hn
    cases hprepare : prepare env.workingDirectory c.rules markup path with
    | error failure =>
      rw [identities, hprepare]
      exact List.nodup_nil
    | ok page =>
      rw [identities_eq hprepare, List.nodup_flatMap]
      constructor
      · intro r hr
        have hshorter := page.length_content_lt r (List.mem_filter.1 hr).1
        refine List.nodup_cons.2 ⟨fun hmem => ?_, ?_⟩
        · split at hmem
          · exact Nat.lt_irrefl _ (isPrefix_of_mem_identities hmem).2
          · cases hmem
        · split
          · exact ih _ hshorter _ _ _ rfl
          · exact List.nodup_nil
      · refine ((pairwise_ordinal_of_prepare hprepare).filter _).imp fun {a b} hab => ?_
        refine List.disjoint_left.2 fun identity ha hb => Nat.ne_of_lt hab ?_
        exact numbered_unique (numbered_isPrefix_of_mem ha) (numbered_isPrefix_of_mem hb)

example :
    let env : Environment Unit := ⟨⟨.root, []⟩, []⟩
    let c : PageCompiler Unit := ⟨.exact [("text/html".toList, .compiler Catalog.html)], {}⟩
    identities env c "<script type=text/html><style type=text/css>ab</style></script>".toList
        "/p.html".toList = ["/p.html:inline_0.html".toList,
      "/p.html:inline_0.html:inline_0.css".toList] := by decide +kernel

/-- A run of a compilation asks delegates about regions with identities that are all different, those
of the regions of the document and of the pages inside of it, and has nothing compiled but what it
has asked about. Here `calls` are the calls of the run: recorded delegates write down how they are
called, and do what they do without. -/
theorem compile_calls_nodup (env : Environment σ) (c : PageCompiler σ) (markup path : Text)
    (s : Session σ) :
    (identities env c markup path).Nodup ∧
    ∃ calls, (compile env.recorded c.recorded markup path).run.run (s.withCalls []) =
        (((compile env c markup path).run.run s).1,
          ((compile env c markup path).run.run s).2.withCalls calls) ∧
      (calls.filterMap DelegateCall.asked?).Nodup ∧
      (calls.filterMap DelegateCall.asked?).Sublist (identities env c markup path) ∧
      (calls.filterMap DelegateCall.compiled?).Sublist
        (calls.filterMap DelegateCall.asked?) := by
  have hnodup := nodup_identities env c markup path
  obtain ⟨calls, horderly, hrun⟩ := mirrors_compile env c markup path s []
  refine ⟨hnodup, calls, ?_, hnodup.sublist horderly.asked, horderly.asked, horderly.compiled⟩
  rw [hrun, Except.map_id, id, List.nil_append]

end Page

end PageSplice
