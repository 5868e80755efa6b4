-- SUMMARY: Dispatch: a compilation as a left fold of its regions over the caller's session.
import PageSplice.Proofs.Page.Frame
import PageSplice.Proofs.Page.Splicing

/-!
# Dispatch

Once a page is prepared, its compilation is a left fold over its regions, all
kinds in document order. What is carried along is the session, the bodies that
have been made and, once a compiler has failed, the failure. A code region with
a type and a compiler is offered to it once and, where it is accepted, compiled
once; no region has a turn behind a failure. The document comes in only at the
end: no compiler sees what was made of the regions in front.
-/

namespace PageSplice.Page

open Build Html.Document

variable {σ : Type}

-- ---------------------------------------------------------------------------
-- Compilers of regions
-- ---------------------------------------------------------------------------

def typeOf (r : CodeRegion) : Text := r.typeText.toOption.getD []

/-- The compiler of a region; `none` where none is registered for its type. -/
def handlerOf? (env : Environment σ) (lookup : Lookup σ) (r : CodeRegion) : Option (Handler σ) :=
  (lookup.find? (typeOf r)).toOption.join.bind fun compiler =>
    (instantiate env lookup compiler).toOption

theorem handlerOf?_eq {env : Environment σ} {lookup : Lookup σ} {r : CodeRegion} {type : Text}
    {compiler : CompilerClass σ} {h : Handler σ} (htype : r.typeText = .ok type)
    (hfind : lookup.find? type = .ok (some compiler))
    (hmake : instantiate env lookup compiler = .ok h) : handlerOf? env lookup r = some h := by
  have htypeOf : typeOf r = type := by
    rw [typeOf, htype]
    rfl
  rw [handlerOf?, htypeOf, hfind]
  exact congrArg Except.toOption hmake

/-- Whether the type of a region is a text for which no class is registered, or one that is found and
has instances. -/
def IsServed (env : Environment σ) (lookup : Lookup σ) (r : CodeRegion) : Prop :=
  ∃ type found, r.typeText = .ok type ∧ lookup.find? type = .ok found ∧
    ∀ compiler, found = some compiler → ∃ h, instantiate env lookup compiler = .ok h

theorem run_handlerFor {env : Environment σ} {lookup : Lookup σ} {r : CodeRegion}
    (h : IsServed env lookup r) (identity : Text) (s : Session σ) :
    (handlerFor env lookup (typeOf r) identity).run.run s =
      match handlerOf? env lookup r with
      | some handler => (.ok (some handler), s)
      | none => (.ok none, noted .warning .page (unsupportedNote (typeOf r) identity) s) := by
  obtain ⟨type, found, htype, hfind, hmake⟩ := h
  have htypeOf : typeOf r = type := by
    rw [typeOf, htype]
    rfl
  rw [handlerOf?, htypeOf, handlerFor, run_bind, run_ofExcept, hfind]
  cases found with
  | none => rfl
  | some compiler =>
    obtain ⟨handler, hhandler⟩ := hmake compiler rfl
    simp only [mapError_ok, Except.toOption, Option.join_some, Option.bind_some, run_map,
      run_ofExcept, hhandler, Except.map]

theorem run_handle (nested : PageCompiler σ → Build σ Output) (h : Handler σ)
    (content identity : Text) (s : Session σ) :
    (handle nested h content identity).run.run s =
      match (h.accepts identity).run.run s with
      | (.error cause, s₁) => (.error cause, s₁)
      | (.ok false, s₁) => (.ok none, noted .debug .page (declinedNote h identity) s₁)
      | (.ok true, s₁) => (((h.make nested content identity).run.run s₁).1.map some,
          ((h.make nested content identity).run.run s₁).2) := by
  rw [handle_eq, run_bind]
  rcases (h.accepts identity).run.run s with ⟨_ | accepted, s₁⟩
  · rfl
  · cases accepted with
    | false => rfl
    | true => exact run_map _ _ _

-- ---------------------------------------------------------------------------
-- The fold
-- ---------------------------------------------------------------------------

/-- What has come of the regions that have had their turn. -/
structure Progress (σ : Type) where
  session : Session σ
  /-- The elements of which compilers have made something, with their new bodies. -/
  bodies : List (Nat × Text)
  /-- The failure that has ended the run. -/
  failed : Option Failure

namespace Progress

/-- Hands a region to its compiler: asks whether the compiler takes the region, and has it compiled
where it does. A failure of the compiler names the region; that a map cannot be printed is none. -/
def hand (env : Environment σ) (rules : RegionRules) (identity : Text) (r : CodeRegion)
    (h : Handler σ) (p : Progress σ) : Progress σ :=
  match (h.accepts identity).run.run p.session with
  | (.error cause, s) => { p with session := s, failed := some (.wrap identity cause) }
  | (.ok false, s) => { p with session := noted .debug .page (declinedNote h identity) s }
  | (.ok true, s) =>
    match (h.make (compile env · r.content identity) r.content identity).run.run s with
    | (.error cause, s) => { p with session := s, failed := some (.wrap identity cause) }
    | (.ok made, s) =>
      match checkMap rules r identity made with
      | .error e => { p with session := s, failed := some (.unprintable e) }
      | .ok () =>
        let body := bodyFor rules r identity made
        { p with
          session := noted .debug .page (compiledNote identity body) s
          bodies := p.bodies ++ [(r.element, body)] }

/-- The turn of a code region. Behind a failure no region has a turn, and a region without a
compiler is left alone. -/
def turn (env : Environment σ) (c : PageCompiler σ) (identity : Text) (r : CodeRegion)
    (p : Progress σ) : Progress σ :=
  if p.failed.isSome then p
  else
    match handlerOf? env c.lookup r with
    | some h => p.hand env c.rules identity r h
    | none =>
      { p with session := noted .warning .page (unsupportedNote (typeOf r) identity) p.session }

/-- The turn of a region that stands at position `ordinal` among all regions of the document at
`path`. Only code with a type is compiled. -/
def next (env : Environment σ) (c : PageCompiler σ) (path : Text) (p : Progress σ) :
    Region × Nat → Progress σ
  | (.resource _, _) => p
  | (.code r, ordinal) =>
    if r.mimeType.isSome then p.turn env c (Mime.identity path ordinal (typeOf r)) r else p

def bodyCalls (p : Progress σ) : List Call := p.bodies.map fun body => .setBody body.1 body.2

/-- A failure ends the run. -/
theorem foldl_turn_of_failed {env : Environment σ} {c : PageCompiler σ} {path : Text}
    {p : Progress σ} (h : p.failed.isSome = true) (regions : List CodeRegion) :
    regions.foldl (fun p r => p.turn env c (identityOf path r) r) p = p := by
  induction regions with
  | nil => rfl
  | cons r rest ih => rw [List.foldl_cons, turn, if_pos h, ih]

/-- Only code with a type has a turn, under the number that it has. -/
theorem foldl_next {env : Environment σ} {c : PageCompiler σ} {path : Text} {regions : List Region}
    {n : Nat} (h : ∀ i region, regions[i]? = some region → region.ordinal = n + i)
    (p : Progress σ) :
    (regions.zipIdx n).foldl (next env c path) p =
      ((codeRegions regions).filter (·.mimeType.isSome)).foldl
        (fun p r => p.turn env c (identityOf path r) r) p := by
  induction regions generalizing n p with
  | nil => rfl
  | cons region rest ih =>
    have hrest : ∀ i region, rest[i]? = some region → region.ordinal = n + 1 + i := by
      intro i region hi
      rw [h (i + 1) region hi, Nat.add_assoc, Nat.add_comm 1 i]
    rw [List.zipIdx_cons, List.foldl_cons, ih hrest]
    cases region with
    | resource r => rfl
    | code r =>
      have hordinal : r.ordinal = n := h 0 _ rfl
      rw [show codeRegions (.code r :: rest) = r :: codeRegions rest from rfl, List.filter_cons, next]
      split
      · rw [List.foldl_cons, identityOf, hordinal]
        rfl
      · rfl

end Progress

-- ---------------------------------------------------------------------------
-- Compilations are folds
-- ---------------------------------------------------------------------------

theorem run_replaceBody {rules : RegionRules} {d d' : Html.Document} {r : CodeRegion}
    {identity : Text} {made : Output}
    (h : d.setBody r.element (bodyFor rules r identity made) = .ok d') (s : Session σ) :
    (replaceBody rules d r identity made).run.run s =
      match checkMap rules r identity made with
      | .error e => (.error (.unprintable e), s)
      | .ok () =>
        (.ok d', noted .debug .page (compiledNote identity (bodyFor rules r identity made)) s) := by
  rw [replaceBody, run_bind, run_ofExcept]
  cases checkMap rules r identity made with
  | error e => rfl
  | ok _ =>
    simp only [mapError_ok, splice, run_bind, run_ofExcept, h]
    rfl

theorem exists_setBody {d : Html.Document} {index : Nat}
    (hleaf : ∀ e, d.elements[index]? = some e → isLeaf e = true) (body : Text) :
    ∃ d', d.setBody index body = .ok d' := by
  obtain ⟨e, he, hfails, -⟩ | ⟨-, hset⟩ := setBody_cases d index body
  · cases hfails.symm.trans (hleaf e he)
  · exact ⟨_, hset⟩

/-- Compiling a region is its turn, where its compiler can be had and its body can be replaced. -/
theorem run_compileRegion {env : Environment σ} {c : PageCompiler σ} {path : Text}
    {d : Html.Document} {r : CodeRegion} (hserved : IsServed env c.lookup r)
    (hleaf : ∀ e, d.elements[r.element]? = some e → isLeaf e = true) {p : Progress σ}
    (hp : p.failed = none) {base : Html.Document} (hd : d = base.performAll p.bodyCalls) :
    let q := p.turn env c (identityOf path r) r
    (compileRegion env c path (fun c identity => compile env c r.content identity) d r).run.run
        p.session =
      match q.failed with
      | some failure => (.error failure, q.session)
      | none => (.ok (base.performAll q.bodyCalls), q.session) := by
  have htype : r.typeText = .ok (typeOf r) := by
    obtain ⟨type, found, htype, -⟩ := hserved
    rw [typeOf, htype]
    rfl
  have hnotFailed : ¬ p.failed.isSome = true := by
    rw [hp]
    exact Bool.false_ne_true
  rw [compileRegion, run_bind, run_ofExcept, htype]
  simp only [mapError_ok, ← identityOf_eq htype]
  rw [run_bind, run_handlerFor hserved, Progress.turn, if_neg hnotFailed]
  cases handlerOf? env c.lookup r with
  | none => simp only [run_pure, hp, hd]; rfl
  | some h =>
    simp only [run_bind, run_mapFailure, run_handle, Progress.hand]
    rcases (h.accepts (identityOf path r)).run.run p.session with ⟨cause | accepted, s₁⟩
    · rfl
    · cases accepted with
      | false => simp only [mapError_ok, run_pure, hp, hd]; rfl
      | true =>
        simp only
        rcases (h.make (compile env · r.content (identityOf path r)) r.content
          (identityOf path r)).run.run s₁ with ⟨cause | made, s₂⟩
        · rfl
        · obtain ⟨d', hset⟩ := exists_setBody hleaf (bodyFor c.rules r (identityOf path r) made)
          have hcalls : base.performAll (p.bodyCalls ++
              [.setBody r.element (bodyFor c.rules r (identityOf path r) made)]) = d' := by
            rw [performAll_append, ← hd]
            exact perform_ok (show d.perform (.setBody _ _) = .ok d' from hset) []
          simp only [Except.map, mapError_ok, run_replaceBody hset]
          cases checkMap c.rules r (identityOf path r) made with
          | error e => rfl
          | ok _ =>
            simp only [hp, Progress.bodyCalls, List.map_append]
            exact congrArg (fun d => (Except.ok d, _)) hcalls.symm

/-- Compiling regions one after the other is a fold over them. -/
theorem run_regions {env : Environment σ} {c : PageCompiler σ} {path : Text}
    {base : Html.Document} {regions : List CodeRegion}
    (hserved : ∀ r ∈ regions, IsServed env c.lookup r)
    (hleaf : ∀ r ∈ regions, ∀ e, base.elements[r.element]? = some e → isLeaf e = true)
    {p : Progress σ} (hp : p.failed = none) {d : Html.Document}
    (hd : d = base.performAll p.bodyCalls) :
    let q := regions.foldl (fun p r => p.turn env c (identityOf path r) r) p
    (regions.foldlM (fun d r =>
      compileRegion env c path (fun c identity => compile env c r.content identity) d
        r) d).run.run p.session =
      match q.failed with
      | some failure => (.error failure, q.session)
      | none => (.ok (base.performAll q.bodyCalls), q.session) := by
  induction regions generalizing p d with
  | nil =>
    simp only [List.foldlM_nil, List.foldl_nil, hp, hd]
    rfl
  | cons r rest ih =>
    obtain ⟨hfirst, hlater⟩ := List.forall_mem_cons.1 hserved
    obtain ⟨hfirstLeaf, hlaterLeaf⟩ := List.forall_mem_cons.1 hleaf
    have hleaf' : ∀ e, d.elements[r.element]? = some e → isLeaf e = true := by
      intro e he
      rw [hd, getElem?_performAll] at he
      obtain ⟨e₀, he₀, rfl⟩ := Option.map_eq_some_iff.1 he
      exact isLeaf_actAll p.bodyCalls _ e₀ ▸ hfirstLeaf e₀ he₀
    have hturn := @run_compileRegion _ _ _ path _ _ hfirst hleaf' _ hp _ hd
    simp only [List.foldlM_cons, run_bind, hturn, List.foldl_cons]
    cases hq : (p.turn env c (identityOf path r) r).failed with
    | none => exact ih hlater hlaterLeaf hq rfl
    | some failed =>
      rw [Progress.foldl_turn_of_failed (by rw [hq]; rfl), hq]

-- ---------------------------------------------------------------------------
-- New bodies
-- ---------------------------------------------------------------------------

def withBodies (d : Html.Document) (bodies : List (Nat × Text)) : Html.Document :=
  { d with elements := d.elements.mapIdx fun i e =>
      match bodies.lookup i with
      | some body => { e with newBody := some body }
      | none => e }

theorem actAll_setBody {bodies : List (Nat × Text)} (hdistinct : bodies.Pairwise (·.1 ≠ ·.1))
    {i : Nat} {e : Html.Element} (hleaf : ∀ body, (i, body) ∈ bodies → isLeaf e = true) :
    actAll (bodies.map fun body => .setBody body.1 body.2) i e =
      match bodies.lookup i with
      | some body => { e with newBody := some body }
      | none => e := by
  induction bodies generalizing e with
  | nil => rfl
  | cons first rest ih =>
    obtain ⟨index, body⟩ := first
    obtain ⟨hfirst, hrest⟩ := List.pairwise_cons.1 hdistinct
    rw [List.map_cons, actAll, List.foldl_cons, List.lookup_cons]
    by_cases hi : index = i
    · subst hi
      have hlookup : rest.lookup index = none :=
        List.lookup_eq_none_iff.2 fun entry hentry => by simpa using hfirst entry hentry
      have hact : (Call.setBody index body).act index e = { e with newBody := some body } :=
        if_pos ⟨rfl, hleaf body List.mem_cons_self⟩
      rw [hact]
      refine (ih hrest fun later hlater => absurd rfl (hfirst (index, later) hlater)).trans ?_
      rw [hlookup, beq_self_eq_true]
    · have hact : (Call.setBody index body).act i e = e := if_neg fun h => hi h.1
      rw [hact, beq_false_of_ne (Ne.symm hi)]
      exact ih hrest fun later hlater => hleaf later (List.mem_cons_of_mem _ hlater)

/-- Calls that set the bodies of different leaves replace just these bodies. -/
theorem performAll_setBody {d : Html.Document} {bodies : List (Nat × Text)}
    (hdistinct : bodies.Pairwise (·.1 ≠ ·.1))
    (hleaf : ∀ body ∈ bodies, ∀ e, d.elements[body.1]? = some e → isLeaf e = true) :
    d.performAll (bodies.map fun body => .setBody body.1 body.2) = withBodies d bodies := by
  rw [performAll_eq, withBodies]
  refine congrArg (Html.Document.mk d.markup) (mapIdx_congr fun i e he => ?_)
  exact actAll_setBody hdistinct fun body hbody => hleaf _ hbody e he

namespace Progress

theorem bodies_turn (env : Environment σ) (c : PageCompiler σ) (identity : Text) (r : CodeRegion)
    (p : Progress σ) : (p.turn env c identity r).bodies = p.bodies ∨
      ∃ body, (p.turn env c identity r).bodies = p.bodies ++ [(r.element, body)] := by
  unfold turn hand
  split
  · exact .inl rfl
  · split
    · split
      · exact .inl rfl
      · exact .inl rfl
      · split
        · exact .inl rfl
        · split
          · exact .inl rfl
          · exact .inr ⟨_, rfl⟩
    · exact .inl rfl

/-- The elements that get new bodies are those of regions, in the order of the regions. -/
theorem sublist_bodies_foldl_turn (env : Environment σ) (c : PageCompiler σ) (path : Text)
    (regions : List CodeRegion) (p : Progress σ) :
    ((regions.foldl (fun p r => p.turn env c (identityOf path r) r) p).bodies.map Prod.fst).Sublist
      (p.bodies.map Prod.fst ++ regions.map CodeRegion.element) := by
  induction regions generalizing p with
  | nil => simp
  | cons r rest ih =>
    refine (ih (p.turn env c (identityOf path r) r)).trans ?_
    rw [List.map_cons]
    rcases bodies_turn env c (identityOf path r) r p with hsame | ⟨body, hmore⟩
    · rw [hsame]
      exact (List.Sublist.refl _).append (List.sublist_cons_self _ _)
    · rw [hmore]
      simp

end Progress

-- ---------------------------------------------------------------------------
-- Main statement
-- ---------------------------------------------------------------------------

def untypedNote (path : Text) (r : CodeRegion) : Text :=
  "No mime type for <".toList ++ r.language.tag ++ "> region ".toList ++ Text.ofNat r.ordinal ++
    " in ".toList ++ path ++ ", leaving it as-is".toList

def unchangedNote (path : Text) : Text := "Nothing to rewrite in ".toList ++ path

namespace Progress

/-- Nothing has come of any region yet. The regions without a type have been noted. -/
def start (path : Text) (regions : List Region) (s : Session σ) : Progress σ where
  session := ((codeRegions regions).filter (·.mimeType.isNone)).foldl
    (fun s r => noted .debug .page (untypedNote path r) s) s
  bodies := []
  failed := none

/-- How the compilation of the prepared document `d` ends. -/
def outcome (d : Html.Document) (path : Text) (p : Progress σ) :
    Except Failure Output × Session σ :=
  match p.failed with
  | some failure => (.error failure, p.session)
  | none =>
    let written := withBodies d p.bodies
    (.ok { code := written.serialize, mimeType := "text/html".toList },
      if written.isModified then p.session
      else noted .debug .page (unchangedNote path) p.session)

end Progress

/-- Hands the regions of a document at `path` to their compilers, one after the other. -/
def dispatch (env : Environment σ) (c : PageCompiler σ) (path : Text) (regions : List Region)
    (s : Session σ) : Progress σ :=
  regions.zipIdx.foldl (Progress.next env c path) (.start path regions s)

theorem run_notes (path : Text) (regions : List CodeRegion) (s : Session σ) :
    (regions.forM (logUntyped · path)).run.run s =
      (.ok (), regions.foldl (fun s r => noted .debug .page (untypedNote path r) s) s) := by
  induction regions generalizing s with
  | nil => rfl
  | cons r rest ih =>
    exact (run_bind _ _ s).trans (ih _)

theorem run_finish (d : Html.Document) (path : Text) (s : Session σ) :
    (finish d path).run.run s =
      (.ok { code := d.serialize, mimeType := "text/html".toList },
        if d.isModified then s else noted .debug .page (unchangedNote path) s) := by
  unfold finish
  cases d.isModified <;> rfl

/-- The body of a code region can be replaced. -/
theorem isLeaf_of_code {markup : Text} {d : Html.Document} (h : Html.Document.parse markup = .ok d)
    {rules : RegionRules} {regions : List Region} (hregions : Region.ofDocument rules d = .ok regions)
    {r : CodeRegion} (hr : .code r ∈ regions) {e : Html.Element}
    (he : d.elements[r.element]? = some e) : isLeaf e = true := by
  obtain ⟨e', raw, stop, he', hraw, -, hself, hend, -⟩ := exists_of_code h hregions hr
  cases he.symm.trans he'
  rw [isLeaf, Html.Element.isClosed, hend, hasChildren_of_raw h he hraw hself]
  rfl

/-- The compilation of a prepared page is the dispatch of its regions. -/
theorem run_compile {env : Environment σ} {c : PageCompiler σ} {markup path : Text}
    {d : Html.Document} {regions : List Region} {page : Prepared markup}
    (hparse : Html.Document.parse markup = .ok d) (hregions : Region.ofDocument c.rules d = .ok regions)
    (hprepare : prepare env.workingDirectory c.rules markup path = .ok page)
    (hserved : ∀ r, .code r ∈ regions → r.mimeType.isSome = true → IsServed env c.lookup r)
    (s : Session σ) :
    (compile env c markup path).run.run s =
      (dispatch env c path regions s).outcome page.document path := by
  obtain ⟨d', regions', calls, hparse', hregions', hcode, hdocument, -⟩ :=
    exists_calls_of_prepare hprepare
  cases hparse.symm.trans hparse'
  cases hregions.symm.trans hregions'
  have hmem : ∀ r ∈ (codeRegions regions).filter (·.mimeType.isSome),
      .code r ∈ regions ∧ r.mimeType.isSome = true := by
    intro r hr
    exact ⟨mem_codeRegions.1 (List.mem_filter.1 hr).1, (List.mem_filter.1 hr).2⟩
  have hleaf : ∀ r, .code r ∈ regions → ∀ e, page.document.elements[r.element]? = some e →
      isLeaf e = true := by
    intro r hr e he
    rw [hdocument, getElem?_performAll] at he
    obtain ⟨e₀, he₀, rfl⟩ := Option.map_eq_some_iff.1 he
    rw [isLeaf_actAll]
    exact isLeaf_of_code hparse hregions hr he₀
  have hfold : dispatch env c path regions s =
      ((codeRegions regions).filter (·.mimeType.isSome)).foldl
        (fun p r => p.turn env c (identityOf path r) r) (.start path regions s) :=
    Progress.foldl_next (fun i region hi => by
      rw [Region.ordinal_of_ofDocument hregions hi, Nat.zero_add]) _
  have hrun := @run_regions _ env c path _ _ (fun r hr => hserved r (hmem r hr).1 (hmem r hr).2)
    (fun r hr => hleaf r (hmem r hr).1) (.start path regions s) rfl page.document rfl
  rw [← hfold] at hrun
  dsimp only [Progress.start] at hrun
  rw [compile_eq, run_bind, run_ofExcept, hprepare]
  simp only [mapError_ok, run_bind, run_notes, hcode, hrun, Progress.outcome]
  cases hfailed : (dispatch env c path regions s).failed with
  | some failed => rfl
  | none =>
    refine (run_finish _ path _).trans ?_
    have hsublist := Progress.sublist_bodies_foldl_turn env c path
      ((codeRegions regions).filter (·.mimeType.isSome)) (.start path regions s)
    rw [← hfold] at hsublist
    have hdistinct : (dispatch env c path regions s).bodies.Pairwise (·.1 ≠ ·.1) := by
      refine List.pairwise_map.1 (List.Pairwise.sublist hsublist (List.pairwise_map.2 ?_))
      exact ((pairwise_codeRegions hregions).filter _).imp Nat.ne_of_lt
    rw [Progress.bodyCalls, performAll_setBody hdistinct]
    intro body hbody e he
    obtain ⟨r, hr, hindex⟩ := List.mem_map.1 (hsublist.subset (List.mem_map_of_mem hbody))
    exact hleaf r (hmem r hr).1 e (hindex ▸ he)

/-- A delegate that writes down how it is called, takes no styles, and objects to one script. -/
def scribe : Delegate (List Text) where
  name := "Scribe".toList
  accepts identity := do
    setContext ((← context) ++ ["takes? ".toList ++ identity])
    return !Text.endsWith identity ".css".toList
  compile code identity := do
    setContext ((← context) ++ ["compiles ".toList ++ code ++ " of ".toList ++ identity])
    if code = "gh".toList then throw (.raised .badValue "no gh".toList)
    return { code := code.take 1, mimeType := "text/javascript".toList }

end PageSplice.Page
