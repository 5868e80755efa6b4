-- SUMMARY: The turns of a compilation: what becomes of each code region, from session to session.
import PageSplice.Page.Compile
import PageSplice.Proofs.Build
import PageSplice.Proofs.Html.Editing

/-!
# Turns

The code regions of a page take their turns one after the other, and each turn
goes on in the session that the turn before has left. A region has no compiler,
or its compiler declines it, or its compiler makes something of it; nothing else
can happen in a compilation that succeeds. What is made needs a map that can be
printed, unless it goes without one.
-/

namespace PageSplice.Page

open Build Html.Document

variable {σ : Type} {env : Environment σ} {c : PageCompiler σ} {path : Text}

-- ---------------------------------------------------------------------------
-- One turn
-- ---------------------------------------------------------------------------

def identityOf (path : Text) (r : CodeRegion) : Text :=
  Mime.identity path r.ordinal (r.typeText.toOption.getD [])

theorem identityOf_eq {r : CodeRegion} {type : Text} (h : r.typeText = .ok type) :
    identityOf path r = Mime.identity path r.ordinal type := by
  rw [identityOf, h]
  rfl

def Handler.accepts (h : Handler σ) (identity : Text) : Build σ Bool :=
  match h with
  | .page _ _ => pure (Mime.isHtmlPath identity)
  | .delegate d => d.accepts identity
  | .foreign name => throw (.missingMethod name "should_compile_file_sync".toList)

def Handler.make (nested : PageCompiler σ → Build σ Output) (h : Handler σ)
    (content identity : Text) : Build σ Output :=
  match h with
  | .page _ compiler => nested compiler
  | .delegate d => d.compile content identity
  | .foreign name => throw (.missingMethod name "compile_sync".toList)

theorem handle_eq (nested : PageCompiler σ → Build σ Output) (h : Handler σ)
    (content identity : Text) :
    handle nested h content identity = (do
      let accepted ← h.accepts identity
      if !accepted then
        logDeclined h identity
        return none
      some <$> h.make nested content identity) := by
  cases h <;> rfl

def unsupportedNote (type identity : Text) : Text :=
  (Failure.unsupported type).message ++ "; leaving ".toList ++ identity ++ " uncompiled".toList

def declinedNote (h : Handler σ) (identity : Text) : Text :=
  h.name ++ " declined ".toList ++ identity

def compiledNote (identity body : Text) : Text :=
  "Compiled ".toList ++ identity ++ " (".toList ++ Text.ofNat body.length ++ " chars)".toList

/-- `Turn env c path r s made s'`: from the session `s`, the region `r` of the document at `path` is
left alone, where `made` is `none`, or its compiler makes `made` of it; then the session is `s'`. -/
inductive Turn (env : Environment σ) (c : PageCompiler σ) (path : Text) (r : CodeRegion) :
    Session σ → Option Output → Session σ → Prop
  | unsupported {s : Session σ} {type : Text} (htype : r.typeText = .ok type)
      (hfind : c.lookup.find? type = .ok none) :
      Turn env c path r s none (noted .warning .page (unsupportedNote type (identityOf path r)) s)
  | declined {s s₁ : Session σ} {type : Text} {compiler : CompilerClass σ} {h : Handler σ}
      (htype : r.typeText = .ok type) (hfind : c.lookup.find? type = .ok (some compiler))
      (hmake : instantiate env c.lookup compiler = .ok h)
      (hdeclines : (h.accepts (identityOf path r)).Yields s false s₁) :
      Turn env c path r s none (noted .debug .page (declinedNote h (identityOf path r)) s₁)
  | accepted {s s₁ s₂ : Session σ} {type : Text} {compiler : CompilerClass σ} {h : Handler σ}
      {made : Output} (htype : r.typeText = .ok type)
      (hfind : c.lookup.find? type = .ok (some compiler))
      (hmake : instantiate env c.lookup compiler = .ok h)
      (haccepts : (h.accepts (identityOf path r)).Yields s true s₁)
      (hmakes : (h.make (compile env · r.content (identityOf path r)) r.content
        (identityOf path r)).Yields s₁ made s₂)
      (hcheck : checkMap c.rules r (identityOf path r) made = .ok ()) :
      Turn env c path r s (some made)
        (noted .debug .page
          (compiledNote (identityOf path r) (bodyFor c.rules r (identityOf path r) made)) s₂)

/-- The call that puts what was made of a region in the place of its body. -/
def spliceCall? (rules : RegionRules) (path : Text) (turn : CodeRegion × Option Output) :
    Option Call :=
  turn.2.map fun made =>
    .setBody turn.1.element (bodyFor rules turn.1 (identityOf path turn.1) made)

theorem yields_handlerFor {lookup : Lookup σ} {type identity : Text} {s s' : Session σ}
    {found : Option (Handler σ)} (h : (handlerFor env lookup type identity).Yields s found s') :
    (lookup.find? type = .ok none ∧ found = none ∧
      s' = noted .warning .page (unsupportedNote type identity) s) ∨
    (∃ compiler handler, lookup.find? type = .ok (some compiler) ∧
      instantiate env lookup compiler = .ok handler ∧ found = some handler ∧ s' = s) := by
  unfold handlerFor at h
  obtain ⟨compiler?, s₁, hlookup, hrest⟩ := yields_bind.1 h
  obtain ⟨hfind, rfl⟩ := yields_ofExcept.1 hlookup
  cases compiler? with
  | none =>
    obtain ⟨u, s₂, hlog, hpure⟩ := yields_bind.1 hrest
    obtain ⟨rfl, rfl⟩ := yields_pure.1 hpure
    exact .inl ⟨hfind, rfl, yields_log.1 hlog⟩
  | some compiler =>
    obtain ⟨handler, hinstance, rfl⟩ := yields_map.1 hrest
    obtain ⟨hmake, rfl⟩ := yields_ofExcept.1 hinstance
    exact .inr ⟨compiler, handler, hfind, hmake, rfl, rfl⟩

theorem yields_handle {nested : PageCompiler σ → Build σ Output} {handler : Handler σ}
    {content identity : Text} {s s' : Session σ} {made : Option Output}
    (h : (handle nested handler content identity).Yields s made s') :
    (∃ s₁, (handler.accepts identity).Yields s false s₁ ∧ made = none ∧
      s' = noted .debug .page (declinedNote handler identity) s₁) ∨
    (∃ s₁ output, (handler.accepts identity).Yields s true s₁ ∧
      (handler.make nested content identity).Yields s₁ output s' ∧ made = some output) := by
  rw [handle_eq] at h
  obtain ⟨accepted, s₁, haccepts, hrest⟩ := yields_bind.1 h
  cases accepted with
  | false =>
    obtain ⟨u, s₂, hlog, hpure⟩ := yields_bind.1 hrest
    obtain ⟨rfl, rfl⟩ := yields_pure.1 hpure
    exact .inl ⟨s₁, haccepts, rfl, yields_log.1 hlog⟩
  | true =>
    obtain ⟨output, hmakes, rfl⟩ := yields_map.1 hrest
    exact .inr ⟨s₁, output, haccepts, hmakes, rfl⟩

theorem yields_splice {rules : RegionRules} {d d' : Html.Document} {r : CodeRegion}
    {identity : Text} {made : Output} {s s' : Session σ}
    (h : (splice rules d r identity made).Yields s d' s') :
    d.setBody r.element (bodyFor rules r identity made) = .ok d' ∧
      s' = noted .debug .page (compiledNote identity (bodyFor rules r identity made)) s := by
  unfold splice at h
  obtain ⟨d₁, s₁, hresult, hrest⟩ := yields_bind.1 h
  obtain ⟨hset, rfl⟩ := yields_ofExcept.1 hresult
  obtain ⟨u, s₂, hlog, hpure⟩ := yields_bind.1 hrest
  obtain ⟨rfl, rfl⟩ := yields_pure.1 hpure
  exact ⟨hset, yields_log.1 hlog⟩

theorem yields_replaceBody {rules : RegionRules} {d d' : Html.Document} {r : CodeRegion}
    {identity : Text} {made : Output} {s s' : Session σ}
    (h : (replaceBody rules d r identity made).Yields s d' s') :
    checkMap rules r identity made = .ok () ∧
      d.setBody r.element (bodyFor rules r identity made) = .ok d' ∧
      s' = noted .debug .page (compiledNote identity (bodyFor rules r identity made)) s := by
  obtain ⟨_, s₁, hchecked, hspliced⟩ := yields_bind.1 h
  obtain ⟨hcheck, rfl⟩ := yields_ofExcept.1 hchecked
  exact ⟨hcheck, yields_splice hspliced⟩

/-- Compiling a region is a turn, and changes the document where something was made. -/
theorem turn_of_yields {d d' : Html.Document} {r : CodeRegion} {s s' : Session σ}
    (h : (compileRegion env c path (fun c identity => compile env c r.content identity) d
      r).Yields s d' s') :
    ∃ made, Turn env c path r s made s' ∧
      ((made = none ∧ d' = d) ∨
        ∃ call, spliceCall? c.rules path (r, made) = some call ∧ d.perform call = .ok d') := by
  unfold compileRegion at h
  obtain ⟨type, s₁, hresult, hrest⟩ := yields_bind.1 h
  obtain ⟨htype, rfl⟩ := yields_ofExcept.1 hresult
  simp only [← @identityOf_eq path r type htype] at hrest
  obtain ⟨found, s₂, hfound, hregion⟩ := yields_bind.1 hrest
  rcases yields_handlerFor hfound with ⟨hfind, rfl, rfl⟩ | ⟨compiler, handler, hfind, hmake, rfl, rfl⟩
  · obtain ⟨rfl, rfl⟩ := yields_pure.1 hregion
    exact ⟨none, .unsupported htype hfind, .inl ⟨rfl, rfl⟩⟩
  · obtain ⟨made, s₃, hhandle, hmade⟩ := yields_bind.1 hregion
    rcases yields_handle (yields_mapFailure.1 hhandle) with
      ⟨s₄, hdeclines, rfl, rfl⟩ | ⟨s₄, output, haccepts, hmakes, rfl⟩
    · obtain ⟨rfl, rfl⟩ := yields_pure.1 hmade
      exact ⟨none, .declined htype hfind hmake hdeclines, .inl ⟨rfl, rfl⟩⟩
    · obtain ⟨hcheck, hset, rfl⟩ := yields_replaceBody hmade
      exact ⟨some output, .accepted htype hfind hmake haccepts hmakes hcheck, .inr ⟨_, rfl, hset⟩⟩

-- ---------------------------------------------------------------------------
-- All turns
-- ---------------------------------------------------------------------------

/-- The turns of regions one after the other, and the sessions before and after them. -/
inductive Turns (env : Environment σ) (c : PageCompiler σ) (path : Text) :
    List (CodeRegion × Option Output) → Session σ → Session σ → Prop
  | nil (s : Session σ) : Turns env c path [] s s
  | cons {r : CodeRegion} {made : Option Output} {turns : List (CodeRegion × Option Output)}
      {s s₁ s' : Session σ} (hturn : Turn env c path r s made s₁)
      (hturns : Turns env c path turns s₁ s') : Turns env c path ((r, made) :: turns) s s'

theorem perform_ok {d d' : Html.Document} {call : Call} (h : d.perform call = .ok d')
    (calls : List Call) : d.performAll (call :: calls) = d'.performAll calls := by
  rw [performAll, List.foldl_cons, h]
  rfl

theorem isLeaf_actAll (calls : List Call) (i : Nat) (e : Html.Element) :
    isLeaf (actAll calls i e) = isLeaf e := by
  obtain ⟨-, -, hend, hchildren, -⟩ := actAll_eq calls i e
  simp only [isLeaf, Html.Element.isClosed, hend, hchildren]

/-- Compiling regions takes turns. The document is changed by calls, one for each region of which
something was made, and these bodies can be replaced. -/
theorem turns_of_yields {regions : List CodeRegion} {d d' : Html.Document} {s s' : Session σ}
    (h : (regions.foldlM (fun d r =>
      compileRegion env c path (fun c identity => compile env c r.content identity) d r)
        d).Yields s d' s') :
    ∃ turns, turns.map Prod.fst = regions ∧ Turns env c path turns s s' ∧
      d' = d.performAll (turns.filterMap (spliceCall? c.rules path)) ∧
      ∀ r made e, (r, some made) ∈ turns → d.elements[r.element]? = some e → isLeaf e = true := by
  induction regions generalizing d s with
  | nil =>
    obtain ⟨rfl, rfl⟩ := yields_pure.1 h
    exact ⟨[], rfl, .nil _, rfl, fun r made e hmem => nomatch hmem⟩
  | cons r regions ih =>
    rw [List.foldlM_cons] at h
    obtain ⟨d₁, s₁, hregion, hrest⟩ := yields_bind.1 h
    obtain ⟨made, hturn, hchange⟩ := turn_of_yields hregion
    obtain ⟨turns, hfst, hturns, hdocument, hleaf⟩ := ih hrest
    refine ⟨(r, made) :: turns, by rw [List.map_cons, hfst], .cons hturn hturns, ?_, ?_⟩
    · rcases hchange with ⟨rfl, rfl⟩ | ⟨call, hcall, hperform⟩
      · exact hdocument
      · rw [List.filterMap_cons, hcall, perform_ok hperform]
        exact hdocument
    · intro r' made' e hmem he
      rcases hchange with ⟨rfl, rfl⟩ | ⟨call, hcall, hperform⟩
      · rcases List.mem_cons.1 hmem with heq | hmem
        · cases heq
        · exact hleaf r' made' e hmem he
      · obtain ⟨output, hmade, rfl⟩ := Option.map_eq_some_iff.1 hcall
        rcases List.mem_cons.1 hmem with heq | hmem
        · cases heq
          rcases setBody_cases d r.element (bodyFor c.rules r (identityOf path r) output) with
            ⟨e', -, -, error, herror⟩ | ⟨hleaf', -⟩
          · cases herror.symm.trans hperform
          · exact hleaf' e he
        · have hd₁ := (perform_ok hperform []).symm
          rw [← isLeaf_actAll [.setBody r.element (bodyFor c.rules r (identityOf path r) output)]
            r'.element]
          refine hleaf r' made' _ hmem ?_
          rw [show d₁ = d.performAll [_] from hd₁, getElem?_performAll, he]
          rfl

-- ---------------------------------------------------------------------------
-- Whole compilations
-- ---------------------------------------------------------------------------

theorem foldlM_attach {m : Type → Type} [Monad m] [LawfulMonad m] {α β : Type} (l : List α)
    (f : β → α → m β) (b : β) : l.attach.foldlM (fun b x => f b x.1) b = l.foldlM f b := by
  conv => rhs; rw [← List.attach_map_subtype_val l, List.foldlM_map]

theorem compile_eq (env : Environment σ) (c : PageCompiler σ) (markup path : Text) :
    compile env c markup path = (do
      let page ← ofExcept id (prepare env.workingDirectory c.rules markup path)
      (page.regions.filter (·.mimeType.isNone)).forM (logUntyped · path)
      let d ← (page.regions.filter (·.mimeType.isSome)).foldlM (fun d r =>
        compileRegion env c path (fun c identity => compile env c r.content identity) d r)
          page.document
      finish d path) := by
  rw [compile]
  refine congrArg _ (funext fun page => ?_)
  simp only [← foldlM_attach (page.regions.filter (·.mimeType.isSome))]

/-- Where a page cannot be prepared, its compilation ends before any compiler is looked for. -/
theorem run_compile_of_prepare_error {markup : Text} {failure : Failure}
    (h : prepare env.workingDirectory c.rules markup path = .error failure) (s : Session σ) :
    (compile env c markup path).run.run s = (.error failure, s) := by
  rw [compile_eq, run_bind, run_ofExcept, h]
  rfl

theorem foldlM_congr {m : Type → Type} [Monad m] {α β : Type} {l : List α} {f g : β → α → m β}
    (h : ∀ b, ∀ a ∈ l, f b a = g b a) (b : β) : l.foldlM f b = l.foldlM g b := by
  induction l generalizing b with
  | nil => rfl
  | cons a rest ih =>
    rw [List.foldlM_cons, List.foldlM_cons, h b a List.mem_cons_self]
    exact congrArg _ (funext fun b => ih (fun b a ha => h b a (List.mem_cons_of_mem _ ha)) b)

theorem yields_finish {d : Html.Document} {s s' : Session σ} {out : Output}
    (h : (finish d path).Yields s out s') :
    out = { code := d.serialize, mimeType := "text/html".toList } := by
  unfold finish at h
  simp only at h
  split at h
  · obtain ⟨u, s₁, -, hpure⟩ := yields_bind.1 h
    exact (yields_pure.1 hpure).1
  · exact (yields_pure.1 h).1

/-- A compilation that succeeds has prepared the document, has noted the regions without a type, and
has then given every other code region its turn. -/
theorem turns_of_compile {markup : Text} {s s' : Session σ} {out : Output}
    (h : (compile env c markup path).Yields s out s') :
    ∃ page turns s₀ s₁, prepare env.workingDirectory c.rules markup path = .ok page ∧
      turns.map Prod.fst = page.regions.filter (·.mimeType.isSome) ∧
      ((page.regions.filter (·.mimeType.isNone)).forM (logUntyped · path)).Yields s () s₀ ∧
      Turns env c path turns s₀ s₁ ∧
      out.code =
        (page.document.performAll (turns.filterMap (spliceCall? c.rules path))).serialize ∧
      ∀ r made e, (r, some made) ∈ turns → page.document.elements[r.element]? = some e →
        isLeaf e = true := by
  rw [compile_eq] at h
  obtain ⟨page, s₀, hresult, hrest⟩ := yields_bind.1 h
  obtain ⟨hprepare, rfl⟩ := yields_ofExcept.1 hresult
  obtain ⟨u, s₁, hnotes, hmain⟩ := yields_bind.1 hrest
  obtain ⟨d, s₂, hregions, hfinish⟩ := yields_bind.1 hmain
  obtain ⟨turns, hfst, hturns, rfl, hleaf⟩ := turns_of_yields hregions
  refine ⟨page, turns, s₁, s₂, hprepare, hfst, hnotes, hturns, ?_, hleaf⟩
  exact yields_finish hfinish ▸ rfl

-- ---------------------------------------------------------------------------
-- Maps that can be printed
-- ---------------------------------------------------------------------------

/-- Whether the map that comes with what was made can be printed, where one comes with it. -/
def HasPrintableMap (made : Output) : Prop :=
  ∀ map, made.sourceMap = some map → (Json.Value.obj map).isPrintable = true

theorem hasPrintableMap_of_none {made : Output} (h : made.sourceMap = none) :
    HasPrintableMap made := by
  intro map hmap
  cases h.symm.trans hmap

/-- A map line by line holds the number of its version and no other integers. -/
theorem isPrintable_ofLines (generated source name : Text) :
    (Json.Value.obj (SourceMap.ofLines generated source name)).isPrintable = true := by
  have hversion : Text.fitsIn Text.maxDigits (3 : Int).natAbs = true := by decide +kernel
  simp only [SourceMap.ofLines, Json.Value.isPrintable, Json.membersPrintable, Json.itemsPrintable,
    hversion, Bool.and_self]

theorem checkMap_eq_ok {made : Output} (h : HasPrintableMap made) (rules : RegionRules)
    (r : CodeRegion) (identity : Text) : checkMap rules r identity made = .ok () := by
  have hprints : (Json.Value.obj (mapFor r identity made)).isPrintable = true := by
    unfold mapFor
    rcases hmap : made.sourceMap with _ | _ | ⟨entry, map⟩
    · exact isPrintable_ofLines _ _ _
    · exact isPrintable_ofLines _ _ _
    · exact h _ hmap
  rw [checkMap, Json.Value.check, if_pos hprints]
  exact ite_self _

/-- No map comes with a page. -/
theorem hasPrintableMap_compile {markup : Text} {s s' : Session σ} {out : Output}
    (h : (compile env c markup path).Yields s out s') : HasPrintableMap out := by
  rw [compile_eq] at h
  obtain ⟨page, s₁, -, h⟩ := yields_bind.1 h
  obtain ⟨u, s₂, -, h⟩ := yields_bind.1 h
  obtain ⟨d, s₃, -, h⟩ := yields_bind.1 h
  cases yields_finish h
  exact hasPrintableMap_of_none rfl

end PageSplice.Page
