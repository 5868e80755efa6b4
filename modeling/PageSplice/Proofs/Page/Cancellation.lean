-- SUMMARY: Cancellations: where no delegate cancels, no compilation does, and where maps can be printed too, failures behind preparation are reports.
import PageSplice.Proofs.Page.Origins

/-!
# Cancellations

Every failure of a delegate is wrapped in a report that names the region, but
for a cancellation, which goes through as it is. Nothing else cancels: so where
no delegate does, and the maps of delegates can be printed, a page that is
prepared fails with a report if at all. A region may be a page of its own, and
its failures then come out of a compilation; they are wrapped on the way.
-/

namespace PageSplice.Page

open Build

variable {σ : Type}

-- ---------------------------------------------------------------------------
-- Parts of a compilation
-- ---------------------------------------------------------------------------

def NotCancelled (failure : Failure) : Prop := ∀ text, failure ≠ .cancelled text

def NeverCancels (lookup : Lookup σ) : Prop :=
  ∀ type d, lookup.find? type = .ok (some (.delegate d)) →
    (∀ identity, FailsOnly NotCancelled (d.accepts identity)) ∧
    ∀ content identity, FailsOnly NotCancelled (d.compile content identity)

theorem isReport_wrap {cause : Failure} (h : NotCancelled cause) (identity : Text) :
    (Failure.wrap identity cause).isReport = true := by
  cases cause with
  | cancelled text => exact absurd rfl (h text)
  | _ => rfl

theorem notCancelled_of_isOwn {failure : Failure} (h : IsOwn failure) : NotCancelled failure := by
  rintro text rfl
  exact h

theorem notCancelled_wrap {cause : Failure} (h : NotCancelled cause) (identity : Text) :
    NotCancelled (Failure.wrap identity cause) := by
  cases cause with
  | cancelled text => exact absurd rfl (h text)
  | _ => exact nofun

theorem notCancelled_of_raises {lookup : Lookup σ} (hnever : NeverCancels lookup) {cause : Failure}
    (h : Raises lookup cause) : NotCancelled cause := by
  obtain ⟨type, d, hfind, s, s', ⟨identity, hrun⟩ | ⟨content, identity, hrun⟩⟩ := h
  · exact (hnever type d hfind).1 identity _ _ _ hrun
  · exact (hnever type d hfind).2 content identity _ _ _ hrun

theorem notCancelled_of_comesOf {lookup : Lookup σ} (hnever : NeverCancels lookup)
    {failure : Failure} (h : ComesOf lookup failure) : NotCancelled failure := by
  induction h with
  | own h => exact notCancelled_of_isOwn h
  | raised identity h => exact notCancelled_wrap (notCancelled_of_raises hnever h) identity
  | nested identity _ ih => exact notCancelled_wrap ih identity

theorem notCancelled_of_comesInside {lookup : Lookup σ} (hnever : NeverCancels lookup)
    {cause : Failure} (h : ComesInside lookup cause) : NotCancelled cause :=
  h.elim (notCancelled_of_raises hnever) (notCancelled_of_comesOf hnever)

/-- Where no delegate cancels, no compilation is cancelled. -/
theorem notCancelled_compile {env : Environment σ} {c : PageCompiler σ}
    (hnever : NeverCancels c.lookup) (markup path : Text) :
    FailsOnly NotCancelled (compile env c markup path) :=
  (comesOf_compile markup path).mono fun _ => notCancelled_of_comesOf hnever

-- ---------------------------------------------------------------------------
-- The regions of a page
-- ---------------------------------------------------------------------------

theorem comesFrom_of_handlerOf? {env : Environment σ} {lookup : Lookup σ} {r : CodeRegion}
    {h : Handler σ} (hhandler : handlerOf? env lookup r = some h) : h.ComesFrom lookup := by
  obtain ⟨compiler, hfind, hmake⟩ := Option.bind_eq_some_iff.1 hhandler
  have hfind := Html.eq_ok_of_toOption (Option.join_eq_some_iff.1 hfind)
  exact comesFrom_of_instantiate hfind (Html.eq_ok_of_toOption hmake)

/-- Whether the maps of all delegates that are registered can be printed. -/
def PrintsMaps (lookup : Lookup σ) : Prop :=
  ∀ type d, lookup.find? type = .ok (some (.delegate d)) →
    ∀ content identity s made s', (d.compile content identity).Yields s made s' →
      HasPrintableMap made

theorem hasPrintableMap_make {env : Environment σ} {lookup : Lookup σ} (hprints : PrintsMaps lookup)
    {h : Handler σ} (hcomes : h.ComesFrom lookup) {content identity : Text} {s s' : Session σ}
    {made : Output}
    (hmade : (h.make (compile env · content identity) content identity).Yields s made s') :
    HasPrintableMap made := by
  cases h with
  | page name compiler => exact hasPrintableMap_compile hmade
  | delegate d =>
    obtain ⟨type, hfind⟩ := hcomes
    exact hprints type d hfind _ _ _ _ _ hmade
  | foreign name => cases hmade

/-- Whether the failure of a dispatch, where there is one, is a report. -/
def Progress.FailsWithReport (p : Progress σ) : Prop :=
  ∀ failure, p.failed = some failure → failure.isReport = true

theorem failsWithReport_turn {env : Environment σ} {c : PageCompiler σ}
    (hnever : NeverCancels c.lookup) (hprints : PrintsMaps c.lookup) (identity : Text)
    (r : CodeRegion) {p : Progress σ} (hp : p.FailsWithReport) :
    (p.turn env c identity r).FailsWithReport := by
  unfold Progress.turn
  split
  · exact hp
  · split
    · rename_i h hhandler
      have hcomes := comesFrom_of_handlerOf? hhandler
      have hnested (c' : PageCompiler σ) (hc' : c'.lookup = c.lookup) :
          FailsOnly (ComesOf c.lookup) (compile env c' r.content identity) :=
        hc' ▸ comesOf_compile r.content identity
      unfold Progress.hand
      split
      · rename_i cause s hfails
        rintro failure ⟨⟩
        refine isReport_wrap (notCancelled_of_comesInside hnever ?_) identity
        exact comesInside_accepts hcomes identity _ _ _ hfails
      · exact hp
      · split
        · rename_i cause s hfails
          rintro failure ⟨⟩
          refine isReport_wrap (notCancelled_of_comesInside hnever ?_) identity
          exact comesInside_make hnested hcomes r.content identity _ _ _ hfails
        · rename_i made s hmade
          rw [checkMap_eq_ok (hasPrintableMap_make hprints hcomes hmade)]
          exact hp
    · exact hp

theorem failsWithReport_dispatch {env : Environment σ} {c : PageCompiler σ}
    (hnever : NeverCancels c.lookup) (hprints : PrintsMaps c.lookup) (path : Text)
    (regions : List Region) (s : Session σ) :
    (dispatch env c path regions s).FailsWithReport := by
  have general (turns : List (Region × Nat)) (p : Progress σ) (hp : p.FailsWithReport) :
      (turns.foldl (Progress.next env c path) p).FailsWithReport := by
    induction turns generalizing p with
    | nil => exact hp
    | cons first rest ih =>
      refine ih _ ?_
      obtain ⟨region, ordinal⟩ := first
      cases region with
      | resource r => exact hp
      | code r =>
        rw [Progress.next]
        split
        · exact failsWithReport_turn hnever hprints _ r hp
        · exact hp
  refine general _ _ fun cause hnone => ?_
  cases hnone

/-- Where no delegate cancels and all maps can be printed, every failure of a prepared page is a
report. -/
theorem isReport_of_outcome {env : Environment σ} {c : PageCompiler σ}
    (hnever : NeverCancels c.lookup) (hprints : PrintsMaps c.lookup) {path : Text}
    {regions : List Region} {d : Html.Document} {s s' : Session σ} {failure : Failure}
    (h : (dispatch env c path regions s).outcome d path = (.error failure, s')) :
    failure.isReport = true := by
  unfold Progress.outcome at h
  split at h
  · rename_i failure hfailed
    cases h
    exact failsWithReport_dispatch hnever hprints path regions s failure hfailed
  · cases h

end PageSplice.Page
