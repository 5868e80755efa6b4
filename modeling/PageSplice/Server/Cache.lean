-- SUMMARY: The cache of compiled pages.
import PageSplice.Digest

/-!
# The cache

A compiled page is kept under a key that is made of the document path and the
markup alone. The settings are no part of the key.
-/

namespace PageSplice.Server

/-- Compiled pages by their keys, the latest first. -/
abbrev Cache := List (Text × Text)

namespace Cache

/-- The key of the page with the given markup at `path`. -/
def key (path markup : Text) : Text :=
  "iac:".toList ++ Digest.short 64 (path ++ '\x00' :: markup)

/-- Whether a page with that timeout is kept; one without a timeout is kept for ever. -/
def keeps (timeout : Option Int) : Bool := timeout.all (0 < ·)

def put (timeout : Option Int) (key page : Text) (cache : Cache) : Cache :=
  if keeps timeout then (key, page) :: cache else cache

@[simp] theorem lookup_put {timeout : Option Int} {key page : Text} {cache : Cache}
    (h : keeps timeout = true) (k : Text) :
    (put timeout key page cache).lookup k = if k = key then some page else cache.lookup k := by
  by_cases hk : k = key
  · simp [put, h, hk]
  · simp [put, h, List.lookup_cons, beq_eq_false_iff_ne.2 hk, hk]

theorem put_of_not_keeps {timeout : Option Int} {key page : Text} {cache : Cache}
    (h : keeps timeout = false) : put timeout key page cache = cache := by
  simp [put, h]

end Cache

end PageSplice.Server
