-- SUMMARY: Exchanges: a response on its way out, with its page compiled or taken from the cache.
import PageSplice.Page.Compile
import PageSplice.Server.Cache
import PageSplice.Server.Location
import PageSplice.Server.Response

/-!
# Exchanges

A response that holds a page leaves the server with the page compiled; every
other response, and one with a blank page, leaves it untouched. The compiler is
that of the server and does not change; the document root, the timeout and what
pages inside of pages are compiled with follow the settings of the moment.

A page is compiled under a context of its own. It is in the cache before it is
encoded: a page that its charset cannot express fails without being compiled
again.
-/

namespace PageSplice.Server

variable {σ : Type}

structure Exchange (σ : Type) where
  answer : Except Failure Response
  /-- The context of the page and the log. -/
  session : Session σ
  cache : Cache

/-- The page compiled, from the cache where it is there, and the cache after it. -/
def compileCached (env : Environment σ) (c : PageCompiler σ) (cache : Cache)
    (markup path : Text) : Build σ (Text × Cache) := do
  let key := Cache.key path markup
  match cache.lookup key with
  | some page => return (page, cache)
  | none =>
    let made ← Page.compile env c markup path
    let timeout ← Build.ofExcept .misuse env.settings.cacheTimeout?
    Build.log .info .server ("Compiled inline assets for ".toList ++ path)
    return (made.code, cache.put timeout key made.code)

/-- Sends the response to a request on its way, with `fresh` as the context of its page. -/
def exchange (env : Environment σ) (c : PageCompiler σ) (fresh : σ) (cache : Cache)
    (request : Text) (response : Response) : Exchange σ :=
  let untouched : Exchange σ := ⟨.ok response, ⟨fresh, []⟩, cache⟩
  if !response.isPage then untouched
  else
    match response.text with
    | .error e => { untouched with answer := .error e }
    | .ok markup =>
      if Text.blank markup then untouched
      else
        match env.settings.documentRoot? with
        | .error e => { untouched with answer := .error (.misuse e) }
        | .ok root =>
          let path := documentPath root request
          match (compileCached env c cache markup path).run.run ⟨fresh, []⟩ with
          | (.ok (page, cache), session) => ⟨response.withText page, session, cache⟩
          | (.error e, session) => ⟨.error e, session, cache⟩

end PageSplice.Server
