-- SUMMARY: Locations: the document path that a request is answered from.
import PageSplice.Mime.Type
import PageSplice.Path

/-!
# Locations

A request names a document or a directory. A directory is answered with its
index. With a document root the document lies in the file tree below it;
without one its path stays what the request calls it, so that nothing a visitor
sees tells where the site keeps its files.
-/

namespace PageSplice.Server

/-- The document that a request asks for, seen from the document root. -/
def requestedDocument (request : Text) : Text :=
  let name := Text.trimLeft (· = '/') request
  if Mime.isHtmlPath name then name
  else Text.trimLeft (· = '/') (Text.trimRight (· = '/') name ++ "/index.html".toList)

def documentPath (root : Option Text) (request : Text) : Text :=
  match root with
  | some root => ((Path.ofText root).join (Path.ofText (requestedDocument request))).toText
  | none => '/' :: requestedDocument request

end PageSplice.Server
