/-
  Documents by their URLs.
-/
import StyleServer.Glob.Basic
import StyleServer.Url.Basic

namespace StyleServer

namespace Url

/-- The URL names layout markup: what follows the last dot of its path is `uxml`, in any
    case. -/
def isMarkup (u : Url) : Bool :=
  let path := u.pathText.toList
  path.contains '.' &&
    (path.reverse.takeWhile (· != '.')).reverse.map Char.toLower = ['u', 'x', 'm', 'l']

/-- The path without its slashes at the front matches a pattern. -/
def matchesGlob (u : Url) (pattern : String) : Bool :=
  globMatches pattern (u.pathText.toList.dropWhile (· == '/'))

/-- Order by text. -/
def le (u v : Url) : Bool := u.text ≤ v.text

end Url

end StyleServer
