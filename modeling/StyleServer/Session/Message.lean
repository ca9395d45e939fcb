/-
  What an editor and the server say to each other.
-/
import StyleServer.Completion.Item
import StyleServer.Diagnostic.Basic
import StyleServer.Hover
import StyleServer.Outline
import StyleServer.Search.Provider

namespace StyleServer

/-- What an editor asks. -/
inductive Request where
  /-- Begins the session, with the root of the workspace or its folders. -/
  | start (root : Option Url) (folders : List Url)
  | hover (url : Url) (position : Position)
  | completion (url : Url) (position : Position)
  | definition (url : Url) (position : Position)
  | outline (url : Url)
  | stop
deriving DecidableEq

/-- What an editor tells. -/
inductive Notice where
  /-- The session has begun. -/
  | ready
  | opened (url : Url) (version : Int) (text : String)
  /-- The texts that a document has had since, the last of them now. -/
  | changed (url : Url) (version : Int) (texts : List String)
  | closed (url : Url)
deriving DecidableEq

/-- How much of a document an editor sends when it changes. -/
inductive SyncKind where
  | nothing
  /-- The whole text. -/
  | full
  | incremental
deriving DecidableEq

/-- The number of a kind in the protocol. -/
def SyncKind.code : SyncKind → Nat
  | nothing => 0
  | full => 1
  | incremental => 2

/-- What a server can be asked for. -/
structure Capabilities where
  hover : Bool
  /-- The texts that ask for completion once they are typed. -/
  completionTriggers : List String
  /-- Items are sent in part and completed one by one. -/
  resolvesItems : Bool
  definition : Bool
  outline : Bool
  sync : SyncKind
deriving DecidableEq

/-- How a server introduces itself. -/
structure Welcome where
  capabilities : Capabilities
  serverName : String
  version : String
deriving DecidableEq

/-- What the server replies to a request. -/
inductive Answer where
  /-- The server is at work. -/
  | welcome (welcome : Welcome)
  | hover (hover : Option Hover)
  /-- Nothing to complete is no list. -/
  | completion (items : Option (List CompletionItem))
  | definition (location : Option Location)
  | outline (symbols : Option (List RuleSymbol))
  | stopped
deriving DecidableEq

/-- The diagnostics of a document, in place of those before. -/
structure Publication where
  url : Url
  version : Option Int
  diagnostics : List Diagnostic
deriving DecidableEq

/-- How a line of the log is meant. -/
inductive LogLevel where
  | error
  | info
deriving DecidableEq

/-- What the server tells the editor. -/
structure Output where
  published : List Publication := []
  log : List (LogLevel × String) := []
deriving DecidableEq

/-- Why a request has no answer. -/
inductive RequestError where
  /-- The session has not begun. -/
  | notStarted
  /-- The session has begun before, or is over. -/
  | invalidRequest
deriving DecidableEq

end StyleServer
