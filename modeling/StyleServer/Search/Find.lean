/-
  What is looked for in the documents of a workspace: declarations of variables,
  and selectors of classes.
-/
import StyleServer.Config.Settings
import StyleServer.Search.Provider

namespace StyleServer

/-- The first declaration of a variable in a document. -/
def variableIn? (name : String) (u : Url) (s : Sheet) : Option Location :=
  (s.findCustom? name).map fun p => ⟨u, s.range p.nameSpan⟩

/-- The span of a class's name behind its dot. -/
def Selector.nameSpan (sel : Selector) : Span :=
  ⟨sel.span.start + 1, sel.span.start + 1 + Text.byteLength sel.name.toList⟩

/-- The first selector of a class in a document. -/
def classIn? (name : String) (u : Url) (s : Sheet) : Option Location :=
  (s.findClass? name).map fun sel => ⟨u, s.range sel.nameSpan⟩

/-- Texts in order, each once. -/
def sortedDistinct (names : List String) : List String :=
  (names.mergeSort fun a b => decide (a ≤ b)).eraseReps

/-- Collects the classes of documents. -/
def collectClasses : Visitor (List String) Empty :=
  fun names _ s => (none, names ++ s.classNames)

namespace Provider

variable {σ : Type}

/-- Looks for a variable in the documents that match a pattern, save its origin. -/
def findVariable (p : Provider σ) (name : String) (origin : Url) (pattern : String)
    (cancel : Option Cancellation) (s : σ) : SearchRun σ Unit Location :=
  p.search pattern (some origin) (.plain (variableIn? name)) cancel s ()

/-- Looks for a variable in a style sheet, then in the others. -/
def resolveVariable (p : Provider σ) (name : String) (origin : Url) (sheet : Sheet)
    (pattern : String) (cancel : Option Cancellation) (s : σ) : SearchRun σ Unit Location :=
  match variableIn? name origin sheet with
  | some location => ⟨some location, [], s, ()⟩
  | none => p.findVariable name origin pattern cancel s

/-- Looks for a class in the documents that match a pattern. -/
def findClass (p : Provider σ) (name pattern : String) (cancel : Option Cancellation) (s : σ) :
    SearchRun σ Unit Location :=
  p.search pattern none (.plain (classIn? name)) cancel s ()

/-- The classes of all documents that match a pattern, in order, with the run that read
    them. -/
def classNames (p : Provider σ) (pattern : String) (cancel : Option Cancellation) (s : σ) :
    List String × SearchRun σ (List String) Empty :=
  let run := p.search pattern none collectClasses cancel s []
  (sortedDistinct run.memory, run)

end Provider

end StyleServer
