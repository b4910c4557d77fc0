import DocTree.Tree.Check
import DocTree.Tree.Expect
import DocTree.Tree.Snapshot

/-! Runs of steps on a full comment. Resolving changes bindings, reading changes caches
and what is remembered of the declaration, and a faulty step changes nothing. -/
namespace DocTree.FullComment

inductive Step where
  | look
  | resolve
  | violations
  | outline
  | json
  | walk
  | paramNames
  | declName
  | declInfo
  | askCount
  | expect (expectations : List TreeExpectation)
  deriving Repr

inductive Answer where
  | tree
  | problems (problems : List ResolveError)
  | violations (violations : List Violation)
  | text (text : String)
  | events (events : List Event)
  | names (names : List (Nat × String))
  | summary (summary : Summary)
  | number (n : Nat)
  | verdict (mismatch : Option Mismatch)
  deriving Repr

def perform (t : CommandTable) (step : Step) (f : FullComment) : Run (Answer × FullComment) :=
  match step with
  | .look => .ok (.tree, f)
  | .resolve => do
    let (problems, f) ← f.resolve
    return (.problems problems, f)
  | .violations => .ok (.violations f.violations, f)
  | .outline => do return (.text (← f.snapshot t).outline, ← f.settle)
  | .json => do return (.text (← f.snapshot t).json, ← f.settle)
  | .walk => .ok (.events f.events, f)
  | .paramNames => do return (.names (← f.paramNames), f)
  | .declName => .ok (.text f.declName, f)
  | .declInfo =>
    let (summary, f) := f.declInfo
    .ok (.summary summary, f)
  | .askCount => .ok (.number f.info.asked, f)
  | .expect expectations => do
    let (mismatch, f) ← f.check expectations
    return (.verdict mismatch, f)

def step (t : CommandTable) (f : FullComment) (s : Step) : Except Fault Answer × FullComment :=
  match f.perform t s with
  | .ok (answer, next) => (.ok answer, next)
  | .error fault => (.error fault, f)

def run (t : CommandTable) (f : FullComment) :
    List Step → List (Except Fault Answer × FullComment)
  | [] => []
  | s :: rest =>
    let next := f.step t s
    next :: run t next.2 rest

end DocTree.FullComment
