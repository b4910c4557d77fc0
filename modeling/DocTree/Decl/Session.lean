import DocTree.Decl.Describe

/-! Runs of questions about one declaration. Only a question about the summary has the
declaration asked. -/
namespace DocTree.DeclInfo

inductive Question where
  | name
  | isFilled
  | summary
  | describe
  deriving DecidableEq, Repr

inductive Answer where
  | text (text : String)
  | truth (value : Bool)
  | summary (summary : Summary)
  deriving Repr

def reply (i : DeclInfo) : Question → Answer × DeclInfo
  | .name => (.text i.decl.name, i)
  | .isFilled => (.truth i.isFilled, i)
  | .summary =>
    let (found, next) := i.fill
    (.summary found, next)
  | .describe => (.text i.describe, i)

def run (i : DeclInfo) : List Question → List (Answer × DeclInfo)
  | [] => []
  | question :: rest =>
    let next := i.reply question
    next :: run next.2 rest

end DocTree.DeclInfo
