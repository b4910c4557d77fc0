import DocTree.Command.Info

/-! The commands every table starts with, in the order of their ids. -/
namespace DocTree.Builtin

structure Entry where
  name : String
  numArgs : Nat
  shape : Shape
  deriving DecidableEq, Repr

def Entry.info (e : Entry) (id : UInt16) : CommandInfo := .ofShape id e.name e.numArgs e.shape

def inlineCommands : List Entry :=
  ["b", "c", "p", "a", "e", "em"].map fun name => ⟨name, 1, .inline⟩

def roleCommands : List Entry :=
  [⟨"brief", 0, .brief⟩, ⟨"short", 0, .brief⟩,
    ⟨"result", 0, .returns⟩, ⟨"return", 0, .returns⟩,
    ⟨"returns", 0, .returns⟩, ⟨"param", 0, .param⟩, ⟨"tparam", 0, .tparam⟩]

def plainCommands : List Entry :=
  ["author", "authors", "bug", "copyright", "date", "details", "deprecated", "invariant", "note",
    "post", "pre", "remark", "remarks", "sa", "see", "since", "todo", "version",
    "warning"].map fun name => ⟨name, 0, .block⟩

def raisingCommands : List Entry :=
  ["throw", "throws", "exception"].map fun name => ⟨name, 1, .block⟩

def verbatimBlocks : List Entry :=
  [("code", "endcode"), ("verbatim", "endverbatim"), ("htmlonly", "endhtmlonly"),
    ("latexonly", "endlatexonly"), ("xmlonly", "endxmlonly"), ("manonly", "endmanonly"),
    ("rtfonly", "endrtfonly"), ("dot", "enddot"), ("msc", "endmsc"), ("f[", "f]"),
    ("f\x7b", "f\x7d")].flatMap fun (opener, closer) =>
      [⟨opener, 0, .verbatimBlock closer⟩, ⟨closer, 0, .verbatimEnd⟩]

def verbatimLines : List Entry :=
  ["fn", "defgroup", "ingroup", "addtogroup", "weakgroup", "name", "section", "subsection",
    "subsubsection", "paragraph", "mainpage", "subpage", "relates", "related", "relatesalso",
    "relatedalso"].map fun name => ⟨name, 0, .verbatimLine⟩

def entries : List Entry :=
  inlineCommands ++ roleCommands ++ plainCommands ++ raisingCommands ++ verbatimBlocks ++
    verbatimLines

end DocTree.Builtin
