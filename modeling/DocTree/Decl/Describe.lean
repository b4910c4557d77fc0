import DocTree.Decl.Info
import DocTree.Text.Record

/-! What is remembered of a declaration, in full and on one line. -/
namespace DocTree

def DeclKind.title : DeclKind → String
  | .other => "Other"
  | .function => "Function"
  | .record => "Class"
  | .variable => "Variable"
  | .namespace => "Namespace"
  | .typedef => "Typedef"
  | .enumeration => "Enum"

def TemplateKind.title : TemplateKind → String
  | .notTemplate => "NotTemplate"
  | .template => "Template"
  | .specialization => "TemplateSpecialization"
  | .partialSpecialization => "TemplatePartialSpecialization"

namespace TemplateParam

def describeList (entries : List String) : String :=
  Record.render "TemplateParameterList" [("params", Record.entries entries)]

mutual

def describe : TemplateParam → String
  | .mk name none =>
    Record.render "TemplateParameter" [("name", Record.optionalText name), ("nested", "None")]
  | .mk name (some nested) =>
    Record.render "TemplateParameter"
      [("name", Record.optionalText name),
        ("nested", Record.optional (some (describeList (describeAll nested))))]
termination_by structural p => p

def describeAll : List TemplateParam → List String
  | [] => []
  | p :: rest => describe p :: describeAll rest
termination_by structural ps => ps

end

end TemplateParam

def Summary.describe (s : Summary) : String :=
  let params := s.params.map fun name =>
    Record.render "ParamVarDecl" [("name", Record.optionalText name)]
  let templateParams := s.templateParams.map fun params =>
    TemplateParam.describeList (TemplateParam.describeAll params)
  Record.render "DeclSummary"
    [("kind", s.kind.title), ("template_kind", s.templateKind.title),
      ("param_vars", Record.entries params), ("result_type", Record.optionalText s.result),
      ("template_parameters", Record.optional templateParams),
      ("is_objc_method", Record.truth s.isObjcMethod),
      ("is_instance_method", Record.truth s.isInstanceMethod),
      ("is_class_method", Record.truth s.isClassMethod)]

def DeclInfo.describe (i : DeclInfo) : String :=
  Record.render "DeclInfo"
    [("decl", Quoted.quote i.decl.name),
      ("filled", Record.optional (i.filled.map Summary.describe))]

end DocTree
