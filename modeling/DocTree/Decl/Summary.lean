/-! What a declaration says about itself. -/
namespace DocTree

inductive DeclKind where
  | other
  | function
  | record
  | variable
  | namespace
  | typedef
  | enumeration
  deriving DecidableEq, Repr

inductive TemplateKind where
  | notTemplate
  | template
  | specialization
  | partialSpecialization
  deriving DecidableEq, Repr

inductive TemplateParam where
  | mk (name : Option String) (nested : Option (List TemplateParam))
  deriving Repr

namespace TemplateParam

def name : TemplateParam → Option String
  | .mk name _ => name

def nested : TemplateParam → Option (List TemplateParam)
  | .mk _ nested => nested

end TemplateParam

structure Summary where
  kind : DeclKind
  templateKind : TemplateKind
  params : List (Option String)
  result : Option String
  templateParams : Option (List TemplateParam)
  isObjcMethod : Bool
  isInstanceMethod : Bool
  isClassMethod : Bool
  deriving Repr

namespace DeclKind

def name : DeclKind → String
  | .other => "other"
  | .function => "function"
  | .record => "class"
  | .variable => "variable"
  | .namespace => "namespace"
  | .typedef => "typedef"
  | .enumeration => "enum"

def all : List DeclKind :=
  [.other, .function, .record, .variable, .namespace, .typedef, .enumeration]

def ofName? (name : String) : Option DeclKind := all.find? (·.name == name)

end DeclKind

namespace TemplateKind

def name : TemplateKind → String
  | .notTemplate => "none"
  | .template => "template"
  | .specialization => "specialization"
  | .partialSpecialization => "partial"

def all : List TemplateKind := [.notTemplate, .template, .specialization, .partialSpecialization]

def ofName? (name : String) : Option TemplateKind := all.find? (·.name == name)

end TemplateKind

namespace Summary

def plain : Summary := ⟨.other, .notTemplate, [], none, none, false, false, false⟩

def function (params : List String) : Summary :=
  { plain with kind := .function, params := params.map some, result := some "void" }

def functionTemplate (params : List String) (templateParams : List TemplateParam) : Summary :=
  { function params with templateKind := .template, templateParams := some templateParams }

def isFunction (s : Summary) : Bool := s.kind == .function

def isTemplate (s : Summary) : Bool := s.templateKind != .notTemplate

end Summary
end DocTree
