import Stubwise.Ty

namespace Stubwise

def ParamKind.stars : ParamKind → String
  | varArgs => "*"
  | varKeywords => "**"
  | _ => ""

namespace Ty

def listText (texts : List String) : String :=
  ", ".intercalate texts

def appText (ref : ClassRef) (args : List String) : String :=
  match args with
  | [arg] => if ref == ClassRef.tuple then ref.name ++ "[" ++ arg ++ ", ...]"
      else ref.name ++ "[" ++ arg ++ "]"
  | _ => ref.name ++ "[" ++ listText args ++ "]"

def tupleText (elements : List String) : String :=
  if elements.isEmpty then "tuple[()]" else "tuple[" ++ listText elements ++ "]"

def functionText (name : String) (signatures : List String) : String :=
  match signatures with
  | [signature] => "def " ++ name ++ signature
  | _ => "overloaded def " ++ name ++ "\x7b" ++ " | ".intercalate signatures ++ "\x7d"

mutual

def text : Ty → String
  | any => "Any"
  | var name _ => name
  | cls ref => ref.name
  | app ref args => appText ref (texts args)
  | tuple elements => tupleText (texts elements)
  | union arms => " | ".intercalate (texts arms)
  | literal values => "Literal[" ++ listText (values.map (·.text)) ++ "]"
  | func ⟨name, overloads, _⟩ => functionText name (signatureTexts overloads)
  | method _ owner name _ => "bound method " ++ owner.text ++ "." ++ name
  | type inner => "type[" ++ inner.text ++ "]"
  | module name => "module[" ++ name ++ "]"
  | object _ base => base.text

def texts : List Ty → List String
  | [] => []
  | t :: rest => t.text :: texts rest

def optionText : Option Ty → Option String
  | none => none
  | some t => some t.text

def formalText : Formal → String
  | ⟨name, declared, kind, hasDefault⟩ =>
    kind.stars ++ name ++ ((optionText declared).map (": " ++ ·)).getD "" ++
      (if hasDefault then " = ..." else "")

def formalTexts : List Formal → List String
  | [] => []
  | formal :: rest => formalText formal :: formalTexts rest

def signatureText : Signature → String
  | ⟨params, returns, _⟩ =>
    "(" ++ listText (formalTexts params) ++ ") -> " ++ (optionText returns).getD "?"

def signatureTexts : List Signature → List String
  | [] => []
  | signature :: rest => signatureText signature :: signatureTexts rest

end

end Ty

def typeText (t : Option Ty) : String :=
  (t.map (·.text)).getD "Any"

def Func.text (function : Func) : String :=
  (Ty.func function).text

end Stubwise
