import Stubwise.Stub.Decl

namespace Stubwise

structure StubModule where
  decl : ModuleDecl
  members : Table Decl := []
  deriving Inhabited

def outerName (dotted : String) : String :=
  ".".intercalate (Text.split '.' dotted).dropLast

namespace StubModule

def packageOf (name : String) (isPackage : Bool) : String :=
  if isPackage then name else outerName name

/-- The module that an import names; each dot after the first leads one package up. -/
def importedModule (package module : String) (level : Nat) : String :=
  if level == 0 then module
  else
    let base := (level - 1).repeat outerName package
    if module.isEmpty then base
    else if base.isEmpty then module
    else base ++ "." ++ module

def importTarget (from_ name : String) : String :=
  if from_.isEmpty then name else from_ ++ "." ++ name

def localName (imported : ImportName) : String :=
  if imported.asName.isEmpty then imported.name else imported.asName

mutual

def scan (package : String) (names : NameTable) : Stmt → NameTable
  | .class_ ⟨_, declared, _, _, _, _⟩ => own names declared
  | .function ⟨_, declared, _, _, _, _, _⟩ => own names declared
  | .annAssign _ (.name _ id _) _ _ => own names id
  | .assign _ [.name _ id _] _ => own names id
  | .import_ _ imported =>
    imported.foldl (fun names item =>
      if item.asName.isEmpty then
        let head := String.ofList (item.name.toList.takeWhile (· != '.'))
        { names with imports := names.imports.set head head }
      else { names with imports := names.imports.set item.asName item.name }) names
  | .importFrom _ module imported level =>
    let from_ := importedModule package module level
    imported.foldl (fun names item =>
      if item.name == "*" then names
      else { names with
        imports := names.imports.set (localName item) (importTarget from_ item.name) }) names
  | .branch _ _ body orElse => scanAll package (scanAll package names body) orElse
  | .guarded _ body _ _ _ => scanAll package names body
  | _ => names
where
  own (names : NameTable) (name : String) : NameTable :=
    { names with own := NameSet.insert names.own name }

def scanAll (package : String) (names : NameTable) : List Stmt → NameTable
  | [] => names
  | stmt :: rest => scanAll package (scan package names stmt) rest

end

def funcDecl (names : NameTable) (owner : String) (definition : FunctionDef) : Decl :=
  .func { module := names.module, owner, name := definition.name, definitions := [definition],
          names }

def assigned (names : NameTable) (name : String) (value : Expr) : Decl :=
  match value with
  | .call _ callee _ keywords =>
    if callee.dottedTail == "TypeVar" then
      let bound := (keywords.filter (·.name == "bound")).getLast?.map (·.value)
      .typeVar { module := names.module, name, bound, names }
    else .var { module := names.module, owner := "", name, hint := none, value, names }
  | value =>
    if value.dotted.isEmpty then
      .var { module := names.module, owner := "", name, hint := none, value, names }
    else .aliasOf { name := names.module ++ "." ++ name, target := names.qualify value.dotted }

def addFunctions (names : NameTable) (owner : String) (members : Table Decl) :
    List Stmt → Table Decl
  | [] => members
  | .function definition :: rest =>
    addFunctions names owner
      (Decl.add members definition.name (funcDecl names owner definition)) rest
  | _ :: rest => addFunctions names owner members rest

mutual

def addMember (names : NameTable) (owner : String) (members : Table Decl) : Stmt → Table Decl
  | .function ⟨mark, declared, params, body, decorators, returns, isAsync⟩ =>
    Decl.add members declared (funcDecl names owner
      ⟨mark, declared, params, body, decorators, returns, isAsync⟩)
  | .annAssign _ (.name _ id _) hint value =>
    Decl.add members id (.var { module := names.module, owner, name := id, hint, value, names })
  | .assign _ [.name _ id _] value =>
    let dotted := value.dotted
    if !dotted.isEmpty && members.contains dotted then
      let outer := names.module ++ "." ++ owner ++ "."
      Decl.add members id (.aliasOf { name := outer ++ id, target := outer ++ dotted })
    else Decl.add members id
      (.var { module := names.module, owner, name := id, hint := none, value, names })
  | .class_ ⟨_, declared, bases, _, body, decorators⟩ =>
    let inner := owner ++ "." ++ declared
    Decl.add members declared (.class_
      { module := names.module, name := inner, bases, names
        decorators := decorators.map (·.dottedTail)
        members := addMembers names inner [] body })
  | .branch _ _ body _ => addFunctions names owner members body
  | _ => members

def addMembers (names : NameTable) (owner : String) (members : Table Decl) :
    List Stmt → Table Decl
  | [] => members
  | stmt :: rest => addMembers names owner (addMember names owner members stmt) rest

end

def classDecl (names : NameTable) (definition : ClassDef) : Decl :=
  .class_
    { module := names.module, name := definition.name, bases := definition.bases, names
      decorators := definition.decorators.map (·.dottedTail)
      members := addMembers names definition.name [] definition.body }

mutual

def addDecl (names : NameTable) (package : String) (decls : Table Decl) : Stmt → Table Decl
  | .class_ ⟨mark, declared, bases, keywords, body, decorators⟩ =>
    Decl.add decls declared
      (classDecl names ⟨mark, declared, bases, keywords, body, decorators⟩)
  | .function ⟨mark, declared, params, body, decorators, returns, isAsync⟩ =>
    Decl.add decls declared (funcDecl names ""
      ⟨mark, declared, params, body, decorators, returns, isAsync⟩)
  | .annAssign _ (.name _ id _) hint value =>
    Decl.add decls id
      (.var { module := names.module, owner := "", name := id, hint, value, names })
  | .assign _ [.name _ id _] value => Decl.add decls id (assigned names id value)
  | .import_ _ imported =>
    imported.foldl (fun decls item =>
      if item.asName.isEmpty then decls
      else Decl.add decls item.asName
        (.aliasOf { name := names.module ++ "." ++ item.asName, target := item.name })) decls
  | .importFrom _ module imported level =>
    let from_ := importedModule package module level
    imported.foldl (fun decls item =>
      if item.name == "*" then decls
      else
        let name := localName item
        Decl.add decls name (.aliasOf
          { name := names.module ++ "." ++ name, target := importTarget from_ item.name })) decls
  | .branch _ _ body orElse =>
    addDecls names package (addDecls names package decls body) orElse
  | .guarded _ body _ _ _ => addDecls names package decls body
  | _ => decls

def addDecls (names : NameTable) (package : String) (decls : Table Decl) :
    List Stmt → Table Decl
  | [] => decls
  | stmt :: rest => addDecls names package (addDecl names package decls stmt) rest

end

def index (name : String) (isPackage : Bool) (tree : Module) : StubModule :=
  let package := packageOf name isPackage
  let names := scanAll package { module := name } tree.body
  let members := addDecls names package [] tree.body
  { decl := { name, isPackage, names := members.keys }, members }

end StubModule

end Stubwise
