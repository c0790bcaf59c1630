import Stubwise.Data.Table
import Stubwise.Tree.Dotted
import Stubwise.Ty

namespace Stubwise

/-- How the names of one stub module resolve: imported ones to their targets, its own to itself,
and all others to the builtins. -/
structure NameTable where
  module : String
  imports : Table String := []
  own : List String := []
  deriving Inhabited

def NameTable.qualify (names : NameTable) (dotted : String) : String :=
  let chars := dotted.toList
  let head := String.ofList (chars.takeWhile (· != '.'))
  let tail := String.ofList ((chars.dropWhile (· != '.')).drop 1)
  match names.imports.get? head with
  | some target => if tail.isEmpty then target else target ++ "." ++ tail
  | none =>
    if names.own.contains head || names.module == ClassRef.builtinsModule then
      names.module ++ "." ++ dotted
    else ClassRef.builtinsModule ++ "." ++ dotted

structure ModuleDecl where
  name : String
  isPackage : Bool
  names : List String := []
  deriving Inhabited

/-- A function by its definitions in order. -/
structure FuncDecl where
  module : String
  owner : String
  name : String
  definitions : List FunctionDef
  names : NameTable
  deriving Inhabited

structure AliasDecl where
  name : String
  target : String
  deriving DecidableEq, Repr, Inhabited

structure VarDecl where
  module : String
  owner : String
  name : String
  hint : Option Expr
  value : Option Expr
  names : NameTable
  deriving Inhabited

structure TypeVarDecl where
  module : String
  name : String
  bound : Option Expr
  names : NameTable
  deriving Inhabited

mutual

inductive Decl where
  | module (decl : ModuleDecl)
  | class_ (decl : ClassDecl)
  | func (decl : FuncDecl)
  | aliasOf (decl : AliasDecl)
  | var (decl : VarDecl)
  | typeVar (decl : TypeVarDecl)

structure ClassDecl where
  module : String
  name : String
  bases : List Expr
  decorators : List String
  members : List (String × Decl)
  names : NameTable

end

instance : Inhabited Decl :=
  ⟨.module default⟩

def memberQualName (module owner name : String) : String :=
  if owner.isEmpty then module ++ "." ++ name else module ++ "." ++ owner ++ "." ++ name

def ClassDecl.qualName (decl : ClassDecl) : String :=
  decl.module ++ "." ++ decl.name

def ClassDecl.ref (decl : ClassDecl) : ClassRef :=
  { module := decl.module, name := decl.name }

namespace Decl

def qualName : Decl → String
  | module decl => decl.name
  | class_ decl => decl.qualName
  | func decl => memberQualName decl.module decl.owner decl.name
  | aliasOf decl => decl.name
  | var decl => memberQualName decl.module decl.owner decl.name
  | typeVar decl => decl.module ++ "." ++ decl.name

def names? : Decl → Option NameTable
  | module _ | aliasOf _ => none
  | class_ decl => some decl.names
  | func decl => some decl.names
  | var decl => some decl.names
  | typeVar decl => some decl.names

/-- Adds a declaration. The first one of a name stays, but definitions of a function add up. -/
def add (decls : Table Decl) (name : String) (decl : Decl) : Table Decl :=
  match decls.get? name with
  | none => decls ++ [(name, decl)]
  | some (func first) =>
    match decl with
    | func more =>
      decls.set name (func { first with definitions := first.definitions ++ more.definitions })
    | _ => decls
  | some _ => decls

end Decl

end Stubwise
