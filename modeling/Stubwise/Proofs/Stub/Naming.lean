import Stubwise.Proofs.Stub.Following

namespace Stubwise

open List StubTree

namespace Table

theorem get?_append_single {α : Type} {table : Table α} {name : String} (value : α)
    (absent : table.get? name = none) (other : String) :
    get? (table ++ [(name, value)]) other =
      if name == other then some value else table.get? other := by
  induction table with
  | nil => simp [get?]
  | cons _ _ ih => grind [get?]

end Table

namespace Decl

variable {decls : Table Decl} {name other : String}

theorem get?_add_of_ne (decl : Decl) (differs : name ≠ other) :
    (add decls name decl).get? other = decls.get? other := by
  have miss : (name == other) = false := beq_eq_false_iff_ne.mpr differs
  unfold add
  split
  · rename_i absent
    rw [Table.get?_append_single decl absent, miss]
    rfl
  · split
    · rw [Table.get?_set, miss]
      rfl
    · rfl
  · rfl

theorem get?_add_of_none (decl : Decl) (absent : decls.get? name = none) :
    (add decls name decl).get? name = some decl := by
  unfold add
  rw [absent]
  simp [Table.get?_append_single decl absent]

theorem get?_add_of_alias {link : AliasDecl} (first : decls.get? other = some (.aliasOf link))
    (decl : Decl) : (add decls name decl).get? other = some (.aliasOf link) := by
  by_cases same : name = other
  · subst same
    simp only [add, first]
  · rw [get?_add_of_ne decl same, first]

/-- A declaration whose names resolve by the given table, as do those of all that stands in it. -/
def Uses (names : NameTable) (decl : Decl) : Prop :=
  ∀ path found, descend decl path = .found found → ∀ table ∈ found.names?, table = names

def AllUse (names : NameTable) (decls : Table Decl) : Prop :=
  ∀ key decl, decls.get? key = some decl → decl.Uses names

variable {names : NameTable} {decl : Decl}

theorem uses_leaf (leaf : ∀ inner, decl ≠ .class_ inner) (own : ∀ table ∈ decl.names?, table = names) :
    decl.Uses names := by
  intro path found route
  cases path with
  | nil =>
    have same : found = decl := by
      cases decl <;> simp only [descend, StubTree.Route.found.injEq] at route <;>
        exact route.symm
    exact same ▸ own
  | cons => cases decl <;> first | exact absurd rfl (leaf _) | cases route

theorem uses_class {inner : ClassDecl} (own : inner.names = names)
    (members : AllUse names inner.members) : (class_ inner).Uses names := by
  intro path found route
  cases path with
  | nil =>
    simp only [descend, StubTree.Route.found.injEq] at route
    subst route
    simpa [names?] using own
  | cons key rest =>
    simp only [descend] at route
    split at route
    · rename_i member listed
      exact members key member listed rest found route
    · cases route

theorem AllUse.add (all : AllUse names decls) (uses : decl.Uses names) :
    AllUse names (Decl.add decls name decl) := by
  intro other found member
  unfold Decl.add at member
  split at member
  · rename_i absent
    rw [Table.get?_append_single decl absent] at member
    split at member
    · exact Option.some.inj member ▸ uses
    · exact all other found member
  · rename_i first known
    split at member
    · rw [Table.get?_set] at member
      split at member
      · cases member
        exact uses_leaf (fun _ => nofun) (all name _ known [] (.func first) rfl)
      · exact all other found member
    · exact all other found member
  · exact all other found member

end Decl

namespace StubModule

inductive Binding where
  | own
  | imported (target : String)
  /-- `import a.b` makes `a` known in the module, but declares nothing. -/
  | opened (module : String)
  deriving DecidableEq, Repr

namespace Binding

def target? : Binding → Option String
  | own => none
  | imported target => some target
  | opened module => some module

def declares : Binding → Bool
  | own | imported _ => true
  | opened _ => false

end Binding

def ofImport (name : String) (item : ImportName) : List Binding :=
  if item.asName.isEmpty then
    let head := String.ofList (item.name.toList.takeWhile (· != '.'))
    if head == name then [.opened head] else []
  else if item.asName == name then [.imported item.name] else []

def ofImportFrom (from_ name : String) (item : ImportName) : List Binding :=
  if item.name == "*" then []
  else if localName item == name then [.imported (importTarget from_ item.name)] else []

def ownBinding (name declared : String) : List Binding :=
  if declared == name then [.own] else []

mutual

/-- The bindings of a name by a statement, in order. -/
def bindings (package name : String) : Stmt → List Binding
  | .class_ ⟨_, declared, _, _, _, _⟩ => ownBinding name declared
  | .function ⟨_, declared, _, _, _, _, _⟩ => ownBinding name declared
  | .annAssign _ (.name _ id _) _ _ => ownBinding name id
  | .assign _ [.name _ id _] _ => ownBinding name id
  | .import_ _ imported => imported.flatMap (ofImport name)
  | .importFrom _ module imported level =>
    imported.flatMap (ofImportFrom (importedModule package module level) name)
  | .branch _ _ body orElse => bindingsAll package name body ++ bindingsAll package name orElse
  | .guarded _ body _ _ _ => bindingsAll package name body
  | _ => []

def bindingsAll (package name : String) : List Stmt → List Binding
  | [] => []
  | stmt :: rest => bindings package name stmt ++ bindingsAll package name rest

end

/-- The target of the last import of a name. -/
def lastTarget? (bound : List Binding) : Option String :=
  (bound.filterMap (·.target?)).getLast?

/-- The first declaration of a name. -/
def first? (bound : List Binding) : Option Binding :=
  bound.find? (·.declares)

def nameTable (name : String) (isPackage : Bool) (tree : Module) : NameTable :=
  scanAll (packageOf name isPackage) { module := name } tree.body

section Names

/-- After some bindings of a name: the last import replaces the one before, and what is the module's
own is added. -/
structure Scanned (name : String) (bound : List Binding) (before after : NameTable) : Prop where
  module : after.module = before.module
  imports : after.imports.get? name = (lastTarget? bound).or (before.imports.get? name)
  own : after.own.contains name = (before.own.contains name || bound.contains .own)

variable {name : String} {before middle after : NameTable} {bound more : List Binding}

theorem Scanned.refl (names : NameTable) : Scanned name [] names names := ⟨rfl, rfl, by simp⟩

theorem lastTarget?_append : lastTarget? (bound ++ more) = (lastTarget? more).or (lastTarget? bound) := by
  simp [lastTarget?, getLast?_append]

theorem Scanned.trans (first : Scanned name bound before middle)
    (second : Scanned name more middle after) : Scanned name (bound ++ more) before after where
  module := second.module.trans first.module
  imports := by rw [second.imports, first.imports, lastTarget?_append, Option.or_assoc]
  own := by rw [second.own, first.own, contains_append, Bool.or_assoc]

theorem scanned_own (name declared : String) (names : NameTable) :
    Scanned name (ownBinding name declared) names (scan.own names declared) where
  module := rfl
  imports := by
    unfold ownBinding
    split <;> rfl
  own := by
    simp only [scan.own, NameSet.insert, ownBinding, contains_iff_mem]
    by_cases same : declared = name
    · subst same
      by_cases known : declared ∈ names.own <;> simp [known]
    · have other : ¬ name = declared := fun back => same back.symm
      by_cases known : declared ∈ names.own <;> simp [known, same, other]

theorem scanned_import {target : String} (binding : Binding) (given : binding.target? = some target)
    (key : String) (names : NameTable) :
    Scanned name (if key == name then [binding] else []) names
      { names with imports := names.imports.set key target } where
  module := rfl
  imports := by
    rw [Table.get?_set]
    split <;> simp [lastTarget?, given]
  own := by
    split <;> cases binding <;> simp_all [Binding.target?]

theorem scanned_foldl {α : Type} {step : NameTable → α → NameTable} {bind : α → List Binding}
    (each : ∀ names item, Scanned name (bind item) names (step names item)) (items : List α)
    (names : NameTable) : Scanned name (items.flatMap bind) names (items.foldl step names) := by
  induction items generalizing names with
  | nil => exact .refl names
  | cons item _ ih => exact (each names item).trans (ih _)

mutual

/-- One statement declares the names that it binds. -/
theorem scan_scanned (package name : String) (names : NameTable) :
    ∀ stmt, Scanned name (bindings package name stmt) names (scan package names stmt)
  | .class_ ⟨_, declared, _, _, _, _⟩ | .function ⟨_, declared, _, _, _, _, _⟩ => by
    simpa only [bindings, scan] using scanned_own name declared names
  | .annAssign _ target _ _ => by
    cases target with
    | name _ id => simpa only [bindings, scan] using scanned_own name id names
    | _ => simpa only [bindings, scan] using .refl names
  | .assign _ targets _ => by
    cases targets with
    | nil => simpa only [bindings, scan] using .refl names
    | cons target others =>
      cases target with
      | name _ id =>
        cases others with
        | nil => simpa only [bindings, scan] using scanned_own name id names
        | cons => simpa only [bindings, scan] using .refl names
      | _ => simpa only [bindings, scan] using .refl names
  | .import_ _ imported => by
    simp only [bindings, scan]
    refine scanned_foldl (fun names item => ?_) imported names
    unfold ofImport
    split
    · exact scanned_import (.opened _) rfl _ names
    · exact scanned_import (.imported _) rfl _ names
  | .importFrom _ module imported level => by
    simp only [bindings, scan]
    refine scanned_foldl (fun names item => ?_) imported names
    unfold ofImportFrom
    split
    · exact .refl names
    · exact scanned_import (.imported _) rfl _ names
  | .branch _ _ body orElse => by
    simp only [bindings, scan]
    exact (scanAll_scanned package name names body).trans (scanAll_scanned package name _ orElse)
  | .guarded _ body _ _ _ => by
    simp only [bindings, scan]
    exact scanAll_scanned package name names body
  | .expr .. | .augAssign .. | .delete .. | .pass .. | .leave .. | .next .. | .give ..
  | .raise .. | .assert .. | .global .. | .nonlocal .. | .loop .. | .each .. | .manage .. => by
    simpa only [bindings, scan] using .refl names

theorem scanAll_scanned (package name : String) (names : NameTable) :
    ∀ body, Scanned name (bindingsAll package name body) names (scanAll package names body)
  | [] => .refl names
  | stmt :: rest => by
    simp only [bindingsAll, scanAll]
    exact (scan_scanned package name names stmt).trans (scanAll_scanned package name _ rest)

end

end Names

section Members

open Decl (AllUse Uses uses_leaf uses_class)

/-- After some bindings of a name: the first declaration stays, and what was added resolves its names
by the table. -/
structure Declared (names : NameTable) (name : String) (bound : List Binding)
    (before after : Table Decl) : Prop where
  linked : ∀ link, before.get? name = some (.aliasOf link) → after.get? name = some (.aliasOf link)
  absent : before.get? name = none → first? bound = none → after.get? name = none
  imported : ∀ target, before.get? name = none → first? bound = some (.imported target) →
    after.get? name = some (.aliasOf { name := names.module ++ "." ++ name, target })
  uses : AllUse names before → AllUse names after

variable {names : NameTable} {name : String} {before middle after : Table Decl}
variable {bound more : List Binding}

theorem Declared.refl (decls : Table Decl) : Declared names name [] decls decls :=
  ⟨fun _ => id, fun absent _ => absent, fun _ _ => nofun, id⟩

theorem first?_append : first? (bound ++ more) = (first? bound).or (first? more) := find?_append

theorem Declared.trans (first : Declared names name bound before middle)
    (second : Declared names name more middle after) :
    Declared names name (bound ++ more) before after where
  linked link known := second.linked link (first.linked link known)
  absent unknown none := by
    rw [first?_append, Option.or_eq_none_iff] at none
    exact second.absent (first.absent unknown none.1) none.2
  imported target unknown some := by
    rw [first?_append, Option.or_eq_some_iff] at some
    rcases some with here | ⟨none, later⟩
    · exact second.linked _ (first.imported target unknown here)
    · exact second.imported target (first.absent unknown none) later
  uses all := second.uses (first.uses all)

theorem declared_own {declared : String} {decl : Decl} (uses : decl.Uses names) (name : String)
    (decls : Table Decl) :
    Declared names name (ownBinding name declared) decls (Decl.add decls declared decl) where
  linked link known := Decl.get?_add_of_alias known decl
  absent unknown none := by
    by_cases same : declared = name
    · simp [ownBinding, same, first?, Binding.declares] at none
    · rw [Decl.get?_add_of_ne decl same, unknown]
  imported target unknown some := by
    by_cases same : declared = name <;> simp [ownBinding, same, first?, Binding.declares] at some
  uses all := all.add uses

theorem declared_import (key target name : String) (decls : Table Decl) :
    Declared names name (if key == name then [.imported target] else []) decls
      (Decl.add decls key (.aliasOf { name := names.module ++ "." ++ key, target })) where
  linked link known := Decl.get?_add_of_alias known _
  absent unknown none := by
    by_cases same : key = name
    · simp [same, first?, Binding.declares] at none
    · rw [Decl.get?_add_of_ne _ same, unknown]
  imported found unknown some := by
    by_cases same : key = name
    · subst same
      simp only [beq_self_eq_true, if_true, first?, find?_cons, Binding.declares,
        Option.some.injEq, Binding.imported.injEq] at some
      rw [Decl.get?_add_of_none _ unknown, some]
    · simp [same, first?] at some
  uses all := all.add (uses_leaf (fun _ => nofun) (by simp [Decl.names?]))

theorem declared_opened (module name : String) (decls : Table Decl) :
    Declared names name (if module == name then [.opened module] else []) decls decls := by
  split
  · exact ⟨fun _ => id, fun unknown _ => unknown, fun _ _ => nofun, id⟩
  · exact .refl decls

theorem declared_foldl {α : Type} {step : Table Decl → α → Table Decl} {bind : α → List Binding}
    (each : ∀ decls item, Declared names name (bind item) decls (step decls item)) (items : List α)
    (decls : Table Decl) :
    Declared names name (items.flatMap bind) decls (items.foldl step decls) := by
  induction items generalizing decls with
  | nil => exact .refl decls
  | cons item _ ih => exact (each decls item).trans (ih _)

theorem allUse_nil (names : NameTable) : AllUse names [] := fun _ _ known => nomatch known

theorem uses_function (names : NameTable) (owner : String) (definition : FunctionDef) :
    (funcDecl names owner definition).Uses names :=
  uses_leaf (fun _ => nofun) (by simp [funcDecl, Decl.names?])

theorem uses_variable (names : NameTable) (owner id : String) (hint value : Option Expr) :
    (Decl.var { module := names.module, owner, name := id, hint, value, names }).Uses names :=
  uses_leaf (fun _ => nofun) (by simp [Decl.names?])

theorem uses_assigned (names : NameTable) (id : String) (value : Expr) :
    (assigned names id value).Uses names := by
  unfold assigned
  repeat' split
  all_goals exact uses_leaf (fun _ => nofun) (by simp [Decl.names?])

theorem allUse_addFunctions {members : Table Decl} (all : AllUse names members) (owner : String)
    (body : List Stmt) : AllUse names (addFunctions names owner members body) := by
  induction body generalizing members with
  | nil => exact all
  | cons stmt _ ih =>
    cases stmt with
    | function definition => exact ih (all.add (uses_function names owner definition))
    | _ => exact ih all

mutual

theorem allUse_addMember {members : Table Decl} (all : AllUse names members) (owner : String) :
    ∀ stmt, AllUse names (addMember names owner members stmt)
  | .function ⟨_, _, _, _, _, _, _⟩ => by
    simp only [addMember]
    exact all.add (uses_function names owner _)
  | .annAssign _ target hint value => by
    cases target with
    | name => simpa only [addMember] using all.add (uses_variable names owner _ hint value)
    | _ => simpa only [addMember] using all
  | .assign _ targets value => by
    cases targets with
    | nil => simpa only [addMember] using all
    | cons target others =>
      cases target with
      | name =>
        cases others with
        | nil =>
          simp only [addMember]
          split
          · exact all.add (uses_leaf (fun _ => nofun) (by simp [Decl.names?]))
          · exact all.add (uses_variable names owner _ none value)
        | cons => simpa only [addMember] using all
      | _ => simpa only [addMember] using all
  | .class_ ⟨_, _, _, _, body, _⟩ => by
    simp only [addMember]
    exact all.add (uses_class rfl (allUse_addMembers (allUse_nil names) _ body))
  | .branch _ _ body _ => by
    simp only [addMember]
    exact allUse_addFunctions all owner body
  | .expr .. | .augAssign .. | .delete .. | .pass .. | .leave .. | .next .. | .give ..
  | .raise .. | .assert .. | .global .. | .nonlocal .. | .import_ .. | .importFrom ..
  | .loop .. | .each .. | .guarded .. | .manage .. => by
    simpa only [addMember] using all

theorem allUse_addMembers {members : Table Decl} (all : AllUse names members) (owner : String) :
    ∀ body, AllUse names (addMembers names owner members body)
  | [] => all
  | stmt :: rest => by
    simp only [addMembers]
    exact allUse_addMembers (allUse_addMember all owner stmt) owner rest

end

theorem uses_classDecl (names : NameTable) (definition : ClassDef) :
    (classDecl names definition).Uses names :=
  uses_class rfl (allUse_addMembers (allUse_nil names) definition.name definition.body)

mutual

theorem addDecl_declared (names : NameTable) (package name : String) (decls : Table Decl) :
    ∀ stmt, Declared names name (bindings package name stmt) decls (addDecl names package decls stmt)
  | .class_ ⟨_, _, _, _, _, _⟩ => by
    simp only [bindings, addDecl]
    exact declared_own (uses_classDecl names _) name decls
  | .function ⟨_, _, _, _, _, _, _⟩ => by
    simp only [bindings, addDecl]
    exact declared_own (uses_function names "" _) name decls
  | .annAssign _ target hint value => by
    cases target with
    | name =>
      simp only [bindings, addDecl]
      exact declared_own (uses_variable names "" _ hint value) name decls
    | _ => simpa only [bindings, addDecl] using .refl decls
  | .assign _ targets value => by
    cases targets with
    | nil => simpa only [bindings, addDecl] using .refl decls
    | cons target others =>
      cases target with
      | name _ id =>
        cases others with
        | nil =>
          simp only [bindings, addDecl]
          exact declared_own (uses_assigned names id value) name decls
        | cons => simpa only [bindings, addDecl] using .refl decls
      | _ => simpa only [bindings, addDecl] using .refl decls
  | .import_ _ imported => by
    simp only [bindings, addDecl]
    refine declared_foldl (fun decls item => ?_) imported decls
    unfold ofImport
    split
    · exact declared_opened _ name decls
    · exact declared_import item.asName item.name name decls
  | .importFrom _ module imported level => by
    simp only [bindings, addDecl]
    refine declared_foldl (fun decls item => ?_) imported decls
    unfold ofImportFrom
    split
    · exact .refl decls
    · exact declared_import (localName item) _ name decls
  | .branch _ _ body orElse => by
    simp only [bindings, addDecl]
    exact (addDecls_declared names package name decls body).trans
      (addDecls_declared names package name _ orElse)
  | .guarded _ body _ _ _ => by
    simp only [bindings, addDecl]
    exact addDecls_declared names package name decls body
  | .expr .. | .augAssign .. | .delete .. | .pass .. | .leave .. | .next .. | .give ..
  | .raise .. | .assert .. | .global .. | .nonlocal .. | .loop .. | .each .. | .manage .. => by
    simpa only [bindings, addDecl] using .refl decls

theorem addDecls_declared (names : NameTable) (package name : String) (decls : Table Decl) :
    ∀ body, Declared names name (bindingsAll package name body) decls (addDecls names package decls body)
  | [] => .refl decls
  | stmt :: rest => by
    simp only [bindingsAll, addDecls]
    exact (addDecl_declared names package name decls stmt).trans (addDecls_declared names package name _ rest)

end

end Members

end StubModule

end Stubwise
