import Stubwise.Tree.Expr

/-!
Trees with other marks. The marks of a tree say where its parts were read; all that is said about
trees without regard to them goes through one map.
-/

namespace Stubwise

open List

variable (f : Mark → Mark)

namespace Expr

mutual

def mapMarks : Expr → Expr
  | name mark id context => name (f mark) id context
  | constant mark kind value => constant (f mark) kind value
  | formatted mark values => formatted (f mark) (mapAll values)
  | list mark elements context => list (f mark) (mapAll elements) context
  | tuple mark elements context => tuple (f mark) (mapAll elements) context
  | set mark elements => set (f mark) (mapAll elements)
  | dict mark items => dict (f mark) (mapItems items)
  | listComp mark element clauses => listComp (f mark) element.mapMarks (mapClauses clauses)
  | setComp mark element clauses => setComp (f mark) element.mapMarks (mapClauses clauses)
  | generator mark element clauses => generator (f mark) element.mapMarks (mapClauses clauses)
  | dictComp mark key value clauses =>
    dictComp (f mark) key.mapMarks value.mapMarks (mapClauses clauses)
  | starred mark value context => starred (f mark) value.mapMarks context
  | named mark target id value => named (f mark) (f target) id value.mapMarks
  | binary mark op left right => binary (f mark) op left.mapMarks right.mapMarks
  | unary mark op operand => unary (f mark) op operand.mapMarks
  | boolean mark op values => boolean (f mark) op (mapAll values)
  | compare mark left comparisons => compare (f mark) left.mapMarks (mapComparisons comparisons)
  | conditional mark test body orElse =>
    conditional (f mark) test.mapMarks body.mapMarks orElse.mapMarks
  | call mark callee args keywords =>
    call (f mark) callee.mapMarks (mapAll args) (mapKeywords keywords)
  | access mark value attr context => access (f mark) value.mapMarks attr context
  | subscript mark value index context => subscript (f mark) value.mapMarks index.mapMarks context
  | slice mark lower upper step =>
    slice (f mark) (mapOption lower) (mapOption upper) (mapOption step)
  | lambda mark ⟨posOnly, args, vararg, kwOnly, kwarg, defaults, kwDefaults⟩ body =>
    lambda (f mark) ⟨mapParams posOnly, mapParams args, mapOptionParam vararg, mapParams kwOnly,
      mapOptionParam kwarg, mapAll defaults, mapOptions kwDefaults⟩ body.mapMarks
  | yield mark value delegates => yield (f mark) (mapOption value) delegates
  | await mark value => await (f mark) value.mapMarks

def mapAll : List Expr → List Expr
  | [] => []
  | expr :: rest => expr.mapMarks :: mapAll rest

def mapOption : Option Expr → Option Expr
  | none => none
  | some expr => some expr.mapMarks

def mapOptions : List (Option Expr) → List (Option Expr)
  | [] => []
  | expr :: rest => mapOption expr :: mapOptions rest

def mapItems : List DictItem → List DictItem
  | [] => []
  | ⟨key, value⟩ :: rest => ⟨mapOption key, value.mapMarks⟩ :: mapItems rest

def mapComparisons : List Comparison → List Comparison
  | [] => []
  | ⟨op, operand⟩ :: rest => ⟨op, operand.mapMarks⟩ :: mapComparisons rest

def mapKeywords : List NamedArg → List NamedArg
  | [] => []
  | ⟨mark, keyword, value⟩ :: rest => ⟨f mark, keyword, value.mapMarks⟩ :: mapKeywords rest

def mapClauses : List Comprehension → List Comprehension
  | [] => []
  | ⟨mark, target, iter, conditions, isAsync⟩ :: rest =>
    ⟨f mark, target.mapMarks, iter.mapMarks, mapAll conditions, isAsync⟩ :: mapClauses rest

def mapParam : Param → Param
  | ⟨mark, id, hint⟩ => ⟨f mark, id, mapOption hint⟩

def mapParams : List Param → List Param
  | [] => []
  | param :: rest => mapParam param :: mapParams rest

def mapOptionParam : Option Param → Option Param
  | none => none
  | some param => some (mapParam param)

end

end Expr

def DictItem.mapMarks (item : DictItem) : DictItem :=
  ⟨item.key.map (·.mapMarks f), item.value.mapMarks f⟩

def Comparison.mapMarks (comparison : Comparison) : Comparison :=
  ⟨comparison.op, comparison.operand.mapMarks f⟩

def NamedArg.mapMarks (arg : NamedArg) : NamedArg :=
  ⟨f arg.mark, arg.name, arg.value.mapMarks f⟩

def Comprehension.mapMarks (clause : Comprehension) : Comprehension :=
  ⟨f clause.mark, clause.target.mapMarks f, clause.iter.mapMarks f,
    clause.conditions.map (·.mapMarks f), clause.isAsync⟩

def Param.mapMarks (param : Param) : Param :=
  ⟨f param.mark, param.name, param.hint.map (·.mapMarks f)⟩

namespace Expr

@[simp]
theorem mapAll_eq_map (exprs : List Expr) : mapAll f exprs = exprs.map (mapMarks f) := by
  induction exprs with
  | nil => rfl
  | cons _ _ ih => rw [mapAll, ih, map_cons]

@[simp]
theorem mapOption_eq_map (expr : Option Expr) : mapOption f expr = expr.map (mapMarks f) := by
  cases expr <;> rfl

@[simp]
theorem mapOptions_eq_map (exprs : List (Option Expr)) :
    mapOptions f exprs = exprs.map (Option.map (mapMarks f)) := by
  induction exprs with
  | nil => rfl
  | cons _ _ ih => rw [mapOptions, ih, mapOption_eq_map, map_cons]

@[simp]
theorem mapItems_eq_map (items : List DictItem) : mapItems f items = items.map (·.mapMarks f) := by
  induction items with
  | nil => rfl
  | cons item _ ih =>
    obtain ⟨key, value⟩ := item
    rw [mapItems, ih, mapOption_eq_map, map_cons, DictItem.mapMarks]

@[simp]
theorem mapComparisons_eq_map (comparisons : List Comparison) :
    mapComparisons f comparisons = comparisons.map (·.mapMarks f) := by
  induction comparisons with
  | nil => rfl
  | cons comparison _ ih =>
    obtain ⟨op, operand⟩ := comparison
    rw [mapComparisons, ih, map_cons, Comparison.mapMarks]

@[simp]
theorem mapKeywords_eq_map (args : List NamedArg) : mapKeywords f args = args.map (·.mapMarks f) := by
  induction args with
  | nil => rfl
  | cons arg _ ih =>
    obtain ⟨mark, name, value⟩ := arg
    rw [mapKeywords, ih, map_cons, NamedArg.mapMarks]

@[simp]
theorem mapClauses_eq_map (clauses : List Comprehension) :
    mapClauses f clauses = clauses.map (·.mapMarks f) := by
  induction clauses with
  | nil => rfl
  | cons clause _ ih =>
    obtain ⟨mark, target, iter, conditions, isAsync⟩ := clause
    rw [mapClauses, ih, mapAll_eq_map, map_cons, Comprehension.mapMarks]

@[simp]
theorem mapParam_eq (param : Param) : mapParam f param = param.mapMarks f := by
  obtain ⟨mark, name, hint⟩ := param
  rw [mapParam, mapOption_eq_map, Param.mapMarks]

@[simp]
theorem mapParams_eq_map (params : List Param) : mapParams f params = params.map (·.mapMarks f) := by
  induction params with
  | nil => rfl
  | cons _ _ ih => rw [mapParams, ih, mapParam_eq, map_cons]

@[simp]
theorem mapOptionParam_eq_map (param : Option Param) :
    mapOptionParam f param = param.map (·.mapMarks f) := by
  cases param with
  | none => rfl
  | some => rw [mapOptionParam, mapParam_eq, Option.map_some]

end Expr

end Stubwise
