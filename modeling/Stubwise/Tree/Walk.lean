import Stubwise.Tree.Stmt

namespace Stubwise

theorem DictItem.sizeOf_lt {item : DictItem} {expr : Expr} (member : expr ∈ item.expressions) :
    sizeOf expr < sizeOf item := by
  obtain ⟨key, value⟩ := item
  cases key <;> simp [expressions] at member
  · subst member
    simp
  · rcases member with rfl | rfl <;> simp <;> omega

theorem Comprehension.sizeOf_lt {clause : Comprehension} {expr : Expr}
    (member : expr ∈ clause.expressions) : sizeOf expr < sizeOf clause := by
  obtain ⟨mark, target, iter, conditions, isAsync⟩ := clause
  simp [expressions] at member
  rcases member with rfl | rfl | member
  · simp
    omega
  · simp
    omega
  · have := List.sizeOf_lt_of_mem member
    simp
    omega

theorem Param.sizeOf_lt {param : Param} {expr : Expr} (found : param.hint = some expr) :
    sizeOf expr < sizeOf param := by
  obtain ⟨mark, name, hint⟩ := param
  simp at found
  subst found
  simp
  omega

theorem Parameters.sizeOf_lt {params : Parameters} {expr : Expr}
    (member : expr ∈ params.expressions) : sizeOf expr < sizeOf params := by
  obtain ⟨posOnly, args, vararg, kwOnly, kwarg, defaults, kwDefaults⟩ := params
  have ofList {list : List Param} {param : Param} (listed : param ∈ list)
      (found : param.hint = some expr) : sizeOf expr < sizeOf list :=
    Nat.lt_trans (Param.sizeOf_lt found) (List.sizeOf_lt_of_mem listed)
  have ofOption {option : Option Param} (found : option.bind (·.hint) = some expr) :
      sizeOf expr < sizeOf option := by
    cases option with
    | none => simp at found
    | some param =>
      have := Param.sizeOf_lt (by simpa using found)
      simp
      omega
  simp only [expressions, positional, List.mem_append, List.mem_filterMap, Option.mem_toList] at member
  simp only [Parameters.mk.sizeOf_spec]
  rcases member with
    ((((⟨_, listed | listed, found⟩ | ⟨_, listed, found⟩) | found) | found) | listed) |
      ⟨_, listed, rfl⟩
  · have := ofList listed found
    omega
  · have := ofList listed found
    omega
  · have := ofList listed found
    omega
  · have := ofOption found
    omega
  · have := ofOption found
    omega
  · have := List.sizeOf_lt_of_mem listed
    omega
  · have := List.sizeOf_lt_of_mem listed
    simp at this
    omega

theorem NamedArg.sizeOf_value (arg : NamedArg) : sizeOf arg.value < sizeOf arg := by
  obtain ⟨mark, name, value⟩ := arg
  simp only [NamedArg.mk.sizeOf_spec]
  omega

theorem Comparison.sizeOf_operand (comparison : Comparison) :
    sizeOf comparison.operand < sizeOf comparison := by
  obtain ⟨op, operand⟩ := comparison
  simp only [Comparison.mk.sizeOf_spec]
  omega

theorem Expr.sizeOf_pos (expr : Expr) : 0 < sizeOf expr := by
  cases expr <;> simp <;> omega

theorem Mark.sizeOf_pos (mark : Mark) : 0 < sizeOf mark := by
  cases mark
  simp only [Mark.mk.sizeOf_spec]
  omega

theorem Expr.sizeOf_lt_of_mem_children {expr child : Expr} (member : child ∈ expr.children) :
    sizeOf child < sizeOf expr := by
  have ofClauses {clauses : List Comprehension} (member : child ∈ clauses.flatMap (·.expressions)) :
      sizeOf child < sizeOf clauses := by
    obtain ⟨clause, listed, within⟩ := List.mem_flatMap.mp member
    exact Nat.lt_trans (Comprehension.sizeOf_lt within) (List.sizeOf_lt_of_mem listed)
  have ofExprs {list : List Expr} (member : child ∈ list) : sizeOf child < sizeOf list :=
    List.sizeOf_lt_of_mem member
  have ofKeywords {list : List NamedArg} (member : child ∈ list.map (·.value)) :
      sizeOf child < sizeOf list := by
    obtain ⟨arg, listed, rfl⟩ := List.mem_map.mp member
    exact Nat.lt_trans arg.sizeOf_value (List.sizeOf_lt_of_mem listed)
  have ofComparisons {list : List Comparison} (member : child ∈ list.map (·.operand)) :
      sizeOf child < sizeOf list := by
    obtain ⟨comparison, listed, rfl⟩ := List.mem_map.mp member
    exact Nat.lt_trans comparison.sizeOf_operand (List.sizeOf_lt_of_mem listed)
  have ofItems {list : List DictItem} (member : child ∈ list.flatMap (·.expressions)) :
      sizeOf child < sizeOf list := by
    obtain ⟨item, listed, within⟩ := List.mem_flatMap.mp member
    exact Nat.lt_trans (DictItem.sizeOf_lt within) (List.sizeOf_lt_of_mem listed)
  have ofOption {option : Option Expr} (member : child ∈ option.toList) :
      sizeOf child < sizeOf option := by
    cases option <;> simp at member
    subst member
    simp
  have ofParams {params : Parameters} (member : child ∈ params.expressions) :
      sizeOf child < sizeOf params :=
    Parameters.sizeOf_lt member
  cases expr <;> simp only [children, List.mem_cons, List.mem_append, List.not_mem_nil] at member
  case named mark target id value =>
    have := value.sizeOf_pos
    have := mark.sizeOf_pos
    rcases member with rfl | rfl | never
    · simp only [name.sizeOf_spec, named.sizeOf_spec, Context.store.sizeOf_spec]
      omega
    · simp only [named.sizeOf_spec]
      omega
    · cases never
  all_goals
    simp
    grind

def Expr.walk (expr : Expr) : List Expr :=
  expr :: expr.children.attach.flatMap fun ⟨child, _⟩ => child.walk
termination_by sizeOf expr
decreasing_by exact Expr.sizeOf_lt_of_mem_children (by assumption)

def Expr.walkNodes (exprs : List Expr) : List Node :=
  exprs.flatMap fun expr => expr.walk.map .expr

namespace Stmt

mutual

def walk : Stmt → List Node
  | branch mark test body orElse =>
    .stmt (branch mark test body orElse) :: Expr.walkNodes [test] ++ walkAll body ++
      walkAll orElse
  | loop mark test body orElse =>
    .stmt (loop mark test body orElse) :: Expr.walkNodes [test] ++ walkAll body ++
      walkAll orElse
  | each mark target iter body orElse isAsync =>
    .stmt (each mark target iter body orElse isAsync) :: Expr.walkNodes [target, iter] ++
      walkAll body ++ walkAll orElse
  | manage mark items body isAsync =>
    .stmt (manage mark items body isAsync) ::
      Expr.walkNodes (items.flatMap fun item => item.context :: item.target.toList) ++
      walkAll body
  | guarded mark body handlers orElse finish =>
    .stmt (guarded mark body handlers orElse finish) :: walkAll body ++ walkHandlers handlers ++
      walkAll orElse ++ walkAll finish
  | function ⟨mark, name, params, body, decorators, returns, isAsync⟩ =>
    .stmt (function ⟨mark, name, params, body, decorators, returns, isAsync⟩) ::
      Expr.walkNodes (decorators ++ params.expressions ++ returns.toList) ++ walkAll body
  | class_ ⟨mark, name, bases, keywords, body, decorators⟩ =>
    .stmt (class_ ⟨mark, name, bases, keywords, body, decorators⟩) ::
      Expr.walkNodes (decorators ++ bases ++ keywords.map (·.value)) ++ walkAll body
  | stmt => .stmt stmt :: Expr.walkNodes stmt.ownExprs

def walkAll : List Stmt → List Node
  | [] => []
  | stmt :: rest => walk stmt ++ walkAll rest

def walkHandlers : List Handler → List Node
  | [] => []
  | ⟨_, type, _, body⟩ :: rest =>
    Expr.walkNodes type.toList ++ walkAll body ++ walkHandlers rest

end

end Stmt

def Module.walk (module : Module) : List Node :=
  Stmt.walkAll module.body

end Stubwise
