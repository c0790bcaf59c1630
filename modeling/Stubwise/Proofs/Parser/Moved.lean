import Stubwise.Parser
import Stubwise.Proofs.Tree.Marks

namespace Stubwise

open List Parameters

variable {α : Type}

structure Relocation where
  place : Position → Position
  skip : Nat

section Trees

variable (r : Relocation)

@[reducible] def Token.moved (token : Token) : Token :=
  { token with position := r.place token.position }

@[reducible] def Mark.moved (mark : Mark) : Mark :=
  ⟨mark.token.moved r, mark.node + r.skip⟩

end Trees

/-- What has tokens or nodes in it, or none at all. -/
class Movable (α : Type) where
  move : Relocation → α → α

open Movable (move)

/-- What has no tokens in it stays as it is. -/
class Still (α : Type) [Movable α] : Prop where
  still : ∀ (r : Relocation) (value : α), move r value = value

/-- What is of such a type has no tokens in it. -/
class Plain (α : Type) : Prop

section Plain

instance : Plain Unit := ⟨⟩
instance : Plain Bool := ⟨⟩
instance : Plain Nat := ⟨⟩
instance : Plain String := ⟨⟩
instance : Plain TokenKind := ⟨⟩
instance : Plain CompareOp := ⟨⟩
instance : Plain BinaryOp := ⟨⟩
instance : Plain BoolOp := ⟨⟩
instance : Plain UnaryOp := ⟨⟩
instance : Plain Context := ⟨⟩
instance : Plain ConstantKind := ⟨⟩

instance [Plain α] : Movable α := ⟨fun _ value => value⟩
instance [Plain α] : Still α := ⟨fun _ _ => rfl⟩

end Plain

section Parts

instance [Movable α] : Movable (List α) := ⟨fun r => map (move r)⟩
instance [Movable α] [Still α] : Still (List α) :=
  ⟨fun r list => (map_congr_left fun a _ => Still.still r a).trans (map_id' list)⟩
instance [Movable α] : Movable (Option α) := ⟨fun r => Option.map (move r)⟩
instance {α β : Type} [Movable α] [Movable β] : Movable (α × β) :=
  ⟨fun r pair => (move r pair.1, move r pair.2)⟩

instance : Movable Position := ⟨Relocation.place⟩
instance : Movable Token := ⟨Token.moved⟩
instance : Movable Mark := ⟨Mark.moved⟩
instance : Movable Expr := ⟨fun r => .mapMarks (.moved r)⟩
instance : Movable DictItem := ⟨fun r => .mapMarks (.moved r)⟩
instance : Movable Comparison := ⟨fun r => .mapMarks (.moved r)⟩
instance : Movable NamedArg := ⟨fun r => .mapMarks (.moved r)⟩
instance : Movable Comprehension := ⟨fun r => .mapMarks (.moved r)⟩
instance : Movable Param := ⟨fun r => .mapMarks (.moved r)⟩
instance : Movable Parameters :=
  ⟨fun r params => ⟨move r params.posOnly, move r params.args, move r params.vararg,
    move r params.kwOnly, move r params.kwarg, move r params.defaults, move r params.kwDefaults⟩⟩
instance : Movable ImportName := ⟨fun r item => ⟨move r item.mark, item.name, item.asName⟩⟩
instance : Movable WithItem := ⟨fun r item => ⟨move r item.context, move r item.target⟩⟩

end Parts

theorem kind_move (r : Relocation) (token : Token) : (move r token).kind = token.kind := rfl

theorem move_none [Movable α] (r : Relocation) : move r (none : Option α) = none := rfl

theorem move_some [Movable α] (r : Relocation) (value : α) : move r (some value) = some (move r value) := rfl

/-- The second value is the first one, moved. -/
class IsMoved (r : Relocation) {α : Type} [Movable α] (value other : α) : Prop where
  eq : other = move r value

section

variable {r : Relocation} {α β : Type} [Movable α] [Movable β]

instance (priority := low) (value : α) : IsMoved r value (no_index (move r value)) := ⟨rfl⟩

instance (priority := low) [still : Still α] (value : α) : IsMoved r value value :=
  ⟨(still.still r value).symm⟩

instance : IsMoved r ([] : List α) [] := ⟨rfl⟩

instance {head head' : α} {tail tail' : List α} [first : IsMoved r head head']
    [rest : IsMoved r tail tail'] : IsMoved r (head :: tail) (head' :: tail') :=
  ⟨by rw [first.eq, rest.eq]; rfl⟩

instance {left left' right right' : List α} [first : IsMoved r left left']
    [second : IsMoved r right right'] : IsMoved r (left ++ right) (left' ++ right') :=
  ⟨by rw [first.eq, second.eq]; exact map_append.symm⟩

instance : IsMoved r (none : Option α) none := ⟨rfl⟩

instance {value value' : α} [inner : IsMoved r value value'] :
    IsMoved r (some value) (some value') :=
  ⟨by rw [inner.eq]; rfl⟩

instance {value value' : Option α} [inner : IsMoved r value value'] :
    IsMoved r value.toList value'.toList :=
  ⟨by rw [inner.eq]; cases value <;> rfl⟩

instance {list list' : List α} [inner : IsMoved r list list'] :
    IsMoved r list.isEmpty list'.isEmpty :=
  ⟨by rw [inner.eq]; exact isEmpty_map⟩

instance {value value' : Option α} [inner : IsMoved r value value'] :
    IsMoved r value.isNone value'.isNone :=
  ⟨by rw [inner.eq]; exact Option.isNone_map⟩

instance {b b' : Bool} [inner : IsMoved r b b'] : IsMoved r (!b) (!b') := ⟨congrArg _ inner.eq⟩

instance {b b' c c' : Bool} [first : IsMoved r b b'] [second : IsMoved r c c'] :
    IsMoved r (b && c) (b' && c') :=
  ⟨by rw [first.eq, second.eq]; rfl⟩

instance {b b' c c' : Bool} [first : IsMoved r b b'] [second : IsMoved r c c'] :
    IsMoved r (b || c) (b' || c') :=
  ⟨by rw [first.eq, second.eq]; rfl⟩

theorem isMoved_filterMap {choose : α → Option β} (same : ∀ value, choose (move r value) =
    move r (choose value)) {list list' : List α} [inner : IsMoved r list list'] :
    IsMoved r (list.filterMap choose) (list'.filterMap choose) where
  eq := by
    rw [inner.eq]
    show (map (move r) list).filterMap choose = map (move r) (list.filterMap choose)
    rw [filterMap_map, map_filterMap]
    exact congrArg (filterMap · list) (funext same)

instance {left left' right right' : String} [first : IsMoved r left left']
    [second : IsMoved r right right'] : IsMoved r (left ++ right) (left' ++ right') :=
  ⟨by rw [first.eq, second.eq]; rfl⟩

instance {token token' : Token} [moved : IsMoved r token token'] :
    IsMoved r token.value token'.value :=
  ⟨by rw [moved.eq]; rfl⟩

instance {left left' : α} {right right' : β} [first : IsMoved r left left']
    [second : IsMoved r right right'] : IsMoved r (left, right) (left', right') :=
  ⟨by rw [first.eq, second.eq]; rfl⟩

end

section Natural

/-- What can stand beside itself at another place: values that can be moved, and functions that take
such values. -/
class Placeable (α : Type) where
  beside : Relocation → α → α → Prop

instance [Movable α] : Placeable α := ⟨fun r value other => other = move r value⟩

instance {α β : Type} [Movable α] [Placeable β] : Placeable (α → β) :=
  ⟨fun r f g => ∀ value, Placeable.beside r (f value) (g (move r value))⟩

/-- The second function does to moved values what the first does to the values. -/
class Natural (r : Relocation) {α : Type} [Placeable α] (f g : α) : Prop where
  beside : Placeable.beside r f g

variable {r : Relocation} {α β : Type} [Movable α]

instance [Placeable β] {f g : α → β} {value other : α} [natural : Natural r f g]
    [moved : IsMoved r value other] : Natural r (f value) (g other) :=
  ⟨moved.eq ▸ natural.beside value⟩

instance (priority := low) {value other : α} [natural : Natural r value other] :
    IsMoved r value other :=
  ⟨natural.beside⟩

end Natural

section Forms

variable {r : Relocation}

namespace Expr

attribute [local simp] Placeable.beside move mapMarks

instance : Natural r name name := ⟨fun _ _ _ => rfl⟩
instance : Natural r constant constant := ⟨fun _ _ _ => rfl⟩
instance : Natural r formatted formatted := ⟨fun _ _ => by simp⟩
instance : Natural r list list := ⟨fun _ _ _ => by simp⟩
instance : Natural r tuple tuple := ⟨fun _ _ _ => by simp⟩
instance : Natural r set set := ⟨fun _ _ => by simp⟩
instance : Natural r dict dict := ⟨fun _ _ => by simp⟩
instance : Natural r listComp listComp := ⟨fun _ _ _ => by simp⟩
instance : Natural r setComp setComp := ⟨fun _ _ _ => by simp⟩
instance : Natural r generator generator := ⟨fun _ _ _ => by simp⟩
instance : Natural r dictComp dictComp := ⟨fun _ _ _ _ => by simp⟩
instance : Natural r starred starred := ⟨fun _ _ _ => rfl⟩
instance : Natural r named named := ⟨fun _ _ _ _ => rfl⟩
instance : Natural r binary binary := ⟨fun _ _ _ _ => rfl⟩
instance : Natural r unary unary := ⟨fun _ _ _ => rfl⟩
instance : Natural r boolean boolean := ⟨fun _ _ _ => by simp⟩
instance : Natural r compare compare := ⟨fun _ _ _ => by simp⟩
instance : Natural r conditional conditional := ⟨fun _ _ _ _ => rfl⟩
instance : Natural r call call := ⟨fun _ _ _ _ => by simp⟩
instance : Natural r access access := ⟨fun _ _ _ _ => rfl⟩
instance : Natural r subscript subscript := ⟨fun _ _ _ _ => rfl⟩
instance : Natural r slice slice := ⟨fun _ _ _ _ => by simp⟩
instance : Natural r yield yield := ⟨fun _ _ _ => by simp⟩
instance : Natural r await await := ⟨fun _ _ => rfl⟩
instance : Natural r lambda lambda := ⟨fun _ params _ => by cases params; simp⟩

end Expr

instance : Natural r DictItem.mk DictItem.mk := ⟨fun _ _ => rfl⟩
instance : Natural r Comparison.mk Comparison.mk := ⟨fun _ _ => rfl⟩
instance : Natural r NamedArg.mk NamedArg.mk := ⟨fun _ _ _ => rfl⟩
instance : Natural r Comprehension.mk Comprehension.mk := ⟨fun _ _ _ _ _ => rfl⟩
instance : Natural r Param.mk Param.mk := ⟨fun _ _ _ => rfl⟩
instance : Natural r mk mk := ⟨fun _ _ _ _ _ _ _ => rfl⟩
instance : Natural r ImportName.mk ImportName.mk := ⟨fun _ _ _ => rfl⟩
instance : Natural r WithItem.mk WithItem.mk := ⟨fun _ _ => rfl⟩

instance : IsMoved r empty empty := ⟨rfl⟩

instance {params params' : Parameters} [header : IsMoved r params params'] :
    IsMoved r params.defaults params'.defaults :=
  ⟨by rw [header.eq]; rfl⟩

end Forms

namespace Stmt

variable (r : Relocation)

mutual

def moved : Stmt → Stmt
  | expr mark value => expr (move r mark) (move r value)
  | assign mark targets value => assign (move r mark) (move r targets) (move r value)
  | augAssign mark target op value => augAssign (move r mark) (move r target) op (move r value)
  | annAssign mark target hint value =>
    annAssign (move r mark) (move r target) (move r hint) (move r value)
  | delete mark targets => delete (move r mark) (move r targets)
  | pass mark => pass (move r mark)
  | leave mark => leave (move r mark)
  | next mark => next (move r mark)
  | give mark value => give (move r mark) (move r value)
  | raise mark error cause => raise (move r mark) (move r error) (move r cause)
  | assert mark test message => assert (move r mark) (move r test) (move r message)
  | global mark names => global (move r mark) names
  | nonlocal mark names => nonlocal (move r mark) names
  | branch mark test body orElse =>
    branch (move r mark) (move r test) (movedAll body) (movedAll orElse)
  | loop mark test body orElse =>
    loop (move r mark) (move r test) (movedAll body) (movedAll orElse)
  | each mark target iter body orElse isAsync =>
    each (move r mark) (move r target) (move r iter) (movedAll body) (movedAll orElse) isAsync
  | manage mark items body isAsync => manage (move r mark) (move r items) (movedAll body) isAsync
  | guarded mark body handlers orElse finish =>
    guarded (move r mark) (movedAll body) (movedHandlers handlers) (movedAll orElse) (movedAll finish)
  | function ⟨mark, name, params, body, decorators, returns, isAsync⟩ =>
    function ⟨move r mark, name, move r params, movedAll body, move r decorators, move r returns, isAsync⟩
  | class_ ⟨mark, name, bases, keywords, body, decorators⟩ =>
    class_ ⟨move r mark, name, move r bases, move r keywords, movedAll body, move r decorators⟩
  | import_ mark names => import_ (move r mark) (move r names)
  | importFrom mark module names level => importFrom (move r mark) module (move r names) level

def movedAll : List Stmt → List Stmt
  | [] => []
  | stmt :: rest => stmt.moved :: movedAll rest

def movedHandlers : List Handler → List Handler
  | [] => []
  | ⟨mark, type, name, body⟩ :: rest =>
    ⟨move r mark, move r type, name, movedAll body⟩ :: movedHandlers rest

end

end Stmt

instance : Movable Stmt := ⟨.moved⟩
instance : Movable Handler :=
  ⟨fun r handler => ⟨move r handler.mark, move r handler.type, handler.name, move r handler.body⟩⟩

namespace Stmt

variable (r : Relocation)

theorem movedAll_eq (stmts : List Stmt) : movedAll r stmts = move r stmts := by
  induction stmts with
  | nil => rfl
  | cons _ _ ih =>
    rw [movedAll, ih]
    rfl

theorem movedHandlers_eq (handlers : List Handler) : movedHandlers r handlers = move r handlers := by
  induction handlers with
  | nil => rfl
  | cons handler _ ih =>
    obtain ⟨mark, type, name, body⟩ := handler
    rw [movedHandlers, ih, movedAll_eq]
    rfl

theorem mark_move (stmt : Stmt) : (move r stmt).mark = move r stmt.mark := by
  cases stmt with
  | function definition => cases definition; rfl
  | class_ definition => cases definition; rfl
  | _ => rfl

theorem position_move (stmt : Stmt) : (move r stmt).position = r.place stmt.position := by
  rw [position, token, mark_move]
  rfl

end Stmt

section Statements

variable {r : Relocation}

instance : Movable FunctionDef := ⟨fun r definition => { definition with
    mark := move r definition.mark, params := move r definition.params
    body := move r definition.body, decorators := move r definition.decorators
    returns := move r definition.returns }⟩

instance : Movable ClassDef := ⟨fun r definition => { definition with
    mark := move r definition.mark, bases := move r definition.bases
    keywords := move r definition.keywords, body := move r definition.body
    decorators := move r definition.decorators }⟩

instance : Natural r Handler.mk Handler.mk := ⟨fun _ _ _ _ => rfl⟩
instance : Natural r FunctionDef.mk FunctionDef.mk := ⟨fun _ _ _ _ _ _ _ => rfl⟩
instance : Natural r ClassDef.mk ClassDef.mk := ⟨fun _ _ _ _ _ _ => rfl⟩

namespace Stmt

instance : Natural r expr expr := ⟨fun _ _ => rfl⟩
instance : Natural r assign assign := ⟨fun _ _ _ => rfl⟩
instance : Natural r augAssign augAssign := ⟨fun _ _ _ _ => rfl⟩
instance : Natural r annAssign annAssign := ⟨fun _ _ _ _ => rfl⟩
instance : Natural r delete delete := ⟨fun _ _ => rfl⟩
instance : Natural r pass pass := ⟨fun _ => rfl⟩
instance : Natural r leave leave := ⟨fun _ => rfl⟩
instance : Natural r next next := ⟨fun _ => rfl⟩
instance : Natural r give give := ⟨fun _ _ => rfl⟩
instance : Natural r raise raise := ⟨fun _ _ _ => rfl⟩
instance : Natural r assert assert := ⟨fun _ _ _ => rfl⟩
instance : Natural r global global := ⟨fun _ names => congrArg (global _) (Still.still r names)⟩
instance : Natural r nonlocal nonlocal := ⟨fun _ names => congrArg (nonlocal _) (Still.still r names)⟩
instance : Natural r import_ import_ := ⟨fun _ _ => rfl⟩
instance : Natural r importFrom importFrom := ⟨fun _ _ _ _ => rfl⟩
instance : Natural r branch branch := ⟨fun _ _ _ _ => by simp only [← movedAll_eq]; rfl⟩
instance : Natural r loop loop := ⟨fun _ _ _ _ => by simp only [← movedAll_eq]; rfl⟩
instance : Natural r each each := ⟨fun _ _ _ _ _ _ => by simp only [← movedAll_eq]; rfl⟩
instance : Natural r manage manage := ⟨fun _ _ _ _ => by rw [← movedAll_eq]; rfl⟩
instance : Natural r guarded guarded :=
  ⟨fun _ _ _ _ _ => by simp only [← movedAll_eq, ← movedHandlers_eq]; rfl⟩

instance : Natural r function function where
  beside := by
    rintro ⟨mark, name, params, body, decorators, returns, isAsync⟩
    show _ = moved r _
    rw [moved, movedAll_eq]
    rfl

instance : Natural r class_ class_ where
  beside := by
    rintro ⟨mark, name, bases, keywords, body, decorators⟩
    show _ = moved r _
    rw [moved, movedAll_eq]
    rfl

end Stmt

end Statements

end Stubwise
