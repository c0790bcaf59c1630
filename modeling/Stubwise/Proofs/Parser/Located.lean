import Stubwise.Proofs.Orderly.Parse
import Stubwise.Proofs.Parser.ParallelStmt
import Stubwise.Proofs.Parser.Termination

namespace Stubwise

open List

open Movable (move)

def movePlace (r : Relocation) (place : Context × Expr) : Context × Expr :=
  (place.1, move r place.2)

theorem eq_of_mem_of_map_eq {α : Type} {f : α → α} {list : List α} (same : list.map f = list)
    {a : α} (member : a ∈ list) : f a = a :=
  map_inj_left.mp (same.trans list.map_id.symm) a member

section Moves

variable (r : Relocation)

theorem Param.filterMap_move (get : Param → Option Expr)
    (same : ∀ param, get (move r param) = move r (get param)) (params : List Param) :
    (move r params).filterMap get = (params.filterMap get).map (move r) := by
  induction params with
  | nil => rfl
  | cons param rest ih =>
    have first := same param
    show (move r param :: move r rest).filterMap get = _
    cases found : get param <;> rw [found] at first <;>
      simp [first, found, ih, move_none, move_some]

theorem Parameters.expressions_move (params : Parameters) :
    (move r params).expressions = params.expressions.map (move r) := by
  have hints := Param.filterMap_move r Param.hint fun _ => rfl
  have rest (param : Option Param) : ((move r param).bind (·.hint)).toList =
      (param.bind (·.hint)).toList.map (move r) := by
    obtain _ | ⟨mark, name, _ | hint⟩ := param <;> rfl
  simp only [move] at hints rest ⊢
  simp [expressions, positional, hints, rest, filterMap_map, map_filterMap]

theorem Comprehension.places_move (clause : Comprehension) :
    (move r clause).places = clause.places.map (movePlace r) := by
  simp [places, move, mapMarks, movePlace]

theorem Expr.places_move (expr : Expr) : (move r expr).places = expr.places.map (movePlace r) := by
  cases expr with
  | name | constant => rfl
  | listComp mark element clauses | setComp mark element clauses | generator mark element clauses
  | dictComp =>
    have each := Comprehension.places_move r
    simp only [move] at each
    simp [move, mapMarks, places, movePlace, each, flatMap_map, map_flatMap]
  | lambda _ params =>
    have all := Parameters.expressions_move r params
    obtain ⟨posOnly, args, vararg, kwOnly, kwarg, defaults, kwDefaults⟩ := params
    simp only [move] at all
    simp [move, mapMarks, places, children, movePlace, all]
  | dict =>
    have each (item : DictItem) : (move r item).expressions = item.expressions.map (move r) := by
      obtain ⟨_ | key, value⟩ := item <;> rfl
    simp only [move] at each
    simp only [move, mapMarks, mapItems_eq_map, places, children, each, flatMap_map, map_flatMap, map_map]
    rfl
  | call =>
    simp only [move, mapMarks, mapAll_eq_map, mapKeywords_eq_map, places, children, map_cons, map_append, map_map]
    rfl
  | slice _ lower upper step => cases lower <;> cases upper <;> cases step <;> rfl
  | yield _ value => cases value <;> rfl
  | _ => simp [move, mapMarks, Comparison.mapMarks, places, children, movePlace]

theorem WithItem.places_move (item : WithItem) : (move r item).places = item.places.map (movePlace r) := by
  obtain ⟨context, _ | target⟩ := item <;> rfl

theorem toList_move (expr : Option Expr) : (move r expr).toList = expr.toList.map (move r) := by
  cases expr <;> rfl

theorem asked_move (context : Context) (exprs : List Expr) :
    (exprs.map (move r)).map (context, ·) = (exprs.map (context, ·)).map (movePlace r) := by
  rw [map_map, map_map]
  rfl

namespace Stmt

theorem places_move (stmt : Stmt) : (move r stmt).places = stmt.places.map (movePlace r) := by
  cases stmt with
  | annAssign _ _ _ value => cases value <;> rfl
  | give _ value => cases value <;> rfl
  | raise _ error cause => cases error <;> cases cause <;> rfl
  | assert _ _ message => cases message <;> rfl
  | manage _ items =>
    show (items.map (move r)).flatMap (·.places) = (items.flatMap (·.places)).map (movePlace r)
    simp only [flatMap_map, WithItem.places_move, map_flatMap]
  | guarded _ _ handlers =>
    show ((movedHandlers r handlers).flatMap (·.type.toList)).map (Context.load, ·) = _
    have types : (movedHandlers r handlers).flatMap (·.type.toList) =
        (handlers.flatMap (·.type.toList)).map (move r) := by
      rw [movedHandlers_eq, map_flatMap]
      exact (flatMap_map ..).trans (by simp only [← toList_move]; rfl)
    rw [types, asked_move]
  | function definition =>
    obtain ⟨mark, name, params, body, decorators, returns, isAsync⟩ := definition
    show (decorators.map (move r) ++ (move r params).expressions ++ (move r returns).toList).map
      (Context.load, ·) = _
    rw [Parameters.expressions_move, toList_move, ← map_append, ← map_append, asked_move]
  | class_ definition =>
    obtain ⟨mark, name, bases, keywords, body, decorators⟩ := definition
    show (decorators.map (move r) ++ bases.map (move r) ++
      (keywords.map (move r)).map (·.value)).map (Context.load, ·) = _
    have values : (keywords.map (move r)).map (·.value) = (keywords.map (·.value)).map (move r) := by
      rw [map_map, map_map]
      rfl
    rw [values, ← map_append, ← map_append, asked_move]
  | _ => simp [move, moved, places, ownExprs, movePlace]

theorem inner_move (stmt : Stmt) : (move r stmt).inner = stmt.inner.map (move r) := by
  cases stmt with
  | branch mark test body orElse | loop mark test body orElse
  | each _ _ _ body orElse =>
    show movedAll r body ++ movedAll r orElse = (body ++ orElse).map (move r)
    rw [movedAll_eq, movedAll_eq, map_append]
    rfl
  | manage _ _ body => exact movedAll_eq r body
  | guarded _ body handlers orElse finish =>
    show movedAll r body ++ (movedHandlers r handlers).flatMap (·.body) ++ movedAll r orElse ++
      movedAll r finish = (body ++ handlers.flatMap (·.body) ++ orElse ++ finish).map (move r)
    have bodies : (movedHandlers r handlers).flatMap (·.body) = (handlers.flatMap (·.body)).map (move r) := by
      rw [movedHandlers_eq, map_flatMap]
      exact flatMap_map ..
    rw [bodies, movedAll_eq, movedAll_eq, movedAll_eq, map_append, map_append, map_append]
    rfl
  | function definition | class_ definition =>
    cases definition
    exact movedAll_eq r _
  | _ => rfl

theorem ownMarks_move (stmt : Stmt) : (move r stmt).ownMarks = stmt.ownMarks.map (move r) := by
  cases stmt with
  | function definition | class_ definition =>
    cases definition
    rfl
  | _ => simp [move, moved, ownMarks, movedHandlers_eq, mark]

end Stmt

end Moves

section Fixed

variable {r : Relocation}

theorem Expr.Stands.near_of_fixed {context : Context} {expr : Expr} (stands : expr.Stands context)
    (fixed : move r expr = expr) : expr.Near fun position => r.place position = position := by
  induction stands with
  | @intro context expr fits below ih =>
    have mark : move r expr.mark = expr.mark := by rw [← expr.mark_move, fixed]
    have places : expr.places.map (movePlace r) = expr.places := by rw [← expr.places_move, fixed]
    refine .intro (congrArg Mark.position mark) fun place member => ih place member ?_
    exact congrArg Prod.snd (eq_of_mem_of_map_eq places member)

theorem Stmt.Stands.near_of_fixed {stmt : Stmt} (stands : stmt.Stands) (fixed : move r stmt = stmt) :
    stmt.Near fun position => r.place position = position := by
  induction stands with
  | @intro stmt fits exprs stmts ih =>
    have marks : stmt.ownMarks.map (move r) = stmt.ownMarks := by rw [← stmt.ownMarks_move, fixed]
    have places : stmt.places.map (movePlace r) = stmt.places := by rw [← stmt.places_move, fixed]
    have inner : stmt.inner.map (move r) = stmt.inner := by rw [← stmt.inner_move, fixed]
    refine .intro (fun mark member => ?_) (fun place member => ?_) fun part member => ?_
    · exact congrArg Mark.position (eq_of_mem_of_map_eq marks member)
    · exact (exprs place member).near_of_fixed (congrArg Prod.snd (eq_of_mem_of_map_eq places member))
    · exact ih part member (eq_of_mem_of_map_eq inner member)

end Fixed

namespace Relocation

def around (tokens : List Token) : Relocation where
  place position :=
    if position ∈ tokens.map (·.position) then position else { position with line := position.line + 1 }
  skip := 0

theorem around_place {tokens : List Token} {position : Position} :
    (around tokens).place position = position ↔ ∃ token ∈ tokens, token.position = position := by
  rw [← mem_map]
  simp only [around]
  split
  · simp_all
  · rename_i away
    refine iff_of_false (fun same => ?_) away
    exact absurd (congrArg Position.line same) (by simp)

theorem map_around (tokens : List Token) : tokens.map (move (around tokens)) = tokens := by
  refine (map_congr_left fun token member => ?_).trans tokens.map_id
  have stays : (around tokens).place token.position = token.position := around_place.mpr ⟨token, member, rfl⟩
  show token.moved (around tokens) = token
  rw [Token.moved, stays]

end Relocation

namespace Parser

theorem parseModule_near {file source : String} {firstNode : Nat}
    (clean : (parseModule file source firstNode).faults = []) :
    ∀ stmt ∈ (parseModule file source firstNode).tree.body,
      stmt.Near fun position => ∃ token ∈ tokenize source, token.position = position := by
  let r := Relocation.around (tokenize source)
  let start := startText file source firstNode
  have reads := startText_reads file source firstNode
  have calm := (moduleStmts_ranks (startText_ranks file source firstNode)
    (startRank_lt_turnBound source)).1.calm
  have alike : start.Alike r [] start :=
    { tokens := ⟨_, reads, by rw [Relocation.map_around]; exact reads⟩
      depth := rfl
      nextNode := rfl
      budget := ⟨0, rfl⟩
      fresh := rfl
      faults := rfl }
  have fixed := ((moduleStmts_parallel start.budget 0).follows alike
    ⟨reverse_eq_nil_iff.mp clean, calm⟩).1
  intro stmt member
  have stands := (parseModule_proper file source firstNode).holds.1 stmt member
  have near := stands.near_of_fixed (eq_of_mem_of_map_eq fixed.symm member)
  simpa only [r, Relocation.around_place] using near

end Parser

end Stubwise
