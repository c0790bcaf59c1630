import Stubwise.Proofs.RoundTrip.Lexing
import Stubwise.Proofs.Tree.Marks
import Stubwise.Tree.Printer

namespace Stubwise

open List Keyword Text

namespace Expr

/-- An expression without regard to where it was read. -/
abbrev unmarked : Expr → Expr :=
  mapMarks fun _ => default

end Expr

/-- A word that the lexer takes for a name, not for a keyword. -/
def isName (id : String) : Bool :=
  (ofText? id).isNone && match id.toList with
    | [] => false
    | c :: rest => isLetter c && rest.all isIdentifierPart

theorem letters_of_isName {id : String} (word : isName id) :
    ∃ c rest, id.toList = c :: rest ∧ isLetter c = true ∧ ∀ d ∈ rest, isIdentifierPart d = true := by
  rw [isName, Bool.and_eq_true] at word
  cases text : id.toList with
  | nil => simp [text] at word
  | cons c rest =>
    have checked : isLetter c = true ∧ ∀ d ∈ rest, isIdentifierPart d = true := by
      simpa [text] using word.2
    exact ⟨c, rest, rfl, checked⟩

theorem isEmpty_of_isName {id : String} (word : isName id) : id.isEmpty = false := by
  cases empty : id.isEmpty with
  | false => rfl
  | true =>
    rw [String.isEmpty_iff.mp empty] at word
    exact absurd word (by decide)

def isDecimal (value : String) : Bool :=
  !value.toList.isEmpty && value.toList.all isDigit

/-- The values with which constants of a kind are written back as they are. -/
def ConstantKind.writes : ConstantKind → String → Bool
  | .str, _ => true
  | .int, value => isDecimal value
  | .bool, value => value == "True" || value == "False"
  | .none, value => value == "None"
  | .ellipsis, value => value == "..."
  | _, _ => false

theorem bool_writes {value : String} (written : ConstantKind.bool.writes value) :
    value = "True" ∨ value = "False" := by
  simpa [ConstantKind.writes] using written

namespace Expr

/-- Expressions of at most the given height in the part of the language that the text determines:
what is read, without comprehensions, formatted strings, slices, starred and yielded values. -/
inductive Plain : Nat → Expr → Prop where
  | name {height : Nat} {mark : Mark} {id : String} (word : isName id) :
      Plain height (.name mark id .load)
  | constant {height : Nat} {mark : Mark} {kind : ConstantKind} {value : String}
      (written : kind.writes value) : Plain height (.constant mark kind value)
  | list {height : Nat} {mark : Mark} {elements : List Expr}
      (each : ∀ element ∈ elements, Plain height element) :
      Plain (height + 1) (.list mark elements .load)
  | tuple {height : Nat} {mark : Mark} {elements : List Expr}
      (parenthesized : isParenthesized mark)
      (each : ∀ element ∈ elements, Plain height element) :
      Plain (height + 1) (.tuple mark elements .load)
  | set {height : Nat} {mark : Mark} {elements : List Expr} (some : elements ≠ [])
      (each : ∀ element ∈ elements, Plain height element) :
      Plain (height + 1) (.set mark elements)
  | dict {height : Nat} {mark : Mark} {items : List DictItem}
      (keys : ∀ item ∈ items, ∀ key ∈ item.key, Plain height key)
      (values : ∀ item ∈ items, Plain height item.value) : Plain (height + 1) (.dict mark items)
  | named {height : Nat} {mark target : Mark} {id : String} {value : Expr}
      (word : isName id) (plain : Plain height value) :
      Plain (height + 1) (.named mark target id value)
  | binary {height : Nat} {mark : Mark} {op : BinaryOp} {left right : Expr}
      (first : Plain height left) (second : Plain height right) :
      Plain (height + 1) (.binary mark op left right)
  | unary {height : Nat} {mark : Mark} {op : UnaryOp} {operand : Expr}
      (plain : Plain height operand) : Plain (height + 1) (.unary mark op operand)
  | boolean {height : Nat} {mark : Mark} {op : BoolOp} {first second : Expr} {rest : List Expr}
      (each : ∀ value ∈ first :: second :: rest, Plain height value)
      (apart : ∀ inner values, first ≠ .boolean inner op values) :
      Plain (height + 1) (.boolean mark op (first :: second :: rest))
  | compare {height : Nat} {mark : Mark} {left : Expr} {comparisons : List Comparison}
      (first : Plain height left) (some : comparisons ≠ [])
      (each : ∀ comparison ∈ comparisons, Plain height comparison.operand) :
      Plain (height + 1) (.compare mark left comparisons)
  | conditional {height : Nat} {mark : Mark} {test body orElse : Expr}
      (condition : Plain height test) (first : Plain height body) (second : Plain height orElse) :
      Plain (height + 1) (.conditional mark test body orElse)
  | call {height : Nat} {mark : Mark} {callee : Expr} {args : List Expr}
      {keywords : List NamedArg} (function : Plain height callee)
      (each : ∀ arg ∈ args, Plain height arg)
      (words : ∀ arg ∈ keywords, arg.name = "" ∨ isName arg.name = true)
      (values : ∀ arg ∈ keywords, Plain height arg.value) :
      Plain (height + 1) (.call mark callee args keywords)
  | access {height : Nat} {mark : Mark} {value : Expr} {attr : String}
      (plain : Plain height value) (word : isName attr)
      (apart : ∀ inner digits, value ≠ .constant inner .int digits) :
      Plain (height + 1) (.access mark value attr .load)
  | subscript {height : Nat} {mark : Mark} {value index : Expr} (plain : Plain height value)
      (inner : Plain height index)
      (apart : ∀ inner elements context, index ≠ .tuple inner elements context) :
      Plain (height + 1) (.subscript mark value index .load)
  | lambda {height : Nat} {mark : Mark} {body : Expr} (plain : Plain height body) :
      Plain (height + 1) (.lambda mark .empty body)
  | await {height : Nat} {mark : Mark} {value : Expr} (plain : Plain height value) :
      Plain (height + 1) (.await mark value)

end Expr

def BinaryOp.symbol : BinaryOp → Symbol
  | add => .plus | sub => .minus | mul => .star | matMul => .atSign | div => .slash
  | floorDiv => .doubleSlash | mod => .percent | pow => .power | shiftLeft => .shiftLeft
  | shiftRight => .shiftRight | bitAnd => .ampersand | bitOr => .pipe | bitXor => .caret

def UnaryOp.token : UnaryOp → Token
  | minus => Symbol.minus.token
  | plus => Symbol.plus.token
  | invert => Symbol.tilde.token
  | not => not_.token

def BoolOp.keyword : BoolOp → Keyword
  | and => .and_
  | or => .or_

def CompareOp.tokens : CompareOp → List Token
  | less => [Symbol.less.token] | greater => [Symbol.greater.token]
  | lessEqual => [Symbol.lessEqual.token] | greaterEqual => [Symbol.greaterEqual.token]
  | equal => [Symbol.equal.token] | notEqual => [Symbol.notEqual.token]
  | isIn => [in_.token] | notIn => [not_.token, in_.token]
  | same => [is_.token] | notSame => [is_.token, not_.token]

def constantToken : ConstantKind → String → Token
  | .str, value => .string value
  | .int, value => .int value
  | .ellipsis, _ => Symbol.ellipsis.token
  | _, value => .word value

def commaTokens : List (List Token) → List Token
  | [] => []
  | first :: rest => first ++ rest.flatMap (Symbol.comma.token :: ·)

def between (left : Symbol) (tokens : List Token) (right : Symbol) : List Token :=
  left.token :: tokens ++ [right.token]

theorem between_append (left right : Symbol) (tokens rest : List Token) :
    between left tokens right ++ rest = left.token :: (tokens ++ right.token :: rest) := by
  simp [between]

theorem commaTokens_cons {ι : Type} (write : ι → List Token) (first : ι) (others : List ι) :
    commaTokens ((first :: others).map write) =
      write first ++ others.flatMap (Symbol.comma.token :: write ·) := by
  rw [map_cons, commaTokens, flatMap_map]

namespace Expr

/-- Puts `tokens`, the tokens of `expr`, in parentheses where its place needs them. -/
def encloseTokens (expr : Expr) (outer : Level) (isRight : Bool) (tokens : List Token) :
    List Token :=
  if expr.needsParens outer isRight then between .openParen tokens .closeParen else tokens

theorem level_le_atom (expr : Expr) : expr.level ≤ .atom := by
  cases expr <;> simp only [level]
  case tuple mark elements context => split <;> decide
  case binary mark op left right => cases op <;> decide
  case unary mark op operand => cases op <;> decide
  case boolean mark op values => cases op <;> decide
  all_goals decide

theorem level_ge_of_needsParens {expr : Expr} {outer : Level} {isRight : Bool}
    (bare : expr.needsParens outer isRight = false) : outer ≤ expr.level := by
  unfold needsParens at bare
  split at bare
  · cases bare
  · rename_i notLess
    exact Nat.not_lt.mp notLess

mutual

def tokens : Expr → List Token
  | name _ id _ => [.word id]
  | constant _ kind value => [constantToken kind value]
  | list _ elements _ =>
    between .openBracket (commaTokens (tokenLists .named false elements)) .closeBracket
  | tuple _ [element] _ =>
    between .openParen (encloseTokens element Level.named false element.tokens ++ [Symbol.comma.token])
      .closeParen
  | tuple _ elements _ =>
    between .openParen (commaTokens (tokenLists .named false elements)) .closeParen
  | set _ elements =>
    between .openBrace (commaTokens (tokenLists .named false elements)) .closeBrace
  | dict _ items => between .openBrace (commaTokens (itemTokens items)) .closeBrace
  | named _ _ id value =>
    .word id :: Symbol.walrus.token :: encloseTokens value Level.test false value.tokens
  | binary _ op left right =>
    encloseTokens left op.level false left.tokens ++
      op.symbol.token :: encloseTokens right op.level true right.tokens
  | unary _ op operand => op.token :: encloseTokens operand op.level false operand.tokens
  | boolean _ _ [] => []
  | boolean _ op (first :: rest) =>
    encloseTokens first op.level false first.tokens ++
      (tokenLists op.level true rest).flatMap (op.keyword.token :: ·)
  | compare _ left comparisons =>
    encloseTokens left .bitOr false left.tokens ++ comparisonTokens comparisons
  | conditional _ test body orElse =>
    encloseTokens body .or false body.tokens ++
      if_.token :: encloseTokens test Level.or false test.tokens ++
      else_.token :: encloseTokens orElse Level.conditional false orElse.tokens
  | call _ callee args keywords =>
    encloseTokens callee .atom false callee.tokens ++ between .openParen
        (commaTokens (tokenLists .named false args ++ keywordTokens keywords)) .closeParen
  | access _ value attr _ =>
    encloseTokens value Level.atom false value.tokens ++ [Symbol.dot.token, .word attr]
  | subscript _ value index _ =>
    encloseTokens value .atom false value.tokens ++ between .openBracket index.tokens .closeBracket
  | lambda _ _ body =>
    lambda_.token :: Symbol.colon.token :: encloseTokens body .test false body.tokens
  | await _ value => await_.token :: encloseTokens value Level.await false value.tokens
  | _ => []

def tokenLists (outer : Level) (isRight : Bool) : List Expr → List (List Token)
  | [] => []
  | expr :: rest =>
    encloseTokens expr outer isRight expr.tokens :: tokenLists outer isRight rest

def itemTokens : List DictItem → List (List Token)
  | [] => []
  | ⟨none, value⟩ :: rest =>
    (Symbol.power.token :: encloseTokens value Level.bitOr false value.tokens) :: itemTokens rest
  | ⟨some key, value⟩ :: rest =>
    (encloseTokens key .test false key.tokens ++
      Symbol.colon.token :: encloseTokens value Level.test false value.tokens)
      :: itemTokens rest

def comparisonTokens : List Comparison → List Token
  | [] => []
  | ⟨op, operand⟩ :: rest =>
    op.tokens ++ encloseTokens operand .bitOr false operand.tokens ++ comparisonTokens rest

def keywordTokens : List NamedArg → List (List Token)
  | [] => []
  | ⟨_, keyword, value⟩ :: rest =>
    ((if keyword.isEmpty then [Symbol.power.token] else [.word keyword, Symbol.assign.token]) ++
      encloseTokens value .test false value.tokens) :: keywordTokens rest

end

def tokensAt (outer : Level) (isRight : Bool) (expr : Expr) : List Token :=
  encloseTokens expr outer isRight expr.tokens

theorem tokenLists_eq_map (outer : Level) (isRight : Bool) (elements : List Expr) :
    tokenLists outer isRight elements = elements.map (tokensAt outer isRight) := by
  induction elements with
  | nil => rfl
  | cons _ _ ih => rw [tokenLists, ih, map_cons, tokensAt]

end Expr

namespace DictItem

def tokens : DictItem → List Token
  | ⟨none, value⟩ => Symbol.power.token :: value.tokensAt Level.bitOr false
  | ⟨some key, value⟩ =>
    key.tokensAt Level.test false ++ Symbol.colon.token :: value.tokensAt Level.test false

abbrev unmarked : DictItem → DictItem :=
  mapMarks fun _ => default

theorem itemTokens_eq_map (items : List DictItem) : Expr.itemTokens items = items.map tokens := by
  induction items with
  | nil => rfl
  | cons item _ ih =>
    obtain ⟨key, value⟩ := item
    cases key <;> rw [Expr.itemTokens, ih, map_cons] <;> rfl

end DictItem

namespace Comparison

def tokens (comparison : Comparison) : List Token :=
  comparison.op.tokens ++ comparison.operand.tokensAt .bitOr false

abbrev unmarked : Comparison → Comparison :=
  mapMarks fun _ => default

theorem comparisonTokens_eq_flatMap (comparisons : List Comparison) :
    Expr.comparisonTokens comparisons = comparisons.flatMap tokens := by
  induction comparisons with
  | nil => rfl
  | cons comparison _ ih =>
    obtain ⟨op, operand⟩ := comparison
    rw [Expr.comparisonTokens, ih, flatMap_cons, tokens, Expr.tokensAt]

end Comparison

namespace NamedArg

def tokens : NamedArg → List Token
  | ⟨_, keyword, value⟩ =>
    (if keyword.isEmpty then [Symbol.power.token] else [.word keyword, Symbol.assign.token]) ++
      value.tokensAt .test false

abbrev unmarked : NamedArg → NamedArg :=
  mapMarks fun _ => default

theorem tokens_named (mark : Mark) (value : Expr) {name : String} (word : isName name) :
    tokens ⟨mark, name, value⟩ = .word name :: Symbol.assign.token :: value.tokensAt Level.test false := by
  rw [tokens, isEmpty_of_isName word]
  rfl

theorem keywordTokens_eq_map (keywords : List NamedArg) :
    Expr.keywordTokens keywords = keywords.map tokens := by
  induction keywords with
  | nil => rfl
  | cons arg _ ih =>
    obtain ⟨mark, keyword, value⟩ := arg
    rw [Expr.keywordTokens, ih, map_cons, tokens, Expr.tokensAt]

end NamedArg

end Stubwise
