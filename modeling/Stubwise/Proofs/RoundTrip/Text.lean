import Stubwise.Proofs.Parser.Termination
import Stubwise.Proofs.RoundTrip.Reading
import Stubwise.Proofs.RoundTrip.Writing

namespace Stubwise

open List

open Lexer (lineEnd endToken)

theorem tokenize_text {height : Nat} {expr : Expr} (plain : expr.Plain height) :
    (tokenize expr.text).map Token.placeless = expr.tokens ++ lineEnd := by
  obtain ⟨c, rest, text, other⟩ := plain.opens
  have visible : c ≠ ' ' := fun blank => other (by simp [blank])
  have ends : Lexer.StartsIn expr.stops [] := by simp [Lexer.StartsIn]
  have lexes := plain.writes ends .nil
  rw [append_nil, append_nil] at lexes
  exact lexes.tokenize ⟨c, rest, text, visible⟩

section Constants

open Text

theorem tokenize_of_spells {text : String} {token : Token} (spells : Lexer.Spells text.toList [] token) :
    (tokenize text).map (fun token => (token.kind, token.literal)) =
      [(token.kind, token.literal), (.newline, some ""), (.eof, some "")] := by
  obtain ⟨c, rest, first, visible, _⟩ := spells.visible
  have lexes := Lexer.Lexes.token spells .nil
  rw [append_nil] at lexes
  have read := congrArg (map fun token => (token.kind, token.literal)) (lexes.tokenize
    ⟨c, rest, first, by rintro rfl; cases visible⟩)
  rwa [map_map] at read

theorem tokenize_quoted {printable : Char → Bool} (control : ∀ c, printable c = true → ' ' ≤ c)
    (value : String) :
    (tokenize (quoteBy printable value)).map (fun token => (token.kind, token.literal)) =
        [(.string, some value), (.newline, some ""), (.eof, some "")] ∧
      (tokenize ("b" ++ quoteBy printable value)).map (fun token => (token.kind, token.literal)) =
        [(.bytes, some value), (.newline, some ""), (.eof, some "")] := by
  have stops : Lexer.StartsIn ('.' :: Lexer.delimiters) [] := by simp [Lexer.StartsIn]
  exact ⟨tokenize_of_spells (Lexer.spells_quoted control value stops),
    tokenize_of_spells (Lexer.spells_bytes control value stops)⟩

/-- The text of a string or bytes constant is one token with the value of the constant, whatever the
value, and whichever characters that are no control characters are written as they are. -/
theorem constant_lexes_back (mark : Mark) (value : String) :
    let read (text : String) := (tokenize text).map fun token => (token.kind, token.literal)
    let alone (kind : TokenKind) := [(kind, some value), (.newline, some ""), (.eof, some "")]
    read (Expr.constant mark .str value).text = alone .string ∧
      read (Expr.constant mark .bytes value).text = alone .bytes ∧
      ∀ printable : Char → Bool, (∀ c, printable c = true → ' ' ≤ c) →
        read (quoteBy printable value) = alone .string ∧
          read ("b" ++ quoteBy printable value) = alone .bytes := by
  have own := tokenize_quoted Lexer.isPrintable_control value
  exact ⟨own.1, own.2, fun printable control => tokenize_quoted control value⟩

end Constants

namespace Parser

variable {expr : Expr} {level : Level} {tokens rest : List Token} {token : Token} {depth turns : Nat}

theorem behind_lineEnd : Behind .named lineEnd := by
  refine ⟨⟨_, _, _, rfl⟩, by decide, ?_⟩
  decide

theorem skipCurrent_bind_accepts {α : Type} {next : Unit → Parse α} {good : α → Prop}
    (other : (token.kind == .newline) = false) (enough : (token :: tokens).length ≤ turns)
    (accepts : Accepts (next ()) depth (token :: tokens) rest good) :
    Accepts (tokensWhile (currentIs .newline) (fun _ _ => ()) turns () >>= next) depth (token :: tokens)
      rest good := by
  cases turns with
  | zero => simp at enough
  | succ =>
    unfold tokensWhile
    rw [bind_assoc]
    refine accepts_tells (tells_currentIs other) ?_
    exact accepts

theorem skipAhead_accepts (enough : (token :: lineEnd).length ≤ turns) :
    Accepts (tokensWhile (aheadIs .newline) (fun _ _ => ()) turns ()) depth (token :: lineEnd)
      [endToken .eof {}] fun _ => True := by
  obtain ⟨more, rfl⟩ : ∃ more, turns = more + 2 := ⟨turns - 2, by simp [lineEnd] at enough; omega⟩
  refine accepts_if (tells_aheadIs rfl) (accepts_advance (accepts_current fun _ _ => ?_))
  exact accepts_else (tells_aheadIs rfl) (accepts_pure trivial)

theorem expressionOnly_accepts (reads : ReadsAs expression 0 .named tokens lineEnd expr)
    (starts : Starts level tokens) :
    Accepts (expressionOnly expression) 0 (tokens ++ lineEnd) [endToken .eof {}] (Like expr) := by
  obtain ⟨first, others, rfl, opening⟩ := starts
  have list : Accepts (expressionList expression .named) 0 (first :: others ++ lineEnd) lineEnd
      (Like expr) := by
    refine accepts_current fun start _ => reads.bind fun found last same => ?_
    exact accepts_else (tells_aheadIs rfl) (accepts_pure same)
  refine accepts_turns fun count enough => ?_
  refine skipCurrent_bind_accepts (opening.other (by decide)) enough ?_
  refine list.bind fun found last same => accepts_turns fun count enough => ?_
  refine (skipAhead_accepts enough).bind fun _ last _ => ?_
  exact accepts_if (tells_aheadIs rfl) (accepts_pure same)

theorem expression_reads {height : Nat} (plain : expr.Plain height) (shallow : 2 * height < maxDepth) :
    ReadsAs expression 0 .named expr.tokens lineEnd expr := by
  have place : Expr.Place Level.named false Level.named := Expr.place_same (by decide)
  have bare := expr.needsParens_named
  have room : Room height maxDepth 0 := ⟨Nat.le_of_lt shallow, by omega⟩
  exact (readable_plain plain).reads room (place.fits bare) (place.follows bare) behind_lineEnd

theorem startText_at {height : Nat} (plain : expr.Plain height) (firstNode : Nat) :
    (startText "" expr.text firstNode).At 0 (expr.tokens ++ lineEnd) := by
  refine ⟨⟨_, startText_reads "" expr.text firstNode, tokenize_text plain⟩, rfl, ?_⟩
  rw [← tokenize_text plain, length_map]
  exact tokenize_length_le expr.text

end Parser

open Parser

/-- A plain expression is read back from its text without a fault, up to marks. -/
theorem parseExpression_text {expr : Expr} {height : Nat} (plain : expr.Plain height)
    (shallow : height ≤ 200) (firstNode : Nat) :
    let parsed := parseExpression expr.text firstNode
    parsed.faults = [] ∧ ∃ found, parsed.tree = some found ∧ found.unmarked = expr.unmarked := by
  have reads := expression_reads plain (Nat.lt_of_le_of_lt (Nat.mul_le_mul_left 2 shallow) (by decide))
  obtain ⟨found, after, last, run, same, _, calm⟩ :=
    expressionOnly_accepts reads (starts_plain plain) (startText_at plain firstNode)
  have parsed : parseExpression expr.text firstNode = after.result (some found) := by
    unfold parseExpression
    rw [show (expressionOnly expression).run (startText "" expr.text firstNode) = _ from run]
  refine ⟨?_, found, ?_, same⟩
  · rw [parsed, State.result, calm.faults]
    rfl
  · rw [parsed, State.result]

/-- Powers on both sides of a power, a chain in a chain, and a name bound to a function. -/
theorem parseExpression_text_mixed :
    let word (id : String) : Expr := .name default id .load
    let parenthesis : Mark := ⟨Symbol.openParen.token, 0⟩
    let power := Expr.binary default .pow (.binary default .pow (word "x") (word "y"))
      (.unary default .minus (.constant default .int "2"))
    let test := Expr.unary default .not (.compare default (word "a") [⟨.notIn, word "b"⟩])
    let bound := Expr.named default default "n"
      (.lambda default .empty (.tuple parenthesis [word "s"] .load))
    let chain := Expr.boolean default .or [.boolean default .and [word "p", word "q"], bound]
    let expr := Expr.conditional default test power chain
    expr.text = "(x ** y) ** (-2) if not a not in b else p and q or (n := lambda: (s,))" ∧
      expr.Plain 5 ∧ (let parsed := parseExpression expr.text 0
        parsed.faults = [] ∧ ∃ found, parsed.tree = some found ∧ found.unmarked = expr.unmarked) := by
  intro word parenthesis power test bound chain expr
  have name (id : String) (named : isName id) (height : Nat) : (word id).Plain height :=
    .name named
  have powerPlain : power.Plain 4 :=
    .binary (.binary (name "x" (by decide) _) (name "y" (by decide) _))
      (.unary (.constant (by decide)))
  have testPlain : test.Plain 4 := by
    refine .unary (.compare (name "a" (by decide) _) (cons_ne_nil _ _) ?_)
    exact forall_mem_singleton.mpr (name "b" (by decide) _)
  have boundPlain : bound.Plain 3 := by
    refine .named (by decide) (.lambda (.tuple rfl ?_))
    exact forall_mem_singleton.mpr (name "s" (by decide) _)
  have innerPlain : (Expr.boolean default .and [word "p", word "q"]).Plain 3 := by
    refine .boolean (forall_mem_cons.mpr ⟨name "p" (by decide) _, ?_⟩) (by simp [word])
    exact forall_mem_singleton.mpr (name "q" (by decide) _)
  have plain : expr.Plain 5 := by
    refine .conditional testPlain powerPlain (.boolean ?_ (by simp))
    exact forall_mem_cons.mpr ⟨innerPlain, forall_mem_singleton.mpr boundPlain⟩
  exact ⟨by decide, plain, parseExpression_text plain (by decide) 0⟩

/-- Statements are printed without the parentheses that they may need: a name that is bound in them
is read, but not what it is printed as. -/
theorem bound_name_printed_bare :
    let read := parseModule "" "(x := 1)\n"
    read.faults = [] ∧ read.tree.text = "x := 1\n" ∧ (parseModule "" read.tree.text).faults ≠ [] := by
  decide +kernel

end Stubwise
