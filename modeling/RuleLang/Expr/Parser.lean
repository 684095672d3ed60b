import RuleLang.Expr.Printer
import RuleLang.Token.Lexer

/-!
# From tokens to expressions

The grammar, loosest first: a ternary, binary operators of six precedences that associate to the left, and
primaries. The operators are read by climbing: an operand takes in all operators from a least precedence on, and
that least precedence rises behind every operator. A lambda takes everything to its right that an expression can
take.

Every function here reads from the front of a list of tokens in which the end marker has been left out, and
returns what is left. `Parsed` carries a proof that something was taken, so the loops end. The nesting of
expressions and of operators in front is bounded by a budget, and the budget bounds the recursion.
-/

namespace RuleLang

/-- What was read from tokens: a value and the tokens left, of which there are fewer than `bound`. -/
structure Parsed (α : Type) (bound : Nat) where
  value : α
  rest : List Token
  fewer : rest.length < bound

def Parsed.widen {α : Type} {m n : Nat} (p : Parsed α m) (h : m ≤ n) : Parsed α n :=
  ⟨p.value, p.rest, Nat.lt_of_lt_of_le p.fewer h⟩

/-- A reader that takes at least one token. -/
abbrev Parser (α : Type) :=
  (ts : List Token) → Except SyntaxError (Parsed α ts.length)

namespace Parser

/-- The place of the next token; `stop` is the place of the end marker. -/
def place (stop : Nat) : List Token → Nat
  | [] => stop
  | t :: _ => t.position

/-- Fails at the next token. -/
def fail {α : Type} (stop : Nat) (fault : SyntaxFault) (ts : List Token) : Except SyntaxError α :=
  .error ⟨fault, place stop ts⟩

/-- Takes one token that passes a test, or fails at the next token. -/
def take (stop : Nat) (accepts : Token → Bool) (fault : SyntaxFault) : Parser Unit
  | [] => fail stop fault []
  | t :: ts => if accepts t then .ok ⟨(), ts, by simp⟩ else fail stop fault (t :: ts)

def punctuation (stop : Nat) (mark : String) : Parser Unit :=
  take stop (·.isPunctuation mark) (.missingPunctuation mark)

def operator? (t : Token) : Option BinaryOp :=
  if t.kind = .operator then BinaryOp.ofSymbol? t.text else none

mutual

/-- An operand, and with it all that follows of operators that bind at least as tightly as `least`. -/
def climb (operand : Parser Expr) (least : Nat) (ts : List Token) :
    Except SyntaxError (Parsed Expr ts.length) := do
  let left ← operand ts
  let whole ← climbOn operand least left.value left.rest
  .ok (whole.widen left.fewer)
termination_by ts.length
decreasing_by exact left.fewer

/-- Goes on from a left operand. What stands to the right of an operator holds only operators that bind more
tightly, so that operators of one precedence associate to the left. -/
def climbOn (operand : Parser Expr) (least : Nat) (left : Expr) (ts : List Token) :
    Except SyntaxError (Parsed Expr (ts.length + 1)) :=
  match ts with
  | [] => .ok ⟨left, [], by simp⟩
  | t :: ts =>
    match operator? t with
    | none => .ok ⟨left, t :: ts, by simp⟩
    | some op =>
      if op.precedence < least then .ok ⟨left, t :: ts, by simp⟩
      else do
        let right ← climb operand (op.precedence + 1) ts
        let whole ← climbOn operand least (.binary op left right.value) right.rest
        .ok (whole.widen (by have := right.fewer; simp only [List.length_cons]; omega))
termination_by ts.length
decreasing_by
  · simp
  · have := right.fewer
    simp only [List.length_cons]
    omega

end

def ternary (stop : Nat) (condition whole : Parser Expr) : Parser Expr := fun ts => do
  match ← condition ts with
  | ⟨c, [], h⟩ => .ok ⟨c, [], h⟩
  | ⟨c, t :: ts, h⟩ =>
    if t.isOperator "?" then
      let yes ← whole ts
      let colon ← take stop (·.isOperator ":") .missingColon yes.rest
      let no ← whole colon.rest
      .ok ⟨.ternary c yes.value no.value, no.rest, by
        have := yes.fewer
        have := colon.fewer
        have := no.fewer
        simp only [List.length_cons] at h
        omega⟩
    else .ok ⟨c, t :: ts, h⟩

/-- Arguments separated by commas, and the closing parenthesis. -/
def argumentList (stop : Nat) (whole : Parser Expr) (ts : List Token) :
    Except SyntaxError (Parsed (List Expr) ts.length) := do
  match ← whole ts with
  | ⟨_, [], _⟩ => fail stop (.missingPunctuation ")") []
  | ⟨e, t :: rest, h⟩ =>
    if t.isPunctuation "," then
      let more ← argumentList stop whole rest
      .ok ⟨e :: more.value, more.rest, by
        have := more.fewer
        simp only [List.length_cons] at h
        omega⟩
    else if t.isPunctuation ")" then
      .ok ⟨[e], rest, by
        simp only [List.length_cons] at h
        omega⟩
    else fail stop (.missingPunctuation ")") (t :: rest)
termination_by ts.length
decreasing_by
  simp only [List.length_cons] at h
  omega

/-- The arguments of a call after the opening parenthesis. -/
def arguments (stop : Nat) (whole : Parser Expr) : Parser (List Expr)
  | [] => argumentList stop whole []
  | t :: ts =>
    if t.isPunctuation ")" then .ok ⟨[], ts, by simp⟩ else argumentList stop whole (t :: ts)

/-- The steps of a path after those read so far, and the arguments if the path is called. -/
def path (stop : Nat) (whole : Parser Expr) (root : String) (segments : List Segment) (ts : List Token) :
    Except SyntaxError (Parsed Expr (ts.length + 1)) :=
  match ts with
  | [] => .ok ⟨.reference root segments, [], by simp⟩
  | t :: ts =>
    if t.isPunctuation "(" then do
      let args ← arguments stop whole ts
      .ok ⟨.call (pathText root segments) args.value, args.rest, by
        have := args.fewer
        simp only [List.length_cons]
        omega⟩
    else if t.isPunctuation "." then
      match ts with
      | [] => fail stop .missingProperty []
      | name :: ts =>
        if name.kind = .identifier then do
          let longer ← path stop whole root (segments ++ [.property name.text]) ts
          .ok (longer.widen (by simp))
        else fail stop .missingProperty (name :: ts)
    else if t.isPunctuation "[" then do
      let index ← whole ts
      let close ← punctuation stop "]" index.rest
      let longer ← path stop whole root (segments ++ [.index index.value]) close.rest
      .ok (longer.widen (by
        have := index.fewer
        have := close.fewer
        simp only [List.length_cons]
        omega))
    else .ok ⟨.reference root segments, t :: ts, by simp⟩
termination_by ts.length
decreasing_by
  · simp only [List.length_cons]
    omega
  · have := index.fewer
    have := close.fewer
    simp only [List.length_cons]
    omega

/-- The number that a name stands for where it is not the start of a path. -/
def booleanName? (name : String) : Option Float :=
  if name = "true" then some 1 else if name = "false" then some 0 else none

def continuesPath : List Token → Bool
  | [] => false
  | t :: _ => t.isPunctuation "." || t.isPunctuation "[" || t.isPunctuation "("

/-- What starts with a name: a lambda, a truth value, a reference or a call. -/
def named (stop : Nat) (whole : Parser Expr) (name : String) (ts : List Token) :
    Except SyntaxError (Parsed Expr (ts.length + 1)) :=
  match ts, booleanName? name with
  | [], some x => .ok ⟨.number x, [], by simp⟩
  | [], none => .ok ⟨.reference name [], [], by simp⟩
  | t :: ts, boolean =>
    if t.isOperator "=>" then do
      let body ← whole ts
      .ok ⟨.lambda name body.value, body.rest, by
        have := body.fewer
        simp only [List.length_cons]
        omega⟩
    else
      match boolean, continuesPath (t :: ts) with
      | some x, false => .ok ⟨.number x, t :: ts, by simp⟩
      | _, _ => path stop whole name [] (t :: ts)

/-- A primary: a literal, a name with what follows it, a parenthesis, or an operator in front of a primary. -/
def primaryForm (stop : Nat) (whole operand : Parser Expr) : Parser Expr
  | [] => fail stop .unexpectedEnd []
  | t :: ts =>
    match t.kind with
    | .number =>
      match Number.read? t.text with
      | some x => .ok ⟨.number x, ts, by simp⟩
      | none => .error ⟨.invalidNumber t.text, t.position⟩
    | .string => .ok ⟨.string t.text, ts, by simp⟩
    | .identifier => named stop whole t.text ts
    | .punctuation =>
      if t.text = "(" then do
        let inside ← whole ts
        let close ← punctuation stop ")" inside.rest
        .ok ⟨inside.value, close.rest, by
          have := inside.fewer
          have := close.fewer
          simp only [List.length_cons]
          omega⟩
      else .error ⟨.unexpectedToken t.text, t.position⟩
    | .operator =>
      let sign := if t.text = "-" then some UnaryOp.neg else if t.text = "!" then some UnaryOp.not else none
      match sign with
      | some op => do
        let e ← operand ts
        .ok ⟨.unary op e.value, e.rest, by
          have := e.fewer
          simp only [List.length_cons]
          omega⟩
      | none => .error ⟨.unexpectedToken t.text, t.position⟩
    | .endOfInput => .error ⟨.unexpectedEnd, t.position⟩

/-- Fails because the budget of nested levels is spent. -/
def tooDeep (stop : Nat) : Parser Expr :=
  fun ts => fail stop .nestedTooDeeply ts

mutual

def expression (stop : Nat) (budget : Nat) (ts : List Token) : Except SyntaxError (Parsed Expr ts.length) :=
  match budget with
  | 0 => tooDeep stop ts
  | budget + 1 =>
    ternary stop (climb (fun ts => primary stop budget ts) 0) (fun ts => expression stop budget ts) ts

def primary (stop : Nat) (budget : Nat) (ts : List Token) : Except SyntaxError (Parsed Expr ts.length) :=
  match budget with
  | 0 => primaryForm stop (tooDeep stop) (tooDeep stop) ts
  | budget + 1 =>
    primaryForm stop
      (ternary stop (climb (fun ts => primary stop budget ts) 0) (fun ts => expression stop budget ts))
      (fun ts => primary stop budget ts) ts

end

theorem expression_zero (stop : Nat) : expression stop 0 = tooDeep stop := by
  funext ts
  rw [expression]

/-- An expression is a ternary of operands and binary operators, and its parts have one level less. -/
theorem expression_succ (stop budget : Nat) :
    expression stop (budget + 1) =
      ternary stop (climb (primary stop budget) 0) (expression stop budget) := by
  funext ts
  rw [expression]

theorem primary_zero (stop : Nat) :
    primary stop 0 = primaryForm stop (expression stop 0) (tooDeep stop) := by
  funext ts
  rw [primary, expression_zero]

/-- Within a budget a primary holds expressions of the same budget, and an operand has one level less. -/
theorem primary_succ (stop budget : Nat) :
    primary stop (budget + 1) =
      primaryForm stop (expression stop (budget + 1)) (primary stop budget) := by
  funext ts
  rw [primary, expression_succ]

end Parser

def beforeEnd (ts : List Token) : List Token :=
  ts.takeWhile (·.kind ≠ .endOfInput)

/-- The place of the first end marker; without one, the place just after the last token. -/
def endPlace (ts : List Token) : Nat :=
  match ts.find? (·.kind = .endOfInput) with
  | some t => t.position
  | none => (ts.getLast?.map Token.endPosition).getD 0

/-- Parses tokens as one expression that is nested at most `maxDepth` levels deep. -/
def parseTokens (maxDepth : Nat) (ts : List Token) : Except SyntaxError Expr := do
  let parsed ← Parser.expression (endPlace ts) maxDepth (beforeEnd ts)
  match parsed.rest with
  | [] => .ok parsed.value
  | t :: _ => .error ⟨.unexpectedToken t.text, t.position⟩

end RuleLang
