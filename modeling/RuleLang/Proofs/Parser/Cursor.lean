import RuleLang.Expr.Parser

/-!
# Reading with a cursor

The readers as a machine with a memory of two numbers: the index of the next token, and how many levels are open. The
machine has all tokens before it, the end marker and whatever stands behind it included. It looks at the token at its
index without asking whether there is one, goes on by one token unless that is the last, and counts the levels up and
down.

That it never looks past the first end marker, always stops, and leaves the count of levels as it was has to be
proved. What it ends with is what the parser returns.
-/

namespace RuleLang

/-- Where the machine stands: the index of the next token, and how many levels are open. -/
structure Cursor where
  index : Nat
  depth : Nat
deriving DecidableEq, Repr

/-- A walk moves the cursor, and may fail. One without an outcome has looked for a token where there is none, or has
run out of fuel. -/
abbrev Walk := ExceptT SyntaxError (StateT Cursor Option)

namespace Walk

variable {α β : Type}

def unfinished : Walk α := fun _ => none

theorem bind_apply (x : Walk α) (f : α → Walk β) (c : Cursor) :
    (x >>= f) c =
      (x c).bind fun
        | (.ok a, c') => f a c'
        | (.error e, c') => some (.error e, c') := by
  change ((x c).bind fun p => _) = _
  congr 1
  funext ⟨o, c'⟩
  cases o <;> rfl

@[simp]
theorem pure_apply (a : α) (c : Cursor) : (pure a : Walk α) c = some (.ok a, c) :=
  rfl

@[simp]
theorem throw_apply (e : SyntaxError) (c : Cursor) : (throw e : Walk α) c = some (.error e, c) :=
  rfl

section Machine

variable (tokens : List Token) (maxDepth : Nat)

def current : Walk Token := fun c => tokens[c.index]?.map fun t => (.ok t, c)

def advance : Walk Unit :=
  modify fun c => if c.index + 1 < tokens.length then { c with index := c.index + 1 } else c

/-- Fails at the next token. -/
def failHere (fault : SyntaxFault) : Walk α := do
  throw ⟨fault, (← current tokens).position⟩

/-- Walks one level deeper, if there is a level left, and counts the level back whether that fails or not. -/
def nested (walk : Walk α) : Walk α := fun c =>
  if c.depth < maxDepth then
    (walk { c with depth := c.depth + 1 }).map fun (o, c) => (o, { c with depth := c.depth - 1 })
  else failHere tokens .nestedTooDeeply c

def expect (mark : String) : Walk Unit := do
  if (← current tokens).isPunctuation mark then advance tokens
  else failHere tokens (.missingPunctuation mark)

/-- Goes on from a left operand, with all that follows of operators that bind at least as tightly as `least`. -/
def binaryOn (operand : Walk Expr) : (fuel least : Nat) → (left : Expr) → Walk Expr
  | 0, _, _ => unfinished
  | fuel + 1, least, left => do
    match Parser.operator? (← current tokens) with
    | none => return left
    | some op =>
      if op.precedence < least then return left
      else do
        advance tokens
        let first ← operand
        let right ← binaryOn operand fuel (op.precedence + 1) first
        binaryOn operand fuel least (.binary op left right)

def binary (operand : Walk Expr) (fuel least : Nat) : Walk Expr := do
  binaryOn tokens operand fuel least (← operand)

def ternary (condition whole : Walk Expr) : Walk Expr := do
  let c ← condition
  if (← current tokens).isOperator "?" then
    advance tokens
    let yes ← whole
    if (← current tokens).isOperator ":" then
      advance tokens
      return .ternary c yes (← whole)
    else failHere tokens .missingColon
  else return c

def argumentList (whole : Walk Expr) : (fuel : Nat) → Walk (List Expr)
  | 0 => unfinished
  | fuel + 1 => do
    let e ← whole
    if (← current tokens).isPunctuation "," then
      advance tokens
      return e :: (← argumentList whole fuel)
    else
      expect tokens ")"
      return [e]

def arguments (whole : Walk Expr) (fuel : Nat) : Walk (List Expr) := do
  if (← current tokens).isPunctuation ")" then
    advance tokens
    return []
  else argumentList tokens whole fuel

def path (whole : Walk Expr) (root : String) : (fuel : Nat) → List Segment → Walk Expr
  | 0, _ => unfinished
  | fuel + 1, segments => do
    let t ← current tokens
    if t.isPunctuation "(" then
      advance tokens
      return .call (pathText root segments) (← arguments tokens whole fuel)
    else if t.isPunctuation "." then
      advance tokens
      let name ← current tokens
      if name.kind = .identifier then
        advance tokens
        path whole root fuel (segments ++ [.property name.text])
      else failHere tokens .missingProperty
    else if t.isPunctuation "[" then
      advance tokens
      let index ← whole
      expect tokens "]"
      path whole root fuel (segments ++ [.index index])
    else return .reference root segments

def named (whole : Walk Expr) (fuel : Nat) (name : String) : Walk Expr := do
  let t ← current tokens
  if t.isOperator "=>" then
    advance tokens
    return .lambda name (← whole)
  else
    match Parser.booleanName? name, Parser.continuesPath [t] with
    | some x, false => return .number x
    | _, _ => path tokens whole name fuel []

def primaryForm (whole operand : Walk Expr) (fuel : Nat) : Walk Expr := do
  let t ← current tokens
  match t.kind with
  | .number =>
    advance tokens
    match Number.read? t.text with
    | some x => return .number x
    | none => throw ⟨.invalidNumber t.text, t.position⟩
  | .string =>
    advance tokens
    return .string t.text
  | .identifier =>
    advance tokens
    named tokens whole fuel t.text
  | .punctuation =>
    if t.text = "(" then
      advance tokens
      let e ← whole
      expect tokens ")"
      return e
    else throw ⟨.unexpectedToken t.text, t.position⟩
  | .operator =>
    match if t.text = "-" then some UnaryOp.neg else if t.text = "!" then some UnaryOp.not else none with
    | some op =>
      advance tokens
      return .unary op (← operand)
    | none => throw ⟨.unexpectedToken t.text, t.position⟩
  | .endOfInput => throw ⟨.unexpectedEnd, t.position⟩

mutual

def expression : (fuel : Nat) → Walk Expr
  | 0 => unfinished
  | fuel + 1 => nested tokens maxDepth (ternary tokens (binary tokens (primary fuel) fuel 0) (expression fuel))

def primary : (fuel : Nat) → Walk Expr
  | 0 => unfinished
  | fuel + 1 => primaryForm tokens (expression fuel) (nested tokens maxDepth (primary fuel)) fuel

end

/-- Walks over one expression that has to end before an end marker. -/
def parse (fuel : Nat) : Walk Expr := do
  let e ← expression tokens maxDepth fuel
  let t ← current tokens
  if t.kind = .endOfInput then return e else throw ⟨.unexpectedToken t.text, t.position⟩

end Machine

/-! ## What every walk keeps -/

/-- However a walk ends, as many levels are open as before, and the index has not gone back, nor past the tokens. -/
structure Orderly (tokens : List Token) (x : Walk α) : Prop where
  depth_eq : ∀ {c o c'}, x c = some (o, c') → c'.depth = c.depth
  index_le : ∀ {c o c'}, x c = some (o, c') → c.index ≤ c'.index
  index_lt : ∀ {c o c'}, x c = some (o, c') → c.index < tokens.length → c'.index < tokens.length

namespace Orderly

variable {tokens : List Token} {maxDepth : Nat}

/-- A walk that leaves the cursor where it is. -/
theorem of_still {x : Walk α} (h : ∀ c o c', x c = some (o, c') → c' = c) : Orderly tokens x where
  depth_eq hx := congrArg Cursor.depth (h _ _ _ hx)
  index_le hx := Nat.le_of_eq (congrArg Cursor.index (h _ _ _ hx)).symm
  index_lt hx hc := h _ _ _ hx ▸ hc

theorem unfinished : Orderly tokens (unfinished : Walk α) :=
  of_still nofun

theorem pure {a : α} : Orderly tokens (pure a : Walk α) :=
  of_still fun _ _ _ h => (congrArg Prod.snd (Option.some.inj h)).symm

theorem throw {e : SyntaxError} : Orderly tokens (throw e : Walk α) :=
  of_still fun _ _ _ h => (congrArg Prod.snd (Option.some.inj h)).symm

theorem bind {x : Walk α} {f : α → Walk β} (hx : Orderly tokens x) (hf : ∀ a, Orderly tokens (f a)) :
    Orderly tokens (x >>= f) := by
  have hcut : ∀ {c o c'}, (x >>= f) c = some (o, c') →
      (∃ o₁, x c = some (o₁, c')) ∨ ∃ a c₁, x c = some (.ok a, c₁) ∧ f a c₁ = some (o, c') := by
    intro c o c' h
    rw [bind_apply, Option.bind_eq_some_iff] at h
    obtain ⟨⟨o₁, c₁⟩, h₁, h⟩ := h
    cases o₁ with
    | error e =>
      cases h
      exact .inl ⟨_, h₁⟩
    | ok a => exact .inr ⟨a, c₁, h₁, h⟩
  constructor
  · intro c o c' h
    obtain ⟨_, h₁⟩ | ⟨a, c₁, h₁, h₂⟩ := hcut h
    · exact hx.depth_eq h₁
    · exact ((hf a).depth_eq h₂).trans (hx.depth_eq h₁)
  · intro c o c' h
    obtain ⟨_, h₁⟩ | ⟨a, c₁, h₁, h₂⟩ := hcut h
    · exact hx.index_le h₁
    · exact Nat.le_trans (hx.index_le h₁) ((hf a).index_le h₂)
  · intro c o c' h hc
    obtain ⟨_, h₁⟩ | ⟨a, c₁, h₁, h₂⟩ := hcut h
    · exact hx.index_lt h₁ hc
    · exact (hf a).index_lt h₂ (hx.index_lt h₁ hc)

theorem current : Orderly tokens (current tokens) := by
  refine of_still fun c o c' h => ?_
  obtain ⟨_, _, he⟩ := Option.map_eq_some_iff.1 h
  exact (congrArg Prod.snd he).symm

theorem advance_apply (c : Cursor) : advance tokens c =
    some (.ok (), if c.index + 1 < tokens.length then { c with index := c.index + 1 } else c) :=
  rfl

theorem advance : Orderly tokens (advance tokens) := by
  have hnext : ∀ {c o c'}, Walk.advance tokens c = some (o, c') →
      c' = c ∨ c.index + 1 < tokens.length ∧ c' = { c with index := c.index + 1 } := by
    intro c o c' h
    rw [advance_apply] at h
    split at h
    · exact .inr ⟨‹_›, (congrArg Prod.snd (Option.some.inj h)).symm⟩
    · exact .inl (congrArg Prod.snd (Option.some.inj h)).symm
  constructor
  · intro c o c' h
    obtain rfl | ⟨_, rfl⟩ := hnext h <;> rfl
  · intro c o c' h
    obtain rfl | ⟨_, rfl⟩ := hnext h
    · exact Nat.le_refl _
    · exact Nat.le_succ _
  · intro c o c' h hc
    obtain rfl | ⟨hlt, rfl⟩ := hnext h
    · exact hc
    · exact hlt

theorem failHere {fault : SyntaxFault} : Orderly tokens (failHere tokens fault : Walk α) :=
  current.bind fun _ => .throw

/-- The level that is counted up is counted down again. -/
theorem nested {x : Walk α} (hx : Orderly tokens x) : Orderly tokens (nested tokens maxDepth x) := by
  have hcut : ∀ {c o c'}, Walk.nested tokens maxDepth x c = some (o, c') →
      Walk.failHere tokens .nestedTooDeeply c = some (o, c') ∨
      ∃ c₁, x { c with depth := c.depth + 1 } = some (o, c₁) ∧ c' = { c₁ with depth := c₁.depth - 1 } := by
    intro c o c' h
    rw [Walk.nested] at h
    split at h
    · obtain ⟨⟨o₁, c₁⟩, h₁, he⟩ := Option.map_eq_some_iff.1 h
      cases he
      exact .inr ⟨c₁, h₁, rfl⟩
    · exact .inl h
  constructor
  · intro c o c' h
    obtain hfail | ⟨c₁, h₁, rfl⟩ := hcut h
    · exact failHere.depth_eq hfail
    · have hdepth : c₁.depth = c.depth + 1 := hx.depth_eq h₁
      show c₁.depth - 1 = c.depth
      omega
  · intro c o c' h
    obtain hfail | ⟨c₁, h₁, rfl⟩ := hcut h
    · exact failHere.index_le hfail
    · have hindex := hx.index_le h₁
      exact hindex
  · intro c o c' h hc
    obtain hfail | ⟨c₁, h₁, rfl⟩ := hcut h
    · exact failHere.index_lt hfail hc
    · have hindex := hx.index_lt h₁ hc
      exact hindex

theorem expect {mark : String} : Orderly tokens (expect tokens mark) := by
  refine current.bind fun t => ?_
  split
  · exact advance
  · exact failHere

section Forms

variable {operand whole condition : Walk Expr} {least fuel : Nat}

theorem binaryOn {left : Expr} (h : Orderly tokens operand) :
    Orderly tokens (binaryOn tokens operand fuel least left) := by
  induction fuel generalizing least left with
  | zero => exact .unfinished
  | succ fuel ih =>
    refine current.bind fun t => ?_
    split
    · exact .pure
    · split
      · exact .pure
      · exact advance.bind fun _ => h.bind fun _ => ih.bind fun _ => ih

theorem binary (h : Orderly tokens operand) : Orderly tokens (binary tokens operand fuel least) :=
  h.bind fun _ => h.binaryOn

theorem ternary (hc : Orderly tokens condition) (h : Orderly tokens whole) :
    Orderly tokens (ternary tokens condition whole) := by
  refine hc.bind fun c => current.bind fun t => ?_
  split
  · refine advance.bind fun _ => h.bind fun yes => current.bind fun t => ?_
    split
    · exact advance.bind fun _ => h.bind fun _ => .pure
    · exact failHere
  · exact .pure

theorem argumentList (h : Orderly tokens whole) : Orderly tokens (argumentList tokens whole fuel) := by
  induction fuel with
  | zero => exact .unfinished
  | succ fuel ih =>
    refine h.bind fun e => current.bind fun t => ?_
    split
    · exact advance.bind fun _ => ih.bind fun _ => .pure
    · exact expect.bind fun _ => .pure

theorem arguments (h : Orderly tokens whole) : Orderly tokens (arguments tokens whole fuel) := by
  refine current.bind fun t => ?_
  split
  · exact advance.bind fun _ => .pure
  · exact h.argumentList

theorem path {root : String} {segments : List Segment} (h : Orderly tokens whole) :
    Orderly tokens (path tokens whole root fuel segments) := by
  induction fuel generalizing segments with
  | zero => exact .unfinished
  | succ fuel ih =>
    refine current.bind fun t => ?_
    split
    · exact advance.bind fun _ => h.arguments.bind fun _ => .pure
    · split
      · refine advance.bind fun _ => current.bind fun name => ?_
        split
        · exact advance.bind fun _ => ih
        · exact failHere
      · split
        · exact advance.bind fun _ => h.bind fun _ => expect.bind fun _ => ih
        · exact .pure

theorem named {name : String} (h : Orderly tokens whole) : Orderly tokens (named tokens whole fuel name) := by
  refine current.bind fun t => ?_
  split
  · exact advance.bind fun _ => h.bind fun _ => .pure
  · split
    · exact .pure
    · exact h.path

theorem primaryForm (h : Orderly tokens whole) (ho : Orderly tokens operand) :
    Orderly tokens (primaryForm tokens whole operand fuel) := by
  refine current.bind fun t => ?_
  split
  · refine advance.bind fun _ => ?_
    split
    · exact .pure
    · exact .throw
  · exact advance.bind fun _ => .pure
  · exact advance.bind fun _ => h.named
  · split
    · exact advance.bind fun _ => h.bind fun _ => expect.bind fun _ => .pure
    · exact .throw
  · split
    · exact advance.bind fun _ => ho.bind fun _ => .pure
    · exact .throw
  · exact .throw

end Forms

end Orderly

/-- Expressions and primaries are orderly over any tokens and with any fuel. -/
theorem orderly (tokens : List Token) (maxDepth fuel : Nat) :
    Orderly tokens (expression tokens maxDepth fuel) ∧ Orderly tokens (primary tokens maxDepth fuel) := by
  induction fuel with
  | zero => exact ⟨.unfinished, .unfinished⟩
  | succ fuel ih => exact ⟨.nested (.ternary ih.2.binary ih.1), .primaryForm ih.1 (.nested ih.2)⟩

end Walk

/-- Tokens with an end marker behind them, unless the last of them is one. -/
def withEnd (ts : List Token) : List Token :=
  if ts.getLast?.any (·.kind = .endOfInput) then ts
  else ts ++ [⟨.endOfInput, "", (ts.getLast?.map Token.endPosition).getD 0⟩]

end RuleLang
