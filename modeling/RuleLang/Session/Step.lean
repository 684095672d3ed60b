import RuleLang.Session.Recipe

/-!
# Sessions

A host program works with the engine step by step: it binds names, keeps contexts, parses expressions once and
evaluates them often, stores values in slots and calls the functions among them. Besides the evaluations that
single steps start, a session has one shared evaluation that stays open over many steps. A step that fails
changes nothing but the registry.
-/

namespace RuleLang

/-- An evaluation that stays open: its number, and the scope it started with. -/
structure SharedEvaluation where
  number : Nat
  scope : Scope

/-- What a session holds between two steps. -/
structure Session where
  registry : Registry
  options : Options
  context : Context
  saved : Entries Context
  slots : Entries Value
  expressions : Entries Expr
  shared : SharedEvaluation

/-- What a host program can do in a session. A value that a step computes goes into the slot `target`, if one
is given. -/
inductive Step where
  | setOptions (o : Options)
  | bind (name : String) (value : Recipe)
  | save (name : String)
  | restore (name : String)
  | showContext
  | compareContext (name : String)
  | lookup (name : String)
  | parse (source name : String)
  | eval (name : String) (target : Option String)
  | exec (source : String) (target : Option String)
  | reopen
  | evalShared (name : String) (target : Option String)
  | set (value : Recipe) (target : Option String)
  | call (slot : String) (args : List Recipe) (target : Option String)
  | compare (a b : Recipe)

inductive Answer where
  | options (o : Options)
  | size (n : Nat)
  | saved (size : Nat)
  | opened (size : Nat)
  | context (c : Context)
  | same (b : Bool)
  | binding (value : Option Value)
  | expression (e : Expr)
  | value (v : Value)
  | values (a b : Value)
  | failed (e : ExecError)
  | noExpression
  | noFunction

namespace Session

/-- An action on the registry as an action on the session. -/
def onRegistry {α : Type} (action : StateM Registry α) : StateM Session α :=
  modifyGet fun s =>
    let (result, registry) := action.run s.registry
    (result, { s with registry := registry })

/-- Opens a new shared evaluation on the current context. -/
def reopen : StateM Session Unit := do
  let s ← get
  let number ← onRegistry (Registry.start s.options.maxDepth.toNat)
  modify fun s => { s with shared := ⟨number, s.context.scope⟩ }

def start (registry : Registry) (options : Options) (context : Context) : Session :=
  let blank : Session := ⟨registry, options, context, [], [], [], ⟨0, []⟩⟩
  (reopen.run blank).2

/-- Stores a computed value, or answers why there is none. -/
def store (target : Option String) : Except ExecError Value → StateM Session Answer
  | .error e => return .failed e
  | .ok v => do
    if let some name := target then
      modify fun s => { s with slots := s.slots.insert name v }
    return .value v

/-- Builds what a step needs from the slots, or answers why that fails. -/
def building {α : Type} (build : Entries Value → Recipe.Build α) (next : α → StateM Session Answer) :
    StateM Session Answer := do
  match ← onRegistry (build (← get).slots).run with
  | .ok a => next a
  | .error e => return .failed e

def perform : Step → StateM Session Answer
  | .setOptions o => do
    modify fun s => { s with options := o }
    return .options o
  | .bind name value => building (Recipe.build · value) fun v => do
    modify fun s => { s with context := s.context.bind name v }
    return .size (← get).context.size
  | .save name => do
    modify fun s => { s with saved := s.saved.insert name s.context }
    return .saved (← get).context.size
  | .restore name => do
    modify fun s => { s with context := (s.saved.get? name).getD .empty }
    return .size (← get).context.size
  | .showContext => return .context (← get).context
  | .compareContext name => do
    let s ← get
    return .same ((s.saved.get? name).any fun c => c.same s.context)
  | .lookup name => return .binding ((← get).context.get? name)
  | .parse source name => do
    match (← get).options.parse source with
    | .error e => return .failed (.parse e)
    | .ok e => do
      modify fun s => { s with expressions := s.expressions.insert name e }
      return .expression e
  | .eval name target => do
    let s ← get
    match s.expressions.get? name with
    | none => return .noExpression
    | some e => store target ((← onRegistry (s.options.evaluate e s.context)).mapError .eval)
  | .exec source target => do
    let s ← get
    store target (← onRegistry (s.options.exec source s.context))
  | .reopen => do
    reopen
    return .opened (← get).context.size
  | .evalShared name target => do
    let s ← get
    match s.expressions.get? name with
    | none => return .noExpression
    | some e =>
      store target ((← onRegistry (Registry.evaluate s.shared.number s.shared.scope e)).mapError .eval)
  | .set value target => building (Recipe.build · value) fun v => store target (.ok v)
  | .call slot args target => do
    match (← get).slots.get? slot with
    | some (.function f) => building (Recipe.buildItems · args) fun values => do
      store target ((← onRegistry (Registry.call f values)).mapError .eval)
    | _ => return .noFunction
  | .compare a b =>
    building (fun slots => do return (← Recipe.build slots a, ← Recipe.build slots b)) fun (v, w) =>
      return .values v w

end Session

end RuleLang
