import RuleLang.Proofs.Eval.Recording
import RuleLang.Proofs.Value.Origin

/-!
# Functions are new when they are made

All functions that exist at some moment are on the list of those made until then, so a function that is made gets a
number that none of them has. For an evaluation this is an invariant of everything that is written down: `Books` says
that an action keeps the books, measured by a list `L` of functions. As long as the functions made are at the beginning
of `L`, all functions that occur are recorded in `L`, and an event at the moment when they are all of `L` follows on it.
So `L` can be chosen for each moment as what has been made by then.
-/

namespace RuleLang

namespace Event

/-- An event at a moment at which all functions there are have been listed: what it shows is on the list, and what it
makes is next. -/
def Follows (made : List Function) : Event → Prop
  | .enter scope => Scope.Recorded made scope
  | .create f => f.id = made.length ∧ ∀ g ∈ f.captured, g.Recorded made
  | .leave v => v.Recorded made

/-- Events of which the one at the moment when `L` has been made, if there is one, follows on it. -/
def OrderlyAt (L : List Function) : (made : List Function) → List Event → Prop
  | _, [] => True
  | made, event :: events => (made = L → event.Follows L) ∧ OrderlyAt L (made ++ event.created) events

/-- Events that each follow on what has been made until then. -/
def Orderly (made : List Function) (events : List Event) : Prop :=
  ∀ L, OrderlyAt L made events

section Ledger

variable {L made : List Function} {before after events events' : List Event} {event : Event} {f : Function}

theorem ledger_append (events events' : List Event) : ledger (events ++ events') = ledger events ++ ledger events' :=
  List.flatMap_append

theorem OrderlyAt.append (h : OrderlyAt L made events) (h' : OrderlyAt L (made ++ ledger events) events') :
    OrderlyAt L made (events ++ events') := by
  induction events generalizing made with
  | nil =>
    rw [ledger, List.flatMap_nil, List.append_nil] at h'
    exact h'
  | cons event events ih =>
    refine ⟨h.1, ih h.2 ?_⟩
    rw [List.append_assoc]
    exact h'

/-- More than `L` has been made already, or something else. -/
theorem OrderlyAt.of_not_le (h : ¬made <+: L) (events : List Event) : OrderlyAt L made events := by
  induction events generalizing made with
  | nil => trivial
  | cons event events ih =>
    constructor
    · intro hmade
      exact absurd (hmade ▸ List.prefix_rfl) h
    · exact ih fun hle => h ((List.prefix_append ..).trans hle)

theorem Orderly.append (h : Orderly made events) (h' : Orderly (made ++ ledger events) events') :
    Orderly made (events ++ events') :=
  fun L => (h L).append (h' L)

theorem orderly_cons_iff :
    Orderly made (event :: events) ↔ event.Follows made ∧ Orderly (made ++ event.created) events := by
  constructor
  · intro h
    exact ⟨(h made).1 rfl, fun L => (h L).2⟩
  · intro h L
    exact ⟨fun hL => hL ▸ h.1, h.2 L⟩

theorem Orderly.of_append (h : Orderly made (before ++ after)) :
    Orderly made before ∧ Orderly (made ++ ledger before) after := by
  induction before generalizing made with
  | nil => exact ⟨fun _ => trivial, by simpa [ledger] using h⟩
  | cons event before ih =>
    obtain ⟨hevent, h⟩ := orderly_cons_iff.1 h
    obtain ⟨hbefore, hafter⟩ := ih h
    refine ⟨orderly_cons_iff.2 ⟨hevent, hbefore⟩, ?_⟩
    rw [List.append_assoc] at hafter
    exact hafter

/-- A function that follows on what has been made is recorded once it is listed itself. -/
theorem Follows.recorded (h : event.Follows made) (hf : f ∈ event.functions) : f.Recorded (made ++ event.created) := by
  cases event with
  | enter scope => exact (h f hf).mono (List.prefix_append ..)
  | leave v => exact (h f hf).mono (List.prefix_append ..)
  | create g =>
    rw [List.mem_singleton.1 hf]
    refine .of_captured ?_ fun g' hg' => (h.2 g' hg').mono (List.prefix_append ..)
    rw [h.1, List.getElem?_append_right (Nat.le_refl _), Nat.sub_self]
    rfl

/-- Whatever is seen in the course of events has been made by their end. -/
theorem Orderly.recorded (h : Orderly made events) (hevent : event ∈ events) (hf : f ∈ event.functions) :
    f.Recorded (made ++ ledger events) := by
  obtain ⟨before, after, rfl⟩ := List.append_of_mem hevent
  obtain ⟨-, hafter⟩ := h.of_append
  have hrecorded := (orderly_cons_iff.1 hafter).1.recorded hf
  refine hrecorded.mono ⟨ledger after, ?_⟩
  simp [ledger]

/-- The number of a function is its place among those that have been made. -/
def Numbered (made : List Function) : Prop :=
  ∀ (i : Nat) (f : Function), made[i]? = some f → f.id = i

theorem Orderly.numbered (h : Orderly made events) (hmade : Numbered made) : Numbered (made ++ ledger events) := by
  induction events generalizing made with
  | nil => simpa [ledger] using hmade
  | cons event events ih =>
    obtain ⟨hevent, hevents⟩ := orderly_cons_iff.1 h
    have hnext : Numbered (made ++ event.created) := by
      cases event with
      | create f =>
        intro i g hg
        rcases Nat.lt_or_ge i made.length with hlt | hge
        · rw [created, List.getElem?_append_left hlt] at hg
          exact hmade i g hg
        · rw [created, List.getElem?_append_right hge] at hg
          obtain ⟨hlast, hg⟩ := List.getElem?_eq_some_iff.1 hg
          have hi : i = made.length := by
            rw [List.length_singleton] at hlast
            omega
          subst hi
          rw [← hg]
          simpa using hevent.1
      | _ => simpa [created] using hmade
    have hall := ih hevents hnext
    rw [List.append_assoc] at hall
    exact hall

end Ledger

end Event

section Books

variable {α β : Type} {L made : List Function} {R : α → β → Prop}

/-- An end of an action at whose beginning `made` had been made. -/
structure Booked (L made : List Function) (R : α → β → Prop)
    (p : (Except EvalError α × Registry) × List Event) : Prop where
  orderly : Event.OrderlyAt L made p.2
  counted : made ++ Event.ledger p.2 <+: L → p.1.2.functions = (made ++ Event.ledger p.2).length
  result : made ++ Event.ledger p.2 <+: L → ∀ a, p.1.1 = .ok a → ∃ b, R a b

/-- An action that keeps the books, if it begins with books that are kept. Its results are related to something. -/
structure Books (L : List Function) (R : α → β → Prop) (x : Recording α) (_ : Recording β) : Prop where
  booked : ∀ {made r p}, x r = some p → r.functions = made.length → made <+: L → Booked L made R p

/-- An action that makes nothing. -/
theorem Booked.of_nil {o : Except EvalError α} {r : Registry} (hr : r.functions = made.length)
    (ho : ∀ a, o = .ok a → ∃ b, R a b) : Booked L made R ((o, r), []) where
  orderly := trivial
  counted _ := by rw [Event.ledger, List.flatMap_nil, List.append_nil, hr]
  result _ := ho

def Books.lifting (L : List Function) : Lifting Recording Recording where
  errors := Eq
  rel := Books L
  mismatch _ := rfl
  pure := by
    intro _ _ _ a b hab
    constructor
    intro made r p hp hr _
    cases hp
    refine .of_nil hr fun c hc => ?_
    cases hc
    exact ⟨b, hab⟩
  throw := by
    intro _ _ _ e _ _
    constructor
    intro made r p hp hr _
    cases hp
    exact .of_nil hr nofun
  bind := by
    intro _ _ _ _ _ _ x _ f _ hx hf
    constructor
    intro made r q hq hr hle
    obtain ⟨⟨o, r''⟩, noted⟩ := q
    rcases Recording.bind_eq_some hq with ⟨e, hx', rfl⟩ | ⟨a, r', before, after, hx', hf', rfl⟩
    · have hbooked := hx.booked hx' hr hle
      exact ⟨hbooked.orderly, hbooked.counted, fun _ _ => nofun⟩
    · have hbooked := hx.booked hx' hr hle
      have hassoc : made ++ Event.ledger (before ++ after) = made ++ Event.ledger before ++ Event.ledger after := by
        rw [Event.ledger_append, List.append_assoc]
      by_cases hle' : made ++ Event.ledger before <+: L
      · obtain ⟨b, hab⟩ := hbooked.result hle' a rfl
        have hbooked' := (hf a b hab).booked hf' (hbooked.counted hle') hle'
        refine ⟨hbooked.orderly.append hbooked'.orderly, ?_, ?_⟩
        · rw [hassoc]
          exact hbooked'.counted
        · rw [hassoc]
          exact hbooked'.result
      · refine ⟨hbooked.orderly.append (.of_not_le hle' after), ?_, ?_⟩
        · rw [hassoc]
          exact fun h => absurd ((List.prefix_append ..).trans h) hle'
        · rw [hassoc]
          exact fun h => absurd ((List.prefix_append ..).trans h) hle'

theorem Books.read {f : Registry → Recording α} {g : Registry → Recording β} (h : ∀ r, Books L R (f r) (g r)) :
    Books L R (getThe Registry >>= f) (getThe Registry >>= g) := by
  constructor
  intro made r q hq hr hle
  obtain ⟨⟨o, r''⟩, noted⟩ := q
  rcases Recording.bind_eq_some hq with ⟨e, hx, rfl⟩ | ⟨a, r', before, after, hx, hf, rfl⟩
  · cases hx
  · cases hx
    exact (h r).booked hf hr hle

theorem Books.atDepth {x : Recording α} {y : Recording β} (h : Books L R x y) (k depth : Nat) :
    Books L R (RuleLang.atDepth k depth x) (RuleLang.atDepth k depth y) := by
  constructor
  intro made r q hq hr hle
  rw [Recording.atDepth_eq_map] at hq
  obtain ⟨p, hp, rfl⟩ := Option.map_eq_some_iff.1 hq
  have hbooked := h.booked (r := r.setDepth k depth) hp hr hle
  exact ⟨hbooked.orderly, hbooked.counted, hbooked.result⟩

/-- The same values, with functions recorded in `L`. -/
abbrev Value.RecordedEq (L : List Function) : Value → Value → Prop :=
  Value.Related (Function.Only (Function.Recorded L))

variable {k depth : Nat} {scope : Scope} {e : Expr}

theorem Function.only_faithful (P : Function → Prop) : Function.Faithful (Function.Only P) :=
  .of_id_eq fun _ _ h => congrArg Function.id h.1

theorem Books.evaluates {eval : (k depth : Nat) → Scope → Expr → Recording Value}
    (h : ∀ k depth scope e, Scope.Recorded L scope →
      Books L (Value.RecordedEq L) (eval k depth scope e) (eval k depth scope e)) :
    (Books.lifting L).Evaluates (Function.Only (Function.Recorded L)) (fromCounter eval) (fromCounter eval) where
  host hf := ⟨hf.1.symm, fun _ => rfl⟩
  closure {id k param body scope g} hf := by
    refine ⟨_, _, _, _, hf.1.symm, fun a b hab => Books.read fun r => ?_⟩
    obtain ⟨rfl, ha⟩ := hab.only
    refine h k _ _ body fun f hmem => ?_
    rcases List.mem_append.1 hmem with hmem | hmem
    · exact ha f hmem
    · exact hf.2.captured hmem

/-- What a node that makes nothing itself adds to what happens inside it: what it sees, and its value. -/
theorem Booked.around {p : (Except EvalError Value × Registry) × List Event}
    (h : Booked L made (Value.RecordedEq L) p) (hscope : Scope.Recorded L scope)
    (hleft : Event.ofOutcome e p.1.1 = Event.left p.1.1) :
    Booked L made (Value.RecordedEq L) (p.1, [.enter scope] ++ p.2 ++ Event.ofOutcome e p.1.1) := by
  obtain ⟨⟨o, r⟩, noted⟩ := p
  have hledger : Event.ledger ([.enter scope] ++ noted ++ Event.left o) = Event.ledger noted := by
    rw [Event.ledger_append, Event.ledger_append]
    cases o <;> simp [Event.left, Event.ledger, Event.created]
  dsimp only at hleft ⊢
  rw [hleft]
  refine ⟨.append (.append ⟨fun _ => hscope, trivial⟩ ?_) ?_, ?_, ?_⟩
  · simpa [Event.ledger, Event.created] using h.orderly
  · cases o with
    | error _ => trivial
    | ok v =>
      refine ⟨fun hL => ?_, trivial⟩
      have hmade : made ++ Event.ledger noted = L := by simpa [Event.ledger, Event.created] using hL
      obtain ⟨w, hvw⟩ := h.result (hmade ▸ List.prefix_rfl) v rfl
      exact hvw.only.2
  · rw [hledger]
    exact h.counted
  · rw [hledger]
    exact h.result

/-- A lambda makes the next function, if it is not too deep. -/
theorem Recording.enter_lambda (eval : (k depth : Nat) → Scope → Expr → Recording Value) (param : String) (body : Expr)
    (r : Registry) : enter eval k depth scope (.lambda param body) r =
      if depth < (r.evaluations.get k).limit then
        some ((.ok (.function (.closure r.functions k param body scope)), { r with functions := r.functions + 1 }), [])
      else some ((.error (.depthExceeded (r.evaluations.get k).limit), r), []) := by
  rw [enter, Recording.bind_apply]
  show Option.map _ ((if depth < (r.evaluations.get k).limit then _ else _ : Recording Value) r) = _
  split
  · rfl
  · rfl

/-- What happens when a lambda is evaluated that is not too deep. -/
theorem recordNode_lambda {fuel k depth : Nat} {scope : Scope} {param : String} {body : Expr} {r : Registry}
    (h : depth < (r.evaluations.get k).limit) :
    recordNode (fuel + 1) k depth scope (.lambda param body) r =
      some ((.ok (.function (.closure r.functions k param body scope)), ⟨r.evaluations, r.functions + 1⟩),
        [.enter scope, .create (.closure r.functions k param body scope),
          .leave (.function (.closure r.functions k param body scope))]) := by
  rw [recordNode, Recording.around]
  simp only [Recording.enter_lambda, if_pos h]
  rfl

/-- What happens when a function is made. -/
theorem Booked.lambda (hscope : Scope.Recorded L scope) {f : Function} (hf : f.id = made.length)
    (hcaptured : f.captured = Value.functionsOfEntries scope) {r : Registry} (hr : r.functions = made.length + 1) :
    Booked L made (Value.RecordedEq L)
      ((.ok (.function f), r), [.enter scope, .create f, .leave (.function f)]) := by
  have hledger : Event.ledger [.enter scope, .create f, .leave (.function f)] = [f] := rfl
  have hlisted (hL : made ++ [f] <+: L) : f.Recorded L := by
    refine .of_captured ?_ fun g hg => hscope g (hcaptured ▸ hg)
    obtain ⟨more, rfl⟩ := hL
    rw [hf, List.append_assoc, List.getElem?_append_right (Nat.le_refl _), Nat.sub_self]
    rfl
  refine ⟨⟨fun _ => hscope, fun hL => ?_, fun hL => ?_, trivial⟩, fun _ => ?_, fun hL v hv => ?_⟩
  · have hmade : made = L := by simpa [Event.created] using hL
    exact ⟨hf.trans (congrArg List.length hmade), fun g hg => hscope g (hcaptured ▸ hg)⟩
  · have hmade : made ++ [f] = L := by simpa [Event.created] using hL
    exact List.forall_mem_singleton.2 (hlisted (hmade ▸ List.prefix_rfl))
  · rw [hledger, List.length_append]
    exact hr
  · cases hv
    rw [hledger] at hL
    exact ⟨_, .function ⟨rfl, hlisted hL⟩⟩

/-- Every evaluation keeps the books. -/
theorem recordNode_books (fuel k depth : Nat) (scope : Scope) (e : Expr) (hscope : Scope.Recorded L scope) :
    Books L (Value.RecordedEq L) (recordNode fuel k depth scope e) (recordNode fuel k depth scope e) := by
  induction fuel generalizing k depth scope e with
  | zero => exact ⟨nofun⟩
  | succ fuel ih =>
    constructor
    intro made r _ hp hr hle
    obtain ⟨p, hinside, rfl⟩ := Option.map_eq_some_iff.1 hp
    by_cases he : ∃ param body, e = .lambda param body
    · obtain ⟨param, body, rfl⟩ := he
      rw [Recording.enter_lambda] at hinside
      split at hinside
      · cases hinside
        exact Booked.lambda (f := .closure r.functions k param body scope) hscope hr rfl (congrArg Nat.succ hr)
      · cases hinside
        exact .around (.of_nil hr nofun) hscope rfl
    · have hleft (o : Except EvalError Value) : Event.ofOutcome e o = Event.left o := by
        cases e with
        | lambda param body => exact absurd ⟨param, body, rfl⟩ he
        | _ => rfl
      have hnode : Books L (Value.RecordedEq L) (enter (recordNode fuel) k depth scope e)
          (enter (recordNode fuel) k depth scope e) := by
        refine Books.read fun r => ?_
        by_cases hlimit : depth < (r.evaluations.get k).limit
        · simp only [hlimit, ↓reduceIte]
          refine (Books.lifting L).step_self (fun _ => rfl) (Function.only_faithful _) ?_ ?_ ?_ ?_
          · exact fun name _ => Entries.get?_related (entries_related_of_functions hscope) name
          · exact fun x _ => ih k (depth + 1) scope x hscope
          · intro f g args args' hfg hargs
            exact ((Books.evaluates ih).perform hfg hargs).atDepth k (depth + 1)
          · exact fun param body hlambda => absurd ⟨param, body, hlambda⟩ he
        · simp only [hlimit, ↓reduceIte]
          exact (Books.lifting L).throw rfl
      exact .around (hnode.booked hinside hr hle) hscope (hleft _)

end Books

namespace Registry

variable {α : Type} {made : List Function} {r : Registry}

/-- How an action on the registry ends at whose beginning `made` had been made. What happened follows, the functions
that there are have been counted, and the result has a property that may depend on what has been made by then. -/
structure Logged (made : List Function) (P : List Function → α → Prop) (p : α × Registry) (events : List Event) :
    Prop where
  orderly : Event.Orderly made events
  counted : p.2.functions = (made ++ Event.ledger events).length
  result : P (made ++ Event.ledger events) p.1

/-- The value, if there is one, has recorded functions only. -/
def Accounted {ε : Type} (made : List Function) (o : Except ε Value) : Prop :=
  ∀ v, o = .ok v → v.Recorded made

theorem logged_of_books {x : Recording Value} (h : ∀ L, made <+: L → Books L (Value.RecordedEq L) x x)
    {p : Except EvalError Value × Registry} {events : List Event} (hx : x r = some (p, events))
    (hr : r.functions = made.length) : Logged made Accounted p events := by
  have hbooked := (h _ (List.prefix_append made (Event.ledger events))).booked hx hr (List.prefix_append ..)
  refine ⟨fun L => ?_, hbooked.counted List.prefix_rfl, fun v hv => ?_⟩
  · by_cases hle : made <+: L
    · exact ((h L hle).booked hx hr hle).orderly
    · exact .of_not_le hle events
  · obtain ⟨w, hvw⟩ := hbooked.result List.prefix_rfl v hv
    exact hvw.only.2

/-- All that happens in an evaluation follows on what had been made before. -/
theorem evaluate_logged (hr : r.functions = made.length) (k : Nat) {scope : Scope} (hscope : Scope.Recorded made scope)
    (e : Expr) : Logged made Accounted ((Registry.evaluate k scope e).run r)
      ((Recording.evaluate k scope e).events r) := by
  refine logged_of_books (fun L hle => Books.read fun r => ?_) (Recording.evaluate_eq k scope e r) hr
  exact recordNode_books r.fuel k 0 scope e fun f hf => (hscope f hf).mono hle

/-- And so in a call. -/
theorem call_logged (hr : r.functions = made.length) {f : Function} (hf : f.Recorded made) {args : List Value}
    (hargs : ∀ g ∈ Value.functionsOfItems args, g.Recorded made) :
    Logged made Accounted ((Registry.call f args).run r) ((Recording.call f args).events r) := by
  refine logged_of_books (fun L hle => Books.read fun r => ?_) (Recording.call_eq f args r) hr
  refine (Books.evaluates (recordNode_books r.fuel)).call ⟨rfl, hf.mono hle⟩ (items_related_of_functions fun g hg => ?_)
  exact (hargs g hg).mono hle

end Registry

end RuleLang
