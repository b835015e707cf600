import Tsz.Syntax.Parser.Literals
import Tsz.Recursion.Sequencing
import Mathlib.Data.List.TakeWhile

/-!
# Constructors with parameter properties

What the printer writes for the body of a constructor, statement by statement, and what a
JavaScript engine does when it runs it.

## Main definitions

* `writeConstructor` — the statements of a constructor with the assignments of its parameter
  properties between them.
* `Engine` — how statements run, as far as constructors depend on it.
* `InitialisedInTime` — every parameter property is assigned once and at the right moment.

## Main results

* `writeConstructor_initialises_iff` — the executions in which the assignments are in time.
-/

namespace Tsz.Emit

open Tsz.Syntax Sequencing Sequencing.Command

/-! ## What is written -/

inductive ModuleFormat
  | commonJs | esModule
deriving DecidableEq, Repr

def exportHasRuntimeProduct (declaration : ExportDeclaration) : Bool :=
  let hasRuntimeSpecifier := declaration.specifiers.any (!·.typeOnly)
  !declaration.typeOnly &&
    (declaration.exportAll || declaration.assignment.isSome || hasRuntimeSpecifier)

def javascriptImportIsEmitted (declaration : ImportDeclaration) : Bool :=
  !declaration.typeOnly && (declaration.sideEffectOnly || declaration.bindings.any (!·.typeOnly))

def javascriptExportIsEmitted (format : ModuleFormat) (declaration : ExportDeclaration) : Bool :=
  exportHasRuntimeProduct declaration &&
    match format with
    | .esModule => declaration.assignment.isNone || declaration.defaultExport
    | .commonJs =>
      declaration.assignment.isSome ||
        declaration.exportAll && declaration.moduleSpecifier.isSome ||
        declaration.specifiers.any (!·.typeOnly)

def javascriptStatementIsEmitted (format : ModuleFormat) (statement : Statement) : Bool :=
  match statement.kind with
  | .import declaration => javascriptImportIsEmitted declaration
  | .export declaration => javascriptExportIsEmitted format declaration
  | .variable declaration => !declaration.declared
  | .function declaration => !declaration.declared && declaration.hasBody
  | .class declaration => !declaration.declared
  | .typeAlias _ | .interface _ | .unknown => false
  | .if .. | .switch .. | .break _ | .continue _ | .return _ | .block _ | .expression _ | .empty =>
    true

/-- A piece of a printed body: an authored statement, or `this.p = p` for a parameter `p`. -/
inductive Emitted
  | statement (statement : Statement)
  | assignment (parameter : Parameter)

def writeJavascriptStatement (format : ModuleFormat) (statement : Statement) : List Emitted :=
  if javascriptStatementIsEmitted format statement then [.statement statement] else []

/-- `write_braced_statements` and `write_function_body`, which differ in the layout. -/
def writeStatements (format : ModuleFormat) (statements : List Statement) : List Emitted :=
  statements.flatMap (writeJavascriptStatement format)

def isProperty (parameter : Parameter) : Bool := parameter.modifiers.any (·.kind.isProperty)

def parameterProperties (parameters : List Parameter) : List Parameter :=
  parameters.filter isProperty

/-- `some` for the directives the printer keeps in front, with `"use strict"` told apart. -/
def directive (statement : Statement) : Option Bool :=
  match statement.kind with
  | .expression ⟨_, _, .literal (.string (.plain value))⟩ => some (value == "use strict")
  | .expression ⟨_, _, .literal (.string (.extended value))⟩ =>
    if value.terminated && !value.containsInvalidEscape &&
        value.cooked.asString == some "use strict" then some true else none
  | _ => none

def isSuperCallStatement (statement : Statement) : Bool :=
  match statement.kind with
  | .expression ⟨_, _, .call ⟨_, _, .identifier name _ _⟩ _ _⟩ => name == "super"
  | _ => false

def writeParameterPropertyAssignments (parameters : List Parameter) : List Emitted :=
  (parameterProperties parameters).map .assignment

/-- The loop over the statements behind the directives. -/
def writeBodyStatements (format : ModuleFormat) (parameters : List Parameter) (derived : Bool) :
    (wroteAssignments : Bool) → List Statement → List Emitted
  | wroteAssignments, [] =>
    if wroteAssignments then [] else writeParameterPropertyAssignments parameters
  | wroteAssignments, statement :: rest =>
    writeJavascriptStatement format statement ++
      if derived && !wroteAssignments && isSuperCallStatement statement then
        writeParameterPropertyAssignments parameters ++
          writeBodyStatements format parameters derived true rest
      else writeBodyStatements format parameters derived wroteAssignments rest

def writeConstructorBody (format : ModuleFormat) (statements : List Statement)
    (parameters : List Parameter) (derived : Bool) : List Emitted :=
  if statements.isEmpty && !parameters.any isProperty then writeStatements format statements
  else
    let directiveCount := (statements.takeWhile (directive · |>.isSome)).length
    writeStatements format (statements.take directiveCount) ++
      (if derived then [] else writeParameterPropertyAssignments parameters) ++
      writeBodyStatements format parameters derived (!derived) (statements.drop directiveCount)

/-- The body of a constructor in `write_javascript_class_member`. -/
def writeConstructor (format : ModuleFormat) (statements : List Statement)
    (parameters : List Parameter) (derived : Bool) : List Emitted :=
  if parameters.any isProperty then writeConstructorBody format statements parameters derived
  else writeStatements format statements

/-! ## How it runs -/

/-- What a `return` hands back. -/
inductive Returned
  | object | undefined | primitive
deriving DecidableEq, Repr

inductive Abrupt
  | returned (value : Returned)
  | thrown
deriving DecidableEq, Repr

/-- What authored code does while it runs: the call of `super` returns and binds `this`, or
anything else. -/
inductive Step
  | superReturned
  | effect
deriving DecidableEq, Repr

/-- What an execution of a printed body shows. -/
inductive Event
  | starts (statement : Statement)
  | step (step : Step)
  | assigned (parameter : Parameter)

/-- The directives at the head of a body, in the sense of JavaScript. -/
def isPrologueDirective (statement : Statement) : Bool :=
  match statement.kind with
  | .expression ⟨_, _, .literal (.string _)⟩ => true
  | _ => false

def directivePrologue (statements : List Statement) : List Statement :=
  statements.takeWhile isPrologueDirective

/-- A JavaScript engine while it runs a constructor. The fields below `assign` are what the
language says about `this` and about two kinds of statements. -/
structure Engine (State : Type) where
  thisBound : State → Bool
  bindParameters : List Parameter → Command State Step Abrupt
  run : Statement → Command State Step Abrupt
  assign : Parameter → Command State Step Abrupt
  /-- `this` is bound once, when a call of `super` returns, and stays bound. -/
  run_binds : ∀ statement s o, run statement s = some o →
    o.events.count .superReturned + (thisBound s).toNat = (thisBound o.state).toNat
  bindParameters_binds : ∀ parameters s o, bindParameters parameters s = some o →
    o.events.count .superReturned + (thisBound s).toNat = (thisBound o.state).toNat
  bindParameters_abrupt : ∀ parameters s o, bindParameters parameters s = some o →
    ∀ value, o.abrupt ≠ some (.returned value)
  /-- The steps of a setter are part of the assignment. -/
  assign_binds : ∀ parameter s o, assign parameter s = some o →
    thisBound s = thisBound o.state
  assign_abrupt : ∀ parameter s o, assign parameter s = some o →
    ∀ value, o.abrupt ≠ some (.returned value)
  run_directive : ∀ statement, isPrologueDirective statement = true → ∀ s,
    run statement s = some ⟨[], none, s⟩
  /-- The call is the last thing a statement `super(…);` does, and it does not return from the
  constructor. -/
  run_superCall : ∀ statement, isSuperCallStatement statement = true → ∀ s o,
    run statement s = some o →
      o.abrupt = some .thrown ∨ o.abrupt = none ∧ ∃ before, o.events = before ++ [.superReturned]

namespace Engine

variable {State : Type} (engine : Engine State)

def perform : Emitted → Command State Event Abrupt
  | .statement statement => fun s => (engine.run statement s).map fun o =>
      ⟨.starts statement :: o.events.map .step, o.abrupt, o.state⟩
  | .assignment parameter => fun s => (engine.assign parameter s).map fun o =>
      ⟨if o.abrupt.isNone then [.assigned parameter] else [], o.abrupt, o.state⟩

/-- The parameters are bound, then the body runs. -/
def construct (parameters : List Parameter) (body : List Emitted) : Command State Event Abrupt :=
  andThen
    (fun s => (engine.bindParameters parameters s).map fun o =>
      ⟨o.events.map .step, o.abrupt, o.state⟩)
    (sequence (body.map engine.perform))

/-- Whether `new` hands back an object after this outcome. -/
def completesNormally (derived : Bool) (o : Outcome State Event Abrupt) : Bool :=
  match o.abrupt with
  | none | some (.returned .undefined) => engine.thisBound o.state
  | some (.returned .object) => true
  | some (.returned .primitive) => !derived && engine.thisBound o.state
  | some .thrown => false

end Engine

def Event.isSuperReturned : Event → Bool
  | .step .superReturned => true
  | _ => false

def Event.startedStatement : Event → Option Statement
  | .starts statement => some statement
  | _ => none

def Event.assignedParameter : Event → Option Parameter
  | .assigned parameter => some parameter
  | _ => none

@[simp] theorem Event.startedStatement_step (step : Step) :
    (Event.step step).startedStatement = none := rfl

@[simp] theorem Event.startedStatement_starts (statement : Statement) :
    (Event.starts statement).startedStatement = some statement := rfl

@[simp] theorem Event.assignedParameter_step (step : Step) :
    (Event.step step).assignedParameter = none := rfl

@[simp] theorem Event.assignedParameter_starts (statement : Statement) :
    (Event.starts statement).assignedParameter = none := rfl

@[simp] theorem Event.assignedParameter_assigned (parameter : Parameter) :
    (Event.assigned parameter).assignedParameter = some parameter := rfl

/-- What is asked of one execution: behind the steps of the parameters come the directives; every
property is assigned once; and this happens right behind the directives in a base class and right
behind the return of `super` in a derived one. -/
structure InitialisedInTime (derived : Bool) (parameters : List Parameter)
    (statements : List Statement) (trace : List Event) : Prop where
  directives : ∃ bound : List Step, ∃ rest, trace =
    bound.map .step ++ (directivePrologue statements).map .starts ++ rest ∧
      (derived = false →
        (parameterProperties parameters).map .assigned <+: rest)
  once : trace.filterMap Event.assignedParameter = parameterProperties parameters
  afterSuper : derived = true → ∃ before after,
    trace = before ++ .step .superReturned :: (parameterProperties parameters).map .assigned ++
      after ∧ .step .superReturned ∉ before ∧ .step .superReturned ∉ after

/-- The execution gets past the first top-level statement `super(…);`. -/
def PassesSuperCall {State : Type} (engine : Engine State) (format : ModuleFormat)
    (parameters : List Parameter) (statements : List Statement) (s : State) : Prop :=
  ∃ before call after o, statements = before ++ call :: after ∧
    isSuperCallStatement call = true ∧ (∀ x ∈ before, isSuperCallStatement x = false) ∧
    engine.construct parameters (writeStatements format (before ++ [call])) s = some o ∧
    o.abrupt = none

/-- There is no such statement, and the body falls off its end just when `super` returns. -/
def EndsInSuperCall {State : Type} (engine : Engine State) (format : ModuleFormat)
    (parameters : List Parameter) (statements : List Statement) (s : State) : Prop :=
  (∀ x ∈ statements, isSuperCallStatement x = false) ∧
    ∃ o before, engine.construct parameters (writeStatements format statements) s = some o ∧
      o.abrupt = none ∧ o.events = before ++ [.step .superReturned]

/-! ## The order of what is written -/

section Order

variable (format : ModuleFormat) (parameters : List Parameter)

theorem writeStatements_append (xs ys : List Statement) :
    writeStatements format (xs ++ ys) = writeStatements format xs ++ writeStatements format ys :=
  List.flatMap_append

theorem writeBodyStatements_true (derived : Bool) (statements : List Statement) :
    writeBodyStatements format parameters derived true statements =
      writeStatements format statements := by
  induction statements with
  | nil => rfl
  | cons statement rest ih => simp [writeBodyStatements, writeStatements, ih]

theorem writeBodyStatements_append {before : List Statement}
    (h : ∀ x ∈ before, isSuperCallStatement x = false) (derived wrote : Bool)
    (rest : List Statement) :
    writeBodyStatements format parameters derived wrote (before ++ rest) =
      writeStatements format before ++ writeBodyStatements format parameters derived wrote rest := by
  induction before with
  | nil => rfl
  | cons x before ih =>
    have hx := h x List.mem_cons_self
    have htail := ih fun y hy => h y (List.mem_cons_of_mem x hy)
    simp [writeBodyStatements, writeStatements, hx, htail]

variable {parameters}

theorem take_directives (statements : List Statement) :
    statements.take (statements.takeWhile (directive · |>.isSome)).length =
      statements.takeWhile (directive · |>.isSome) :=
  (List.prefix_iff_eq_take.mp (List.takeWhile_prefix _)).symm

theorem drop_directives (statements : List Statement) :
    statements.drop (statements.takeWhile (directive · |>.isSome)).length =
      statements.dropWhile (directive · |>.isSome) := by
  have happ : (statements.takeWhile (directive · |>.isSome) ++
      statements.dropWhile (directive · |>.isSome)).drop
        (statements.takeWhile (directive · |>.isSome)).length =
      statements.dropWhile (directive · |>.isSome) := List.drop_left
  rwa [List.takeWhile_append_dropWhile] at happ

theorem writeConstructor_base (hp : parameters.any isProperty = true)
    (statements : List Statement) :
    writeConstructor format statements parameters false =
      writeStatements format (statements.takeWhile (directive · |>.isSome)) ++
        (writeParameterPropertyAssignments parameters ++
          writeStatements format (statements.dropWhile (directive · |>.isSome))) := by
  simp [writeConstructor, writeConstructorBody, hp, take_directives, drop_directives,
    writeBodyStatements_true]

theorem not_isSuperCallStatement_of_directive {statement : Statement}
    (h : (directive statement).isSome = true) : isSuperCallStatement statement = false := by
  unfold directive at h
  unfold isSuperCallStatement
  split at h <;> simp_all

theorem writeConstructor_derived (hp : parameters.any isProperty = true)
    (statements : List Statement) :
    writeConstructor format statements parameters true =
      writeBodyStatements format parameters true false statements := by
  have hdirectives : ∀ x ∈ statements.takeWhile (directive · |>.isSome),
      isSuperCallStatement x = false := fun x hx =>
    not_isSuperCallStatement_of_directive
      (List.mem_takeWhile_imp (p := (directive · |>.isSome)) hx)
  have hloop := writeBodyStatements_append format parameters hdirectives true false
    (statements.dropWhile (directive · |>.isSome))
  rw [List.takeWhile_append_dropWhile] at hloop
  simp [writeConstructor, writeConstructorBody, hp, take_directives, drop_directives, hloop]

/-- Without a top-level `super(…);` the assignments stand at the end. -/
theorem writeConstructor_noSuper (hp : parameters.any isProperty = true)
    {statements : List Statement} (h : ∀ x ∈ statements, isSuperCallStatement x = false) :
    writeConstructor format statements parameters true =
      writeStatements format statements ++ writeParameterPropertyAssignments parameters := by
  have hloop := writeBodyStatements_append format parameters h true false []
  rw [List.append_nil] at hloop
  simpa [writeConstructor_derived format hp, writeBodyStatements] using hloop

theorem writeConstructor_super (hp : parameters.any isProperty = true)
    {before after : List Statement} {call : Statement} (hcall : isSuperCallStatement call = true)
    (h : ∀ x ∈ before, isSuperCallStatement x = false) :
    writeConstructor format (before ++ call :: after) parameters true =
      writeStatements format (before ++ [call]) ++
        (writeParameterPropertyAssignments parameters ++ writeStatements format after) := by
  have hloop := writeBodyStatements_append format parameters h true false (call :: after)
  rw [writeConstructor_derived format hp, hloop]
  simp [writeBodyStatements, hcall, writeBodyStatements_true, writeStatements]

end Order

/-! ## What the pieces do when they run -/

section Runs

variable {State : Type} (engine : Engine State) {format : ModuleFormat}
  {parameters : List Parameter}

theorem construct_append (body rest : List Emitted) :
    engine.construct parameters (body ++ rest) =
      andThen (engine.construct parameters body) (sequence (rest.map engine.perform)) := by
  rw [Engine.construct, Engine.construct, List.map_append, sequence_append, andThen_assoc]

variable {engine}

/-- A run of printed code is broken off in its first part, or goes on with the second one. -/
theorem construct_append_eq_some {body rest : List Emitted} {s : State}
    {o : Outcome State Event Abrupt} :
    engine.construct parameters (body ++ rest) s = some o ↔
      (engine.construct parameters body s = some o ∧ o.abrupt ≠ none) ∨
        ∃ m r, engine.construct parameters body s = some m ∧ m.abrupt = none ∧
          sequence (rest.map engine.perform) m.state = some r ∧
          o = ⟨m.events ++ r.events, r.abrupt, r.state⟩ := by
  rw [construct_append, andThen_eq_some]

theorem assigned_perform_statement {statement : Statement} {s : State}
    {o : Outcome State Event Abrupt} (h : engine.perform (.statement statement) s = some o) :
    o.events.filterMap Event.assignedParameter = [] := by
  simp only [Engine.perform, Option.map_eq_some_iff] at h
  obtain ⟨r, -, rfl⟩ := h
  simp [Event.assignedParameter]

theorem exists_of_mem_writeStatements {statements : List Statement} {emitted : Emitted}
    (h : emitted ∈ writeStatements format statements) : ∃ x, emitted = .statement x := by
  simp only [writeStatements, writeJavascriptStatement, List.mem_flatMap] at h
  obtain ⟨x, -, hx⟩ := h
  split at hx
  · exact ⟨x, by simpa using hx⟩
  · simp at hx

/-- Authored statements assign no property of a parameter. -/
theorem assigned_statements {statements : List Statement} {s : State}
    {o : Outcome State Event Abrupt}
    (h : sequence ((writeStatements format statements).map engine.perform) s = some o) :
    o.events.filterMap Event.assignedParameter = [] := by
  refine sequence_induct (P := fun _ o => o.events.filterMap Event.assignedParameter = []) ?_ ?_ ?_ h
  · intro s
    rfl
  · intro c hc s o ho
    obtain ⟨emitted, he, rfl⟩ := List.mem_map.mp hc
    obtain ⟨x, rfl⟩ := exists_of_mem_writeStatements he
    exact assigned_perform_statement ho
  · intro s m r hm hr
    simp [hm, hr]

theorem assigned_construct {statements : List Statement} {s : State}
    {o : Outcome State Event Abrupt}
    (h : engine.construct parameters (writeStatements format statements) s = some o) :
    o.events.filterMap Event.assignedParameter = [] := by
  have hbound : ∀ b : List Step, (b.map Event.step).filterMap Event.assignedParameter = [] := by
    intro b
    simp [Event.assignedParameter, Function.comp_def]
  obtain ⟨hb, -⟩ | ⟨m, r, hb, -, hr, rfl⟩ := andThen_eq_some.mp h
  · obtain ⟨b, -, rfl⟩ := Option.map_eq_some_iff.mp hb
    exact hbound b.events
  · obtain ⟨b, -, rfl⟩ := Option.map_eq_some_iff.mp hb
    simp [hbound, assigned_statements hr]

/-- Assignments that are not broken off assign every property, in order. -/
theorem events_assignments {s : State} {o : Outcome State Event Abrupt}
    (h : sequence ((writeParameterPropertyAssignments parameters).map engine.perform) s = some o)
    (hn : o.abrupt = none) :
    o.events = (parameterProperties parameters).map .assigned := by
  rw [writeParameterPropertyAssignments, List.map_map] at h
  have hone : ∀ parameter ∈ parameterProperties parameters, ∀ s o,
      (engine.perform ∘ Emitted.assignment) parameter s = some o → o.abrupt = none →
        o.events = [.assigned parameter] := by
    intro parameter _ s o ho hn
    obtain ⟨r, -, rfl⟩ := Option.map_eq_some_iff.mp ho
    have hr : r.abrupt = none := hn
    simp [hr]
  rw [sequence_events hone h hn]
  exact List.map_eq_flatMap.symm

/-- Assignments do not return from the constructor. -/
theorem thrown_of_assignments {s : State}
    {o : Outcome State Event Abrupt}
    (h : sequence ((writeParameterPropertyAssignments parameters).map engine.perform) s = some o)
    (hn : o.abrupt ≠ none) : o.abrupt = some .thrown := by
  have hreturns : ∀ value, o.abrupt ≠ some (.returned value) := by
    refine sequence_induct (P := fun _ o => ∀ value, o.abrupt ≠ some (.returned value)) ?_ ?_ ?_ h
    · intro s value
      simp
    · intro c hc s o ho
      simp only [writeParameterPropertyAssignments, List.map_map, List.mem_map] at hc
      obtain ⟨parameter, -, rfl⟩ := hc
      obtain ⟨r, hr, rfl⟩ := Option.map_eq_some_iff.mp ho
      exact engine.assign_abrupt parameter s r hr
    · intro s m r _ hr
      exact hr
  cases ho : o.abrupt with
  | none => exact absurd ho hn
  | some abrupt =>
    cases abrupt with
    | returned value => exact absurd ho (hreturns value)
    | thrown => rfl

theorem not_completes_of_thrown {derived : Bool} {o : Outcome State Event Abrupt}
    (h : o.abrupt = some .thrown) : engine.completesNormally derived o = false := by
  simp [Engine.completesNormally, h]

theorem isPrologueDirective_of_directive {statement : Statement}
    (h : (directive statement).isSome = true) : isPrologueDirective statement = true := by
  unfold directive at h
  unfold isPrologueDirective
  split at h <;> simp_all

theorem emitted_of_isPrologueDirective {statement : Statement}
    (h : isPrologueDirective statement = true) :
    writeJavascriptStatement format statement = [.statement statement] := by
  unfold isPrologueDirective at h
  split at h
  · rename_i hk
    simp [writeJavascriptStatement, javascriptStatementIsEmitted, hk]
  · simp at h

/-- Directives start and do nothing else. -/
theorem run_directives {statements : List Statement}
    (h : ∀ x ∈ statements, isPrologueDirective x = true) (s : State) :
    sequence ((writeStatements format statements).map engine.perform) s =
      some ⟨statements.map .starts, none, s⟩ := by
  have hwritten : writeStatements format statements = statements.map .statement := by
    rw [writeStatements, List.map_eq_flatMap]
    exact List.flatMap_congr fun x hx => emitted_of_isPrologueDirective (h x hx)
  rw [hwritten, List.map_map]
  have hone : ∀ x ∈ statements, (engine.perform ∘ Emitted.statement) x s =
      some ⟨[.starts x], none, s⟩ := by
    intro x hx
    simp [Engine.perform, engine.run_directive x (h x hx) s]
  rw [sequence_silent hone, List.map_eq_flatMap]

theorem countP_step (steps : List Step) :
    steps.countP (Event.isSuperReturned ∘ Event.step) = steps.count .superReturned := by
  rw [List.count]
  congr 1
  funext step
  cases step <;> rfl

/-- `super` returns at most once, which binds `this`. -/
theorem countP_superReturned {body : List Emitted} {s : State}
    {o : Outcome State Event Abrupt} (h : engine.construct parameters body s = some o) :
    o.events.countP Event.isSuperReturned + (engine.thisBound s).toNat =
      (engine.thisBound o.state).toNat := by
  have hbody : ∀ s o, sequence (body.map engine.perform) s = some o →
      o.events.countP Event.isSuperReturned + (engine.thisBound s).toNat =
        (engine.thisBound o.state).toNat := by
    intro s o h
    refine sequence_induct (P := fun s o => o.events.countP Event.isSuperReturned +
      (engine.thisBound s).toNat = (engine.thisBound o.state).toNat) ?_ ?_ ?_ h
    · intro s
      simp
    · intro c hc s o ho
      obtain ⟨emitted, -, rfl⟩ := List.mem_map.mp hc
      cases emitted with
      | statement statement =>
        obtain ⟨r, hr, rfl⟩ := Option.map_eq_some_iff.mp ho
        simpa [countP_step, Event.isSuperReturned] using engine.run_binds statement s r hr
      | assignment parameter =>
        obtain ⟨r, hr, rfl⟩ := Option.map_eq_some_iff.mp ho
        have hbound := engine.assign_binds parameter s r hr
        cases ha : r.abrupt <;> simp [Event.isSuperReturned, hbound]
    · intro s m r hm hr
      simp only [List.countP_append]
      omega
  obtain ⟨hfirst, -⟩ | ⟨m, r, hfirst, -, hr, rfl⟩ := andThen_eq_some.mp h
  · obtain ⟨b, hb, rfl⟩ := Option.map_eq_some_iff.mp hfirst
    simpa [countP_step] using engine.bindParameters_binds parameters s b hb
  · obtain ⟨b, hb, rfl⟩ := Option.map_eq_some_iff.mp hfirst
    have hparameters := engine.bindParameters_binds parameters s b hb
    have hrest := hbody b.state r hr
    simp only [List.countP_append, List.countP_map, countP_step]
    omega

end Runs

/-! ## The two kinds of classes -/

section Initialisation

variable {State : Type} {engine : Engine State} {format : ModuleFormat}
  {parameters : List Parameter} {statements : List Statement} {s : State}
  {o : Outcome State Event Abrupt}

theorem properties_ne_nil (hp : parameters.any isProperty = true) :
    parameterProperties parameters ≠ [] := by
  simp only [List.any_eq_true] at hp
  obtain ⟨parameter, hmem, hproperty⟩ := hp
  exact List.ne_nil_of_mem (List.mem_filter.mpr ⟨hmem, hproperty⟩)

/-- A constructor that completes binds its parameters and starts the directives at its head. -/
theorem trace_directives {derived : Bool} {directives : List Statement} {body : List Emitted}
    (h : ∀ x ∈ directives, isPrologueDirective x = true)
    (ho : engine.construct parameters (writeStatements format directives ++ body) s = some o)
    (hn : engine.completesNormally derived o = true) :
    ∃ (bound : List Step) (t : State) (r : Outcome State Event Abrupt),
      sequence (body.map engine.perform) t = some r ∧
      o = ⟨bound.map .step ++ directives.map .starts ++ r.events, r.abrupt, r.state⟩ := by
  obtain ⟨hfirst, hne⟩ | ⟨m, r, hfirst, hm, hr, rfl⟩ := andThen_eq_some.mp ho
  · obtain ⟨b, hb, rfl⟩ := Option.map_eq_some_iff.mp hfirst
    cases ha : b.abrupt with
    | none => exact absurd ha hne
    | some abrupt =>
      cases abrupt with
      | returned value => exact absurd ha (engine.bindParameters_abrupt parameters s b hb value)
      | thrown => simp [Engine.completesNormally, ha] at hn
  · obtain ⟨b, hb, rfl⟩ := Option.map_eq_some_iff.mp hfirst
    rw [List.map_append, sequence_append_eq_some, run_directives h] at hr
    obtain ⟨hd, hne⟩ | ⟨d, t, hd, -, ht, rfl⟩ := hr
    · cases hd
      exact absurd rfl hne
    · cases hd
      exact ⟨b.events, b.state, t, ht, by simp⟩

/-! ### Base classes -/

/-- What a base class does: the parameters, the directives that are kept in front, the
assignments, everything else. -/
theorem trace_base
    (ho : engine.construct parameters (writeConstructor format statements parameters false) s =
      some o) (hp : parameters.any isProperty = true)
    (hn : engine.completesNormally false o = true) :
    ∃ (bound : List Step) (rest : List Event),
      o.events = bound.map .step ++ (statements.takeWhile (directive · |>.isSome)).map .starts ++
        ((parameterProperties parameters).map .assigned ++ rest) ∧
      rest.filterMap Event.assignedParameter = [] := by
  rw [writeConstructor_base format hp] at ho
  obtain ⟨bound, t, r, hr, rfl⟩ := trace_directives (fun x hx =>
    isPrologueDirective_of_directive
      (List.mem_takeWhile_imp (p := (directive · |>.isSome)) hx)) ho hn
  rw [List.map_append, sequence_append_eq_some] at hr
  obtain ⟨h, hne⟩ | ⟨a, rest, h, ha, hrest, rfl⟩ := hr
  · have hthrown := thrown_of_assignments h hne
    simp [Engine.completesNormally, hthrown] at hn
  · refine ⟨bound, rest.events, ?_, assigned_statements hrest⟩
    simp [events_assignments h ha]

/-- Up to the first assignment, the trace of a base class shows its leading directives. -/
theorem started_before_assigned (hp : parameterProperties parameters ≠ [])
    (bound : List Step) (directives : List Statement) {rest : List Event}
    (hrest : (parameterProperties parameters).map .assigned <+: rest) :
    ((bound.map Event.step ++ directives.map Event.starts ++ rest).takeWhile
      fun e => e.assignedParameter.isNone).filterMap Event.startedStatement = directives := by
  obtain ⟨tail, rfl⟩ := hrest
  obtain ⟨parameter, others, hcons⟩ := List.exists_cons_of_ne_nil hp
  have hbefore : ∀ e ∈ bound.map Event.step ++ directives.map .starts,
      e.assignedParameter.isNone = true := by
    intro e he
    rcases List.mem_append.mp he with he | he <;>
      obtain ⟨x, -, rfl⟩ := List.mem_map.mp he <;> rfl
  rw [List.takeWhile_append_of_pos hbefore, hcons]
  simp [Function.comp_def]

/-- The directives kept in front are all of them if none is left out. -/
theorem takeWhile_directive_eq
    (h : ∀ x ∈ directivePrologue statements, (directive x).isSome = true) :
    statements.takeWhile (directive · |>.isSome) = directivePrologue statements := by
  have hself := List.takeWhile_eq_self_iff.mpr h
  rw [directivePrologue, List.takeWhile_takeWhile] at hself
  rw [directivePrologue, ← hself]
  congr 1
  funext x
  have hx : (directive x).isSome = true → isPrologueDirective x = true :=
    isPrologueDirective_of_directive
  grind

theorem initialisedInTime_base_iff (hp : parameters.any isProperty = true)
    (ho : engine.construct parameters (writeConstructor format statements parameters false) s =
      some o) (hn : engine.completesNormally false o = true) :
    InitialisedInTime false parameters statements o.events ↔
      ∀ x ∈ directivePrologue statements, (directive x).isSome = true := by
  obtain ⟨bound, rest, htrace, hrest⟩ := trace_base ho hp hn
  have hne := properties_ne_nil hp
  have hkept := started_before_assigned hne bound
    (statements.takeWhile (directive · |>.isSome))
    (List.prefix_append ((parameterProperties parameters).map .assigned) rest)
  rw [← htrace] at hkept
  constructor
  · intro h x hx
    obtain ⟨bound', rest', htrace', hassigned⟩ := h.directives
    have hprologue := started_before_assigned hne bound' (directivePrologue statements)
      (hassigned rfl)
    rw [← htrace', hkept] at hprologue
    rw [← hprologue] at hx
    exact List.mem_takeWhile_imp (p := (directive · |>.isSome)) hx
  · intro h
    rw [takeWhile_directive_eq h] at htrace
    refine ⟨⟨bound, (parameterProperties parameters).map .assigned ++ rest, htrace, ?_⟩, ?_, ?_⟩
    · intro _
      exact List.prefix_append _ _
    · simp [htrace, hrest, Function.comp_def]
    · simp

/-! ### Derived classes -/

theorem not_isSuperCallStatement_of_isPrologueDirective {statement : Statement}
    (h : isPrologueDirective statement = true) : isSuperCallStatement statement = false := by
  unfold isPrologueDirective at h
  unfold isSuperCallStatement
  split at h <;> simp_all

theorem trace_derived (hp : parameters.any isProperty = true)
    (ho : engine.construct parameters (writeConstructor format statements parameters true) s =
      some o) (hn : engine.completesNormally true o = true) :
    ∃ (bound : List Step) (rest : List Event),
      o.events = bound.map .step ++ (directivePrologue statements).map .starts ++ rest := by
  have hdirectives : ∀ x ∈ directivePrologue statements, isPrologueDirective x = true :=
    fun x hx => List.mem_takeWhile_imp hx
  have hloop := writeBodyStatements_append format parameters
    (fun x hx => not_isSuperCallStatement_of_isPrologueDirective (hdirectives x hx)) true false
    (statements.dropWhile isPrologueDirective)
  rw [directivePrologue, List.takeWhile_append_dropWhile] at hloop
  rw [writeConstructor_derived format hp, hloop] at ho
  obtain ⟨bound, t, r, -, rfl⟩ := trace_directives hdirectives ho hn
  exact ⟨bound, r.events, rfl⟩

/-- In a derived class no other call of `super` returns beside one that does. -/
theorem superReturned_once (hs : engine.thisBound s = false) {body : List Emitted}
    (ho : engine.construct parameters body s = some o) {before after : List Event}
    (h : o.events = before ++ .step .superReturned :: after) :
    .step .superReturned ∉ before ∧ .step .superReturned ∉ after := by
  have hcount := countP_superReturned ho
  have hle : (engine.thisBound o.state).toNat ≤ 1 := Bool.toNat_le _
  have hcall : (Event.step .superReturned).isSuperReturned = true := rfl
  simp only [h, hs, List.countP_append, List.countP_cons, hcall, Bool.toNat_false, if_true]
    at hcount
  have hbefore : before.countP Event.isSuperReturned = 0 := by omega
  have hafter : after.countP Event.isSuperReturned = 0 := by omega
  rw [List.countP_eq_zero] at hbefore hafter
  exact ⟨fun hmem => hbefore _ hmem hcall, fun hmem => hafter _ hmem hcall⟩

theorem events_superCallStatement {call : Statement} (hcall : isSuperCallStatement call = true)
    (ho : sequence ((writeStatements format [call]).map engine.perform) s = some o)
    (hn : o.abrupt = none) : ∃ start, o.events = start ++ [.step .superReturned] := by
  have hemitted : javascriptStatementIsEmitted format call = true := by
    unfold isSuperCallStatement at hcall
    split at hcall
    · rename_i hk
      simp [javascriptStatementIsEmitted, hk]
    · simp at hcall
  simp only [writeStatements, writeJavascriptStatement, List.flatMap_cons, List.flatMap_nil,
    hemitted, if_true, List.append_nil, List.map_cons, List.map_nil, Command.sequence] at ho
  obtain ⟨-, hne⟩ | ⟨m, r, hm, hmn, hr, rfl⟩ := andThen_eq_some.mp ho
  · exact absurd hn hne
  cases hr
  obtain ⟨b, hb, rfl⟩ := Option.map_eq_some_iff.mp hm
  obtain hthrown | ⟨-, before, hbefore⟩ := engine.run_superCall call hcall s b hb
  · simp [hthrown] at hmn
  · exact ⟨.starts call :: before.map .step, by simp [hbefore]⟩

theorem initialisedInTime_of_passesSuperCall (hp : parameters.any isProperty = true)
    (hs : engine.thisBound s = false)
    (ho : engine.construct parameters (writeConstructor format statements parameters true) s =
      some o) (hn : engine.completesNormally true o = true)
    (h : PassesSuperCall engine format parameters statements s) :
    InitialisedInTime true parameters statements o.events := by
  obtain ⟨bound, rest, htrace⟩ := trace_derived hp ho hn
  obtain ⟨before, call, after, m, rfl, hcall, hbefore, hm, hmn⟩ := h
  have hrun := ho
  rw [writeConstructor_super format hp hcall hbefore] at hrun
  obtain ⟨hbroken, hne⟩ | ⟨m', r, hm', -, hr, ho'⟩ := construct_append_eq_some.mp hrun
  · rw [hm] at hbroken
    cases hbroken
    exact absurd hmn hne
  rw [hm] at hm'
  cases hm'
  -- The statement in front of the assignments ends in the return of `super`.
  have hsuper : ∃ start, m.events = start ++ [.step .superReturned] := by
    rw [writeStatements_append] at hm
    obtain ⟨-, hne⟩ | ⟨x, y, -, -, hy, rfl⟩ := construct_append_eq_some.mp hm
    · exact absurd hmn hne
    obtain ⟨start, hstart⟩ := events_superCallStatement hcall hy hmn
    exact ⟨x.events ++ start, by simp [hstart]⟩
  obtain ⟨start, hstart⟩ := hsuper
  rw [List.map_append, sequence_append_eq_some] at hr
  obtain ⟨hbroken, hne⟩ | ⟨a, t, ha, han, ht, rfl⟩ := hr
  · have hthrown := thrown_of_assignments hbroken hne
    simp [Engine.completesNormally, ho', hthrown] at hn
  have hevents : o.events = start ++ .step .superReturned ::
      ((parameterProperties parameters).map .assigned ++ t.events) := by
    simp [ho', hstart, events_assignments ha han]
  have hcalls := superReturned_once hs ho hevents
  refine ⟨⟨bound, rest, htrace, by simp⟩, ?_, ?_⟩
  · simp [ho', assigned_construct hm, events_assignments ha han, assigned_statements ht,
      Function.comp_def]
  · intro _
    refine ⟨start, t.events, by simp [hevents], hcalls.1, ?_⟩
    intro hmem
    exact hcalls.2 (List.mem_append_right _ hmem)

theorem initialisedInTime_of_endsInSuperCall (hp : parameters.any isProperty = true)
    (hs : engine.thisBound s = false)
    (ho : engine.construct parameters (writeConstructor format statements parameters true) s =
      some o) (hn : engine.completesNormally true o = true)
    (h : EndsInSuperCall engine format parameters statements s) :
    InitialisedInTime true parameters statements o.events := by
  obtain ⟨bound, rest, htrace⟩ := trace_derived hp ho hn
  obtain ⟨hnone, m, before, hm, hmn, hlast⟩ := h
  have hrun := ho
  rw [writeConstructor_noSuper format hp hnone] at hrun
  obtain ⟨hbroken, hne⟩ | ⟨m', a, hm', -, ha, ho'⟩ := construct_append_eq_some.mp hrun
  · rw [hm] at hbroken
    cases hbroken
    exact absurd hmn hne
  rw [hm] at hm'
  cases hm'
  have han : a.abrupt = none := by
    by_contra hne
    have hthrown := thrown_of_assignments ha hne
    simp [Engine.completesNormally, ho', hthrown] at hn
  have hevents : o.events = before ++ .step .superReturned ::
      (parameterProperties parameters).map .assigned := by
    simp [ho', hlast, events_assignments ha han]
  have hcalls := superReturned_once hs ho hevents
  refine ⟨⟨bound, rest, htrace, by simp⟩, ?_, ?_⟩
  · simp [ho', assigned_construct hm, events_assignments ha han, Function.comp_def]
  · intro _
    exact ⟨before, [], by simp [hevents], hcalls.1, by simp⟩

/-- A trace that ends in the assignments has `super` return right before them. -/
theorem endsWith_superReturned (hp : parameterProperties parameters ≠ [])
    {trace before after : List Event}
    (htrace : trace.filterMap Event.assignedParameter = [])
    (h : trace ++ (parameterProperties parameters).map .assigned =
      before ++ .step .superReturned :: (parameterProperties parameters).map .assigned ++ after) :
    trace = before ++ [.step .superReturned] := by
  have hcount := congrArg (fun l => (l.filterMap Event.assignedParameter).length) h
  simp only [List.filterMap_append, List.filterMap_map, List.filterMap_cons, htrace,
    List.length_append, Function.comp_def, Event.assignedParameter_assigned,
    Event.assignedParameter_step, List.filterMap_some, List.nil_append] at hcount
  have hafter : after.filterMap Event.assignedParameter = [] := by
    rw [← List.length_eq_zero_iff]
    omega
  have hnil : after = [] := by
    by_contra hne
    have hlast := congrArg List.getLast? h
    rw [List.getLast?_append_of_ne_nil _ (by simpa using hp),
      List.getLast?_append_of_ne_nil _ hne, List.getLast?_map, List.getLast?_eq_some_getLast hp,
      List.getLast?_eq_some_getLast hne] at hlast
    have hnot := List.filterMap_eq_nil_iff.mp hafter _ (List.getLast_mem hne)
    rw [← Option.some.inj hlast] at hnot
    simp at hnot
  subst hnil
  have hshift : before ++ Event.step .superReturned ::
      (parameterProperties parameters).map .assigned ++ [] =
      (before ++ [.step .superReturned]) ++ (parameterProperties parameters).map .assigned := by
    simp
  rw [hshift] at h
  exact List.append_cancel_right h

theorem superCall_of_initialisedInTime (hp : parameters.any isProperty = true)
    (ho : engine.construct parameters (writeConstructor format statements parameters true) s =
      some o) (hn : engine.completesNormally true o = true)
    (h : InitialisedInTime true parameters statements o.events) :
    PassesSuperCall engine format parameters statements s ∨
      EndsInSuperCall engine format parameters statements s := by
  have hne := properties_ne_nil hp
  have honce := h.once
  cases hfind : statements.find? isSuperCallStatement with
  | some call =>
    obtain ⟨hcall, before, after, rfl, hbefore⟩ := List.find?_eq_some_iff_append.mp hfind
    have hbefore' : ∀ x ∈ before, isSuperCallStatement x = false := fun x hx => by
      simpa using hbefore x hx
    rw [writeConstructor_super format hp hcall hbefore'] at ho
    obtain ⟨hbroken, -⟩ | ⟨m, r, hm, hmn, -, -⟩ := construct_append_eq_some.mp ho
    · rw [assigned_construct hbroken] at honce
      exact absurd honce.symm hne
    · exact Or.inl ⟨before, call, after, m, rfl, hcall, hbefore', hm, hmn⟩
  | none =>
    have hnone : ∀ x ∈ statements, isSuperCallStatement x = false := fun x hx => by
      simpa using List.find?_eq_none.mp hfind x hx
    rw [writeConstructor_noSuper format hp hnone] at ho
    obtain ⟨hbroken, -⟩ | ⟨m, a, hm, hmn, ha, ho'⟩ := construct_append_eq_some.mp ho
    · rw [assigned_construct hbroken] at honce
      exact absurd honce.symm hne
    · have han : a.abrupt = none := by
        by_contra hthrows
        have hthrown := thrown_of_assignments ha hthrows
        simp [Engine.completesNormally, ho', hthrown] at hn
      obtain ⟨before, after, htrace, -, -⟩ := h.afterSuper rfl
      simp only [ho', events_assignments ha han] at htrace
      exact Or.inr ⟨hnone, m, before, hm, hmn,
        endsWith_superReturned hne (assigned_construct hm) htrace⟩

/-- The assignments of a constructor's parameter properties are in time in just the executions in
which the printer has found their place: in a base class, if it keeps every directive in front of
them; in a derived one, if the execution gets past a statement `super(…);` of the body itself, or
there is none and `super` returns as the last thing before the end of the body. -/
theorem writeConstructor_initialises_iff {State : Type} (engine : Engine State)
    (format : ModuleFormat) (derived : Bool) (parameters : List Parameter)
    (statements : List Statement) (hp : parameters.any isProperty = true) (s : State)
    (hs : engine.thisBound s = !derived) (o : Outcome State Event Abrupt)
    (ho : engine.construct parameters (writeConstructor format statements parameters derived) s =
      some o) (hn : engine.completesNormally derived o = true) :
    InitialisedInTime derived parameters statements o.events ↔
      if derived then
        PassesSuperCall engine format parameters statements s ∨
          EndsInSuperCall engine format parameters statements s
      else ∀ x ∈ directivePrologue statements, (directive x).isSome = true := by
  cases derived with
  | false => exact initialisedInTime_base_iff hp ho hn
  | true =>
    constructor
    · exact superCall_of_initialisedInTime hp ho hn
    · rintro (h | h)
      · exact initialisedInTime_of_passesSuperCall hp hs ho hn h
      · exact initialisedInTime_of_endsInSuperCall hp hs ho hn h

end Initialisation

/-! ### Two constructors -/

section Constructors

/-- An engine for bodies of calls, with `super(…);` on its own or in a block. -/
def callEngine : Engine Bool where
  thisBound := id
  bindParameters _ bound := some ⟨[], none, bound⟩
  run statement bound :=
    if isPrologueDirective statement then some ⟨[], none, bound⟩
    else if isSuperCallStatement statement || blockCallsSuper statement then
      if bound then some ⟨[.effect], some .thrown, bound⟩
      else some ⟨[.effect, .superReturned], none, true⟩
    else some ⟨[.effect], none, bound⟩
  assign _ bound := if bound then some ⟨[], none, bound⟩ else some ⟨[], some .thrown, bound⟩
  run_binds statement bound o h := by
    split_ifs at h <;> cases h <;> cases bound <;> simp_all
  bindParameters_binds _ bound o h := by
    cases h
    simp
  bindParameters_abrupt _ bound o h value := by
    cases h
    simp
  assign_binds _ bound o h := by
    split_ifs at h <;> cases h <;> rfl
  assign_abrupt _ bound o h value := by
    split_ifs at h <;> cases h <;> simp
  run_directive statement h bound := if_pos h
  run_superCall statement h bound o ho := by
    have hnot : isPrologueDirective statement = false := by
      by_contra hd
      rw [Bool.not_eq_false] at hd
      simp [not_isSuperCallStatement_of_isPrologueDirective hd] at h
    simp only [hnot, h, Bool.true_or, if_true, Bool.false_eq_true, if_false] at ho
    split_ifs at ho <;> cases ho
    · exact Or.inl rfl
    · exact Or.inr ⟨rfl, [.effect], rfl⟩
where
  blockCallsSuper (statement : Statement) : Bool :=
    match statement.kind with
    | .block statements => statements.any isSuperCallStatement
    | _ => false

/-- The statement `name();`. -/
def callOf (name : String) : Statement :=
  let span : Span := ⟨⟨0⟩, 0, 0⟩
  ⟨⟨0⟩, span, .expression ⟨⟨0⟩, span, .call ⟨⟨0⟩, span, .identifier name span true⟩ none []⟩⟩

/-- The parameter `public x`. -/
def publicX : Parameter :=
  let span : Span := ⟨⟨0⟩, 0, 0⟩
  ⟨"x", span, [], .binding, none, none, false, none, false, none, [⟨.public, span⟩], true, true, span⟩

/-- `constructor(public x) { super(); work(); }`. -/
theorem writeConstructor_initialises_iff_superCall :
    ∃ o, callEngine.construct [publicX]
        (writeConstructor .esModule [callOf "super", callOf "work"] [publicX] true) false = some o ∧
      InitialisedInTime true [publicX] [callOf "super", callOf "work"] o.events :=
  ⟨_, rfl, (writeConstructor_initialises_iff callEngine .esModule true [publicX]
    [callOf "super", callOf "work"] rfl false rfl _ rfl rfl).mpr
      (Or.inl ⟨[], callOf "super", [callOf "work"], _, rfl, rfl, by simp, rfl, rfl⟩)⟩

/-- In `constructor(public x) { { super(); } work(); }` the property is assigned behind
`work()`. -/
theorem not_initialisedInTime_superInBlock :
    let block : Statement := ⟨⟨0⟩, ⟨⟨0⟩, 0, 0⟩, .block [callOf "super"]⟩
    ∃ o, callEngine.construct [publicX]
        (writeConstructor .esModule [block, callOf "work"] [publicX] true) false = some o ∧
      callEngine.completesNormally true o = true ∧
      ¬ InitialisedInTime true [publicX] [block, callOf "work"] o.events := by
  refine ⟨_, rfl, rfl, fun h => ?_⟩
  obtain ⟨before, after, htrace, -, -⟩ := h.afterSuper rfl
  let body : List Event := [.starts ⟨⟨0⟩, ⟨⟨0⟩, 0, 0⟩, .block [callOf "super"]⟩, .step .effect,
    .step .superReturned, .starts (callOf "work"), .step .effect]
  have hproperty : parameterProperties [publicX] ≠ [] := properties_ne_nil rfl
  have hend : body = before ++ [.step .superReturned] :=
    endsWith_superReturned hproperty rfl htrace
  have hlast := congrArg List.getLast? hend
  simp [body] at hlast

end Constructors

end Tsz.Emit
