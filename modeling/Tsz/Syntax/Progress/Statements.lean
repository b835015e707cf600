import Tsz.Syntax.Progress.Expressions

/-!
# Progress of statements

A loop over statements skips the token at which a statement did not move. Declarations and
control statements consume their keyword before they call anything.
-/

namespace Tsz.Syntax

open Noting (note)

variable {source : SourceText} {scanned : ScanOutput source} {r i : Nat} {c : Cursor scanned}

/-! ## Lists of statements -/

theorem stays_sourceStatements (hi : c.index = i) (hr : 10 < r) (statements : List Statement) :
    Stays r i (sourceStatements statements) c := by
  refine Steps.look fun _ => Steps.ite (fun _ => Steps.pure hi trivial) fun h => ?_
  have hk : c.kind ≠ .endOfFile := by simpa [Parser.atKind] using h
  exact Steps.look fun _ => (stays_call hi hr).orBump hi hk

theorem stays_blockStatements (hi : c.index = i) (hr : 10 < r) (statements : List Statement) :
    Stays r i (blockStatements statements) c := by
  refine Steps.look fun _ => Steps.look fun _ => Steps.look fun _ =>
    Steps.ite (fun _ => Steps.pure hi trivial) fun h => ?_
  have hk : c.kind ≠ .endOfFile := by
    intro hk
    simp [Parser.atKind, hk] at h
  exact Steps.look fun _ => (stays_parseStatement hi hr).orBump hi hk

theorem stays_clauseStatements (hi : c.index = i) (hr : 10 < r) (statements : List Statement) :
    Stays r i (clauseStatements statements) c := by
  refine Steps.look fun _ => Steps.ite (fun _ => Steps.pure hi trivial) fun h => ?_
  have hk : c.kind ≠ .endOfFile := by
    intro hk
    simp [Parser.atAny, hk] at h
  exact Steps.look fun _ => (stays_parseStatement hi hr).orBump hi hk

theorem keeps_recoverStatement (hi : c.index = i) (extent : Option Span) :
    Keeps r i (recoverStatement extent) c := by
  refine Steps.look fun _ => Steps.look fun _ => Steps.ite (fun h => ?_) fun _ => ?_
  · have hk : c.kind ≠ .endOfFile := by
      intro hk
      simp [Parser.atAny, hk] at h
    exact Steps.note fun _ => Steps.note fun _ => (consumes_bump hi hk).bind
  · refine Steps.look fun _ => Steps.ite (fun _ => ?_) fun _ => Steps.pure hi rfl
    exact Steps.eat hi (by decide) fun _ => Steps.pure hi rfl

/-! ## Imports and exports -/

theorem keeps_parseSpecifierTypeModifier (hi : c.index = i) :
    Keeps r i parseSpecifierTypeModifier c :=
  Steps.look fun _ => Steps.ite (fun _ => keeps_eat hi (by decide)) fun _ => Steps.pure hi rfl

theorem stays_importSpecifiers (hi : c.index = i) (typeOnly : Bool)
    (bindings : List ImportBinding) : Stays r i (importSpecifiers typeOnly bindings) c := by
  refine Steps.look fun _ => Steps.ite (fun _ => Steps.pure hi trivial) fun h => ?_
  have hk : c.kind ≠ .endOfFile := by
    intro hk
    simp [Parser.atAny, hk] at h
  dsimp only
  refine Steps.ite (fun _ => ?_) fun _ => (keeps_parseSpecifierTypeModifier hi).bind fun _ => ?_
  all_goals exact ((takes_parseIdentifierName hi).consumes hk).bind

theorem stays_exportSpecifiers (hi : c.index = i) (typeOnly : Bool)
    (specifiers : List ExportSpecifier) : Stays r i (exportSpecifiers typeOnly specifiers) c := by
  refine Steps.look fun _ => Steps.ite (fun _ => Steps.pure hi trivial) fun h => ?_
  have hk : c.kind ≠ .endOfFile := by
    intro hk
    simp [Parser.atAny, hk] at h
  dsimp only
  refine Steps.ite (fun _ => ?_) fun _ => (keeps_parseSpecifierTypeModifier hi).bind fun _ => ?_
  all_goals exact ((takes_parseIdentifierName hi).consumes hk).bind

theorem keeps_finishExpressionStatement (hi : c.index = i) :
    Keeps r i finishExpressionStatement c := by
  refine Steps.eat hi (by decide) fun _ => Steps.look fun _ =>
    Steps.ite (fun _ => Steps.pure hi rfl) fun h => ?_
  have hk : c.kind ≠ .endOfFile := by
    intro hk
    simp [Parser.atAny, hk] at h
  refine Steps.look fun _ => Steps.look fun _ => Steps.ite (fun _ => ?_) fun _ => Steps.pure hi rfl
  exact Steps.note fun _ => (consumes_bump hi hk).bind

/-! ## Modifiers and hosts -/

theorem keeps_modifiers (hi : c.index = i) (seen : Modifiers) (order : Nat) :
    Keeps r i (modifiers seen order) c := by
  refine Steps.look fun _ => Steps.ite (fun _ => Steps.pure hi rfl) fun _ => Steps.look fun _ => ?_
  dsimp only
  generalize hk : c.kind = kind
  have hbump (h : kind ≠ .endOfFile) : Consumes r i bump c := consumes_bump hi (hk ▸ h)
  cases kind
  case «export» =>
    have hexport : Consumes r i (parseExportModifier seen order) c :=
      Steps.note fun _ => (hbump (by decide)).bind
    exact hexport.bind
  case declare => exact (hbump (by decide)).bind
  case async => exact (hbump (by decide)).bind
  case «abstract» => exact (hbump (by decide)).bind
  all_goals exact Steps.pure hi rfl

theorem stays_parseModifiers (hi : c.index = i) (hr : 0 < r) (statementStart : Nat) :
    Stays r i (parseModifiers statementStart) c :=
  (stays_call hi hr).bind fun _ _ hd => Steps.note fun _ => Steps.pure hd trivial

theorem keeps_moduleNameTail (hi : c.index = i) :
    Keeps r i (moduleNameTail : Parse scanned Bool) c :=
  Steps.eat hi (by decide) fun _ => Steps.pure hi rfl

theorem stays_parseOpaqueHost (hi : c.index = i) (ownerStart : Nat) (modifiers : Modifiers) :
    Stays r i (parseOpaqueHost ownerStart modifiers) c := by
  refine Steps.look fun l => ?_
  split
  · exact Steps.pure hi trivial
  · rename_i nameOffset kind h
    have hk : c.kind ≠ .endOfFile := by
      intro hk
      have hpeek : (⟨c, l⟩ : Parser scanned).peekKind 0 = .endOfFile := hk
      simp [Parser.unmodeledDeclarationHostAt, hpeek] at h
    have hhost : Keeps r i (parseOpaqueHostOf nameOffset kind modifiers) c := by
      cases kind with
      | module => exact (consumes_bump hi hk).bindBind
      | «namespace» => exact (consumes_bump hi hk).bindBind
      | externalModule => exact (consumes_bump hi hk).bindBind
      | enum =>
        refine Steps.look fun _ => Steps.ite (fun _ => ?_) fun _ => Steps.pure hi rfl
        have henum : Consumes r i parseOpaqueEnum c :=
          Steps.eat hi (by decide) fun _ => (consumes_bump hi hk).bind
        exact henum.bind
      | global =>
        refine Steps.look fun _ => Steps.ite (fun _ => ?_) fun _ => Steps.pure hi rfl
        exact (consumes_bump hi hk).bindBind
      | «using» => exact Steps.pure hi rfl
    refine hhost.bind fun _ => ?_
    dsimp only
    exact Steps.noteIf (Steps.pure hi trivial)

/-! ## Declarations -/

theorem takes_parseVariableName (hi : c.index = i) : Takes r i parseVariableName c := by
  refine Steps.look fun _ => Steps.look fun _ => Steps.ite (fun _ => ?_) fun _ =>
    takes_parseRecoveredBindingHead hi
  exact (takes_bumpIdentifier hi).bind fun hk _ _ hd =>
    Steps.look fun _ => Steps.note fun _ => Steps.pure hd hk

theorem stays_recoverVariableInitializer (hi : c.index = i) (hr : 0 < r)
    (initializer : Option Expression) : Stays r i (recoverVariableInitializer initializer) c := by
  refine Steps.look fun _ => Steps.look fun _ => Steps.look fun _ =>
    Steps.ite (fun _ => ?_) fun _ => Steps.pure hi trivial
  exact Steps.look fun _ => Steps.note fun _ => stays_call hi hr

theorem stays_variableDeclarators (hi : c.index = i) (hr : 0 < r)
    (declarators : List VariableDeclarator) :
    Stays r i (variableDeclarators declarators) c := by
  refine Steps.look fun _ => Steps.look fun _ => (takes_parseVariableName hi).bind fun _ _ d hd => ?_
  refine Steps.note fun _ => (typeAnnotation_keeps hd).bind fun _ => ?_
  refine (keeps_eatThen hd (by decide)).bind fun initializer => Steps.look fun _ => ?_
  dsimp only
  refine Steps.ite (fun _ => Steps.eat hd (by decide) fun _ => ?_) fun _ => Steps.pureBind ?_
  all_goals
    refine (stays_recoverVariableInitializer hd hr initializer).bind fun _ e he => ?_
    refine Steps.ite (fun h => absurd h (by simp)) fun _ => ?_
    exact Steps.eat he (by decide) fun _ => Steps.pure he trivial

/-! ## Classes -/

theorem keeps_classMemberModifiers (hi : c.index = i) (seen : ClassMemberModifiers) :
    Keeps r i (classMemberModifiers seen) c := by
  refine Steps.look fun _ => ?_
  dsimp only
  split
  · exact Steps.pure hi rfl
  · rename_i modifier h
    have hk : c.kind ≠ .endOfFile := by
      intro hk
      cases h.symm.trans (congrArg classMemberModifier hk)
    exact (consumes_bump hi hk).bind

theorem consumes_parseMemberHead (hi : c.index = i) (hk : c.kind ≠ .endOfFile) :
    Consumes r i parseMemberHead c := by
  refine Steps.bumpAt hi (by decide) fun _ => ?_
  have haccessor : Keeps r i (parseMemberAccessor (none : Option Span).isSome) c := by
    refine Steps.look fun _ => Steps.ite (fun _ => ?_) fun _ => Steps.pure hi rfl
    exact Steps.eat hi (by decide) fun _ => Steps.eat hi (by decide) fun _ => Steps.pure hi rfl
  exact haccessor.bind fun _ => ((takes_parsePropertyName hi).consumes hk).bind

theorem consumes_parseClassMember (hi : c.index = i) (hr : 0 < r) (hk : c.kind ≠ .endOfFile) :
    Consumes r i parseClassMember c := by
  refine Steps.look fun _ => Steps.look fun _ => Steps.look fun _ =>
    (stays_call hi hr).bind fun modifiers d hd => ?_
  have hk : d.kind ≠ .endOfFile := fun h => hk (Cursor.kind_eq_endOfFile h (hd.trans hi.symm))
  refine Steps.look fun _ => Steps.ite (fun _ => ?_) fun _ => ?_
  · exact (consumes_bump hd hk).bindBind
  · exact (consumes_parseMemberHead hd hk).bind

theorem stays_classMembers (hi : c.index = i) (hr : 0 < r) (members : List ClassMember)
    (emptyElements : List Span) : Stays r i (classMembers members emptyElements) c := by
  refine Steps.look fun _ => Steps.ite (fun _ => Steps.pure hi trivial) fun h => ?_
  have hk : c.kind ≠ .endOfFile := by
    intro hk
    simp [Parser.atAny, hk] at h
  refine Steps.bumpAt hi (by decide) fun _ => Steps.look fun _ => Steps.look fun _ => ?_
  dsimp only
  exact Steps.noteIf (Steps.note fun _ => (consumes_parseClassMember hi hr hk).bind)

/-! ## Control statements -/

theorem consumes_parseSwitchLabel (hi : c.index = i) (hk : c.kind ≠ .endOfFile) :
    Consumes r i parseSwitchLabel c :=
  Steps.eat hi (by decide) fun _ => Steps.eat hi (by decide) fun _ => Steps.note fun _ =>
    (consumes_bump hi hk).bind

theorem stays_switchClauses (hi : c.index = i) (clauses : List SwitchClause) :
    Stays r i (switchClauses clauses) c := by
  refine Steps.look fun _ => Steps.ite (fun _ => Steps.pure hi trivial) fun h => ?_
  have hk : c.kind ≠ .endOfFile := by
    intro hk
    simp [Parser.atAny, hk] at h
  exact Steps.look fun _ => (consumes_parseSwitchLabel hi hk).bind

/-! ## Statements -/

theorem keeps_recoverStrayStatement (hi : c.index = i) : Keeps r i recoverStrayStatement c := by
  refine Steps.eat hi (by decide) fun _ => Steps.look fun _ => Steps.look fun _ =>
    Steps.ite (fun _ => Steps.pure hi rfl) fun h => ?_
  have hk : c.kind ≠ .endOfFile := by
    intro hk
    simp [Parser.atKind, hk] at h
  exact Steps.note fun _ => Steps.note fun _ => (consumes_bump hi hk).bind

theorem stays_parseExpressionStatement (hi : c.index = i) (hr : 4 < r) :
    Stays r i parseExpressionStatement c := by
  refine (stays_parseExpression hi hr).bind fun expression d hd => Steps.note fun _ => ?_
  dsimp only
  refine Steps.ite (fun _ => ?_) fun _ => Steps.pure hd trivial
  exact (keeps_finishExpressionStatement hd).bind fun _ => Steps.pure hd trivial

theorem stays_parsePlainStatement (hi : c.index = i) (hr : 4 < r) (start : Nat)
    (modifiers : Modifiers) : Stays r i (parsePlainStatement start modifiers) c := by
  refine (keeps_recoverStrayStatement hi).bind fun _ =>
    Steps.ite (fun _ => Steps.pure hi trivial) fun _ => Steps.eat hi (by decide) fun _ =>
      Steps.ite (fun h => absurd h (by simp)) fun _ => Steps.ite (fun _ => ?_) fun _ =>
        stays_parseExpressionStatement hi hr
  exact Steps.note fun _ => (stays_call hi (Nat.zero_lt_of_lt hr)).bind fun _ _ hd =>
    Steps.pure hd trivial

theorem consumes_parseFunction (hi : c.index = i) (hk : c.kind = .function)
    (modifiers : Modifiers) (hasLeadingJsdoc : Bool) :
    Consumes r i (parseFunction modifiers hasLeadingJsdoc) c :=
  Steps.look fun _ => Steps.look fun _ => Steps.look fun _ =>
    Steps.expect hi (by decide) fun h => absurd hk h

theorem consumes_parseClass (hi : c.index = i) (hk : c.kind = .class) (modifiers : Modifiers) :
    Consumes r i (parseClass modifiers) c :=
  Steps.look fun _ => Steps.look fun _ => Steps.look fun _ => Steps.note fun _ =>
    Steps.expect hi (by decide) fun h => absurd hk h

theorem stays_parseStatementKind (hi : c.index = i) (hr : 4 < r) (start : Nat)
    (modifiers : Modifiers) (hasLeadingJsdoc : Bool) :
    Stays r i (parseStatementKind start modifiers hasLeadingJsdoc) c := by
  have hplain : Stays r i (parsePlainStatement start modifiers) c :=
    stays_parsePlainStatement hi hr start modifiers
  have hstray : Stays r i (parseStrayToken : Parse scanned StatementKind) c :=
    Steps.note fun _ => (takes_bump hi).bind fun _ _ _ hd => Steps.pure hd trivial
  refine Steps.look fun _ => ?_
  dsimp only
  by_cases hk : c.kind = .endOfFile
  · simp only [hk]
    exact hplain
  · split
    any_goals exact (consumes_bump hi hk).bindBind
    any_goals exact (consumes_bump hi hk).bind
    · exact (consumes_parseFunction hi ‹_› modifiers hasLeadingJsdoc).bind
    · exact (consumes_parseClass hi ‹_› modifiers).bind
    · refine Steps.look fun _ => Steps.ite (fun _ => ?_) fun _ => hplain
      exact (consumes_bump hi hk).bindBind
    · refine Steps.look fun _ => Steps.ite (fun _ => ?_) fun _ => hplain
      exact (consumes_bump hi hk).bindBind
    · exact Steps.look fun _ => Steps.ite (fun _ => hstray) fun _ => hplain
    · exact (consumes_parseBlock hi ‹_›).bind
    · exact hstray
    · exact hplain

theorem stays_parseModifiedStatement (hi : c.index = i) (hr : 4 < r) (start : Nat) :
    Stays r i (parseModifiedStatement start) c := by
  refine Steps.look fun _ =>
    (stays_parseModifiers hi (Nat.zero_lt_of_lt hr) start).bind fun modifiers d hd => ?_
  refine Steps.note fun _ => (stays_parseOpaqueHost hd start modifiers).bind fun host e he => ?_
  cases host with
  | some kind => exact Steps.pure he trivial
  | none => exact stays_parseStatementKind he hr start modifiers _

theorem stays_parseStatementAtCurrentDepth (hi : c.index = i) (hr : 4 < r) :
    Stays r i parseStatementAtCurrentDepth c := by
  refine Steps.look fun _ => Steps.note fun _ => Steps.look fun _ =>
    Steps.ite (fun h => ?_) fun _ => Steps.look fun _ => Steps.ite (fun h => ?_) fun _ => ?_
  · have hk : c.kind ≠ .endOfFile := by
      intro hk
      simp [Parser.startsImportDeclaration, Parser.atKind, hk] at h
    exact (consumes_bump hi hk).bindBind
  · have hk : c.kind = .export := by
      simp only [Parser.startsExportDeclaration, Parser.atKind, Bool.and_eq_true, beq_iff_eq] at h
      exact h.1
    have hexport : Consumes r i parseExportDeclaration c :=
      Steps.note fun _ => Steps.expect hi (by decide) fun h => absurd hk h
    exact hexport.bind
  · exact (stays_parseModifiedStatement hi hr _).bind fun _ _ hd =>
      Steps.noteLast hd fun _ => trivial

theorem stays_parseSourceUnit (hi : c.index = i) (hr : 11 < r) : Stays r i parseSourceUnit c := by
  refine (stays_call hi hr).bind fun statements d hd => ?_
  refine Steps.note fun _ => Steps.note fun _ => Steps.note fun _ => Steps.look fun _ => ?_
  split
  · exact Steps.fault
  · split
    · exact Steps.fault
    · exact Steps.pure hd trivial

end Tsz.Syntax
