import Tsz.Syntax.Progress.Functions

/-!
# Progress of expressions

An expression takes a token unless it starts in front of one of `expressionStops`. The loop over
call arguments is the only one that relies on this.
-/

namespace Tsz.Syntax

open Noting (note)

variable {source : SourceText} {scanned : ScanOutput source} {r i : Nat} {c : Cursor scanned}

/-- Speculation does not split the tokens that start no closing bracket of types. -/
theorem Cursor.kind_of_index {c d : Cursor scanned} {kind : TokenKind} (hc : c.index = i)
    (hd : d.index = i) (hk : c.kind = kind) (hclose : kind.isTypeClose = false)
    (hequals : kind ≠ .equals) : d.kind = kind := by
  subst hk
  exact c.kind_congr (hd.trans hc.symm) hclose hequals

/-! ## Type arguments in expressions -/

theorem steps_typeArgumentsAreFollowedBy (hi : c.index = i) (predicate : TokenKind → Bool) :
    Steps r i (typeArgumentsAreFollowedBy predicate) c fun followed d =>
      followed = true → d.kind = .lessThan := by
  refine Steps.look fun _ => Steps.ite (fun _ => Steps.pure hi (by simp)) fun h => ?_
  have hk : c.kind = .lessThan := by
    simp only [Parser.atKind, Bool.or_eq_true, Bool.not_eq_true', not_or, beq_eq_false_iff_ne,
      not_not] at h
    exact h.2
  refine (stays_withSpeculativeParse hi ?_).weaken fun _ d hd _ _ =>
    Cursor.kind_of_index hi hd hk rfl (by decide)
  exact (consumes_parseTypeArgumentsWithClose hi hk).bind

/-! ## Members and elements -/

theorem consumes_parseMemberAccess (hi : c.index = i) (expression : Expression) :
    Consumes r i (parseMemberAccess expression) c := by
  refine Steps.look fun _ => ?_
  split
  · rename_i hk
    have hk : c.kind = .dot := hk
    exact (consumes_bump hi (by simp [hk])).bind
  · rename_i hk
    have hk : c.kind = .leftBracket := hk
    exact (consumes_bump hi (by simp [hk])).bind
  · exact Steps.fault

theorem stays_expressionList (hi : c.index = i) (hr : 4 < r) (close : TokenKind)
    (elements : List Expression) : Stays r i (expressionList close elements) c := by
  refine Steps.look fun _ => Steps.ite (fun _ => Steps.pure hi trivial) fun _ => ?_
  exact (stays_call hi hr).bind fun _ _ hd =>
    Steps.eat hd (by decide) fun _ => Steps.pure hd trivial

/-! ## Objects -/

theorem consumes_parseObjectProperty (hi : c.index = i) (hk : c.kind ≠ .endOfFile)
    (objectExtent : Option Span) : Consumes r i (parseObjectProperty objectExtent) c :=
  Steps.look fun _ => Steps.look fun _ => Steps.look fun _ =>
    ((takes_parsePropertyName hi).consumes hk).bind

theorem stays_objectProperties (hi : c.index = i) (objectExtent : Option Span)
    (properties : List ObjectProperty)
    (memberRecoveries : List (ParserRecoveryKind × Span × Span)) :
    Stays r i (objectProperties objectExtent properties memberRecoveries) c := by
  refine Steps.look fun _ => Steps.ite (fun _ => Steps.pure hi trivial) fun h => ?_
  have hk : c.kind ≠ .endOfFile := by
    intro hk
    simp [Parser.atAny, hk] at h
  refine Steps.look fun _ => Steps.look fun _ => Steps.ite (fun _ => ?_) fun _ => ?_
  · exact (consumes_bump hi hk).bindBind
  · exact (consumes_parseObjectProperty hi hk objectExtent).bind

theorem stays_heritageElements (hi : c.index = i) :
    Stays r i (heritageElements : Parse scanned Unit) c :=
  Steps.eat hi (by decide) fun _ => Steps.pure hi trivial

theorem stays_newCallee (hi : c.index = i) (callee : Expression) :
    Stays r i (newCallee callee) c :=
  Steps.look fun _ => Steps.ite (fun _ => (consumes_parseMemberAccess hi callee).bind) fun _ =>
    Steps.pure hi trivial

/-! ## Primary expressions -/

theorem steps_parseMissingPrimary (hi : c.index = i) (token : Token) :
    Steps r i (parseMissingPrimary token) c fun _ _ => c.kind ∈ expressionStops := by
  refine Steps.note fun _ => Steps.look fun _ => ?_
  dsimp only
  refine Steps.ite (fun h => ?_) fun h => ?_
  · have hk : c.kind ≠ .endOfFile := by
      intro hk
      simp [Parser.atAny, hk, expressionStops] at h
    exact (consumes_bump hi hk).bind
  · exact Steps.noteLast hi fun _ => by simpa [Parser.atAny] using h

theorem consumes_parseIdentifierPrimary (hi : c.index = i) (hk : c.kind ≠ .endOfFile)
    (token : Token) (hasLeadingJsdoc contextualKeyword : Bool) :
    Consumes r i (parseIdentifierPrimary token hasLeadingJsdoc contextualKeyword) c := by
  unfold parseIdentifierPrimary
  dsimp only
  refine Steps.ite (fun _ => (consumes_bump hi hk).bind) fun _ => ?_
  exact ((takes_bumpIdentifier hi).consumes hk).bind

theorem consumes_parseAngleExpression (hi : c.index = i) (hk : c.kind = .lessThan)
    (token : Token) : Consumes r i (parseAngleExpression token) c := by
  refine (stays_genericArrowIsParenthesizedArrow hi).bind fun _ d hd => ?_
  have hk : d.kind = .lessThan := Cursor.kind_of_index hi hd hk rfl (by decide)
  have hne : d.kind ≠ .endOfFile := by simp [hk]
  refine Steps.ite (fun _ => ?_) fun _ => Steps.look fun _ => Steps.ite (fun _ => ?_) fun _ =>
    Steps.ite (fun _ => ?_) fun _ => ?_
  · exact consumes_parseParenthesizedArrow hd true false (.inl ⟨rfl, hk⟩)
  · exact (consumes_bump hd hne).bind
  · exact (consumes_bump hd hne).bind
  · exact (steps_parseMissingPrimary hd token).weaken fun _ _ _ h => by
      simp [hk, expressionStops] at h

theorem steps_asyncStartsArrow (hi : c.index = i) (token : Token) (htoken : token.kind = c.kind) :
    Steps r i (asyncStartsArrow token) c fun _ d => d.kind = c.kind := by
  refine Steps.look fun _ => Steps.look fun _ => Steps.ite (fun h => ?_) fun _ => Steps.pure hi rfl
  have hk : c.kind = .async := htoken.symm.trans h.1
  refine (stays_asyncParenthesizedArrowIsArrow hi (by simp [hk])).weaken fun _ d hd _ => ?_
  rw [hk]
  exact Cursor.kind_of_index hi hd hk rfl (by decide)

theorem steps_parsePrimaryExpression (hi : c.index = i) :
    Steps r i parsePrimaryExpression c fun _ _ => c.kind ∈ expressionStops := by
  refine Steps.look fun _ => Steps.look fun _ => ?_
  refine (steps_asyncStartsArrow hi c.current rfl).bind fun asyncArrow d hd hkind => ?_
  refine Steps.look fun _ => Steps.look fun _ => Steps.note fun _ => Steps.look fun _ =>
    Steps.look fun _ => ?_
  by_cases hk : d.kind = .endOfFile
  · have hcurrent : c.current.kind = .endOfFile := hkind.symm.trans hk
    simp only [hcurrent]
    refine (steps_parseMissingPrimary hd c.current).weaken fun _ _ _ _ => ?_
    simp [← hkind, hk, expressionStops]
  · dsimp only
    -- only the tokens that start no expression can be left where they are
    split
    any_goals exact (consumes_bump hd hk).bind
    any_goals exact Steps.look fun _ => (consumes_bump hd hk).bind
    any_goals exact (consumes_parseIdentifierPrimary hd hk _ _ _).steps
    · exact (consumes_parseAngleExpression hd (hkind.trans ‹_›) _).steps
    · refine Steps.ite (fun _ => ?_) fun _ => (consumes_parseIdentifierPrimary hd hk _ _ _).steps
      exact (consumes_bump hd hk).bind
    · exact (consumes_parseNoSubstitutionTemplateLiteral hd hk).steps
    · exact (consumes_parseTemplateExpression hd hk).steps
    · refine (stays_primaryParenthesizedArrowIndex hd).bind fun arrow e he => ?_
      have hparen : e.kind = .leftParen :=
        Cursor.kind_of_index hd he (hkind.trans ‹_›) rfl (by decide)
      refine Steps.ite (fun _ => ?_) fun _ => ?_
      · exact (consumes_parseParenthesizedArrow he false false (.inr ⟨rfl, hparen⟩)).steps
      · exact (consumes_bump he (by simp [hparen])).bind
    · refine Steps.ite (fun _ => (consumes_parseIdentifierPrimary hd hk _ _ _).steps) fun _ => ?_
      exact (steps_parseMissingPrimary hd _).weaken fun _ _ _ h => hkind ▸ h

/-! ## Postfixes -/

theorem consumes_parseCallExpression (hi : c.index = i) (callee : Expression)
    (hasTypeArguments : Bool)
    (h : hasTypeArguments = true ∧ c.kind = .lessThan ∨
      hasTypeArguments = false ∧ c.kind = .leftParen) :
    Consumes r i (parseCallExpression callee hasTypeArguments) c := by
  obtain ⟨rfl, hk⟩ | ⟨rfl, hk⟩ := h
  · have htypes : Consumes r i (parseCallTypeArguments true) c :=
      Steps.note fun _ => (consumes_parseTypeArguments hi hk).bind
    exact htypes.bind
  · exact Steps.expect hi (by decide) fun h => absurd hk h

theorem steps_consumeNonNullPostfix (hi : c.index = i) :
    Steps r i consumeNonNullPostfix c fun bang d => d = c ∧ bang = none := by
  refine Steps.look fun _ => Steps.look fun _ => Steps.ite (fun h => ?_) fun _ =>
    Steps.pure hi ⟨rfl, rfl⟩
  have hk : c.kind ≠ .endOfFile := by
    intro hk
    simp [Parser.atKind, hk] at h
  exact (consumes_bump hi hk).bind

theorem steps_observeUnmodeledPostfixExpression (hi : c.index = i) (hr : 0 < r)
    (receiver : Span) :
    Steps r i (observeUnmodeledPostfixExpression receiver) c fun tagged d =>
      d = c ∧ tagged = none := by
  refine Steps.note fun _ => (steps_rejectTaggedTemplate hi hr receiver).bind ?_
  rintro tagged d - ⟨rfl, rfl⟩
  refine Steps.look fun _ => ?_
  dsimp only
  refine Steps.ite (fun _ => ?_) fun _ => Steps.pure hi ⟨rfl, rfl⟩
  exact Steps.look fun _ => Steps.note fun _ => Steps.pure hi ⟨rfl, rfl⟩

theorem stays_postfixTail (hi : c.index = i) (hr : 0 < r) (expression : Expression) :
    Stays r i (postfixTail expression) c := by
  refine (steps_typeArgumentsAreFollowedBy hi _).bind fun tagged d hd htagged => ?_
  refine Steps.ite (fun h => ?_) fun _ => ?_
  · exact (consumes_parseTypeArguments hd (htagged h)).bind
  · refine (steps_typeArgumentsAreFollowedBy hd _).bind fun hasTypeArguments e he hcall => ?_
    refine Steps.look fun _ => Steps.ite (fun _ => Steps.pure he trivial) fun _ => ?_
    refine Steps.look fun _ => Steps.ite (fun h => ?_) fun _ => ?_
    · refine (consumes_parseCallExpression he expression hasTypeArguments ?_).bind
      cases hasTypeArguments with
      | false => exact .inr ⟨rfl, by simpa [Parser.atKind] using h⟩
      | true => exact .inl ⟨rfl, hcall rfl⟩
    · refine Steps.look fun _ => Steps.ite (fun _ => Steps.pure he trivial) fun _ => ?_
      refine Steps.look fun _ => Steps.ite (fun _ => ?_) fun _ => ?_
      · exact (consumes_parseMemberAccess he expression).bind
      · refine Steps.eat he (by decide) fun _ => (steps_consumeNonNullPostfix he).bind ?_
        rintro bang e - ⟨rfl, rfl⟩
        refine (steps_observeUnmodeledPostfixExpression he hr _).bind ?_
        rintro tagged e - ⟨rfl, rfl⟩
        exact Steps.pure he trivial

/-! ## Operators -/

theorem steps_parsePostfixExpression (hi : c.index = i) (hr : 1 < r) :
    Steps r i parsePostfixExpression c fun _ _ => c.kind ∈ expressionStops := by
  have hprimary : Steps r i (Parse.call .primaryExpression : Parse scanned Expression) c
      fun _ _ => c.kind ∈ expressionStops := Steps.call hi hr fun _ _ _ hg => not_not.mp hg
  exact hprimary.bind fun _ _ hd h => Steps.call hd hr fun _ _ _ _ => h

theorem steps_parseUnaryExpression (hi : c.index = i) (hr : 1 < r) :
    Steps r i parseUnaryExpression c fun _ _ => c.kind ∈ expressionStops := by
  refine (steps_parseUnsupportedAwaitTemplate hi).bind ?_
  rintro rejected d - ⟨rfl, rfl⟩
  refine Steps.look fun _ => Steps.look fun _ => ?_
  split
  · exact steps_parsePostfixExpression hi hr
  · rename_i operator h
    have hk : d.kind ≠ .endOfFile := by
      intro hk
      simp [unaryOperator, hk] at h
    exact (consumes_bump hi hk).bind

theorem keeps_binaryTail (hi : c.index = i) (minimumPrecedence : Nat) (expression : Expression) :
    Keeps r i (binaryTail minimumPrecedence expression) c := by
  refine Steps.look fun _ => ?_
  dsimp only
  split
  · exact Steps.pure hi rfl
  · rename_i operator precedence h
    have hk : c.kind ≠ .endOfFile := by
      intro hk
      cases h.symm.trans (congrArg binaryOperator hk)
    exact Steps.ite (fun _ => Steps.pure hi rfl) fun _ => (consumes_bump hi hk).bind

theorem steps_parseBinaryExpression (hi : c.index = i) (hr : 2 < r) (minimumPrecedence : Nat) :
    Steps r i (parseBinaryExpression minimumPrecedence) c fun _ _ =>
      c.kind ∈ expressionStops := by
  have hunary : Steps r i (Parse.call .unaryExpression : Parse scanned Expression) c
      fun _ _ => c.kind ∈ expressionStops := Steps.call hi hr fun _ _ _ hg => not_not.mp hg
  refine hunary.bind fun _ _ hd h => ?_
  dsimp only
  exact Steps.noteIf (Steps.call hd (Nat.zero_lt_of_lt hr) fun _ _ _ _ => h)

theorem steps_parseConditionalExpression (hi : c.index = i) (hr : 3 < r) :
    Steps r i parseConditionalExpression c fun _ _ => c.kind ∈ expressionStops := by
  have hbinary : Steps r i (Parse.call (.binaryExpression 0) : Parse scanned Expression) c
      fun _ _ => c.kind ∈ expressionStops := Steps.call hi hr fun _ _ _ hg => not_not.mp hg
  refine hbinary.bind fun _ _ hd h => Steps.look fun _ => Steps.look fun _ => ?_
  dsimp only
  exact Steps.noteIf (Steps.bumpAt hd (by decide) fun _ => Steps.pure hd h)

theorem keeps_parseAssignmentTail (hi : c.index = i) (left : Expression)
    (hasLeadingJsdoc : Bool) : Keeps r i (parseAssignmentTail left hasLeadingJsdoc) c := by
  refine Steps.look fun _ => ?_
  dsimp only
  split
  · exact Steps.pure hi rfl
  · rename_i operator h
    have hk : c.kind ≠ .endOfFile := by
      intro hk
      cases h.symm.trans (congrArg assignmentOperator hk)
    exact (consumes_bump hi hk).bind

theorem steps_parseAssignmentExpression (hi : c.index = i) (hr : 3 < r) :
    Steps r i parseAssignmentExpression c fun _ _ => c.kind ∈ expressionStops := by
  refine Steps.look fun _ => (steps_parseConditionalExpression hi hr).bind fun _ _ hd h => ?_
  exact (keeps_parseAssignmentTail hd _ _).bind fun _ => Steps.note fun _ => Steps.pure hd h

theorem keeps_expressionTail (hi : c.index = i) (expression : Expression) :
    Keeps r i (expressionTail expression) c := by
  refine Steps.look fun _ => Steps.ite (fun h => ?_) fun _ => Steps.pure hi rfl
  have hk : c.kind ≠ .endOfFile := by
    intro hk
    simp [Parser.atKind, hk] at h
  exact (consumes_bump hi hk).bind

/-! ## Call arguments -/

/-- No split leaves one of these tokens. -/
theorem expressionStops_unsplit :
    ∀ kind ∈ expressionStops, kind.isTypeClose = false ∧ kind ≠ .equals := by decide

theorem rank_of_stuck {recoverRejectedGenericArgument : Bool}
    (h : recoverRejectedGenericArgument = true) (hk : c.kind ∈ stuckKinds)
    (arguments : List Expression) :
    rank (.callArguments arguments recoverRejectedGenericArgument) c = 0 := by
  subst h
  exact if_pos (by simpa [Call.isStuck] using hk)

/-- The next iteration of the loop starts behind a token, or it is a stuck one. -/
theorem stays_callArguments (hi : c.index = i) (hr : 4 < r) (arguments : List Expression)
    (recoverRejectedGenericArgument : Bool) :
    Stays r i (callArguments arguments recoverRejectedGenericArgument) c := by
  refine Steps.look fun _ => Steps.ite (fun _ => Steps.pure hi trivial) fun hlist => ?_
  have hne : c.kind ≠ .rightParen ∧ c.kind ≠ .endOfFile := by
    simpa [Parser.atAny] using hlist
  refine Steps.look fun _ => Steps.ite (fun h => ?_) fun _ => ?_
  · exact Steps.note fun _ => (consumes_bump hi hne.2).bind
  · have hargument : Steps r i (Parse.call .assignmentExpression : Parse scanned Expression) c
        fun _ _ => c.kind ∈ expressionStops := Steps.call hi hr fun _ _ _ hg => not_not.mp hg
    refine Steps.look fun _ => hargument.bind fun argument d hd hstop => Steps.look fun _ => ?_
    refine Steps.eat hd (by decide) fun hcomma => ?_
    obtain ⟨hclose, hequals⟩ := expressionStops_unsplit c.kind hstop
    have hkind : d.kind = c.kind := Cursor.kind_of_index hi hd rfl hclose hequals
    have hstuck : d.kind ∈ stuckKinds := by
      rw [hkind] at hcomma ⊢
      simp only [expressionStops, stuckKinds, List.mem_cons, List.not_mem_nil, or_false]
        at hstop ⊢
      grind
    refine Steps.look fun _ => Steps.ite (fun _ => Steps.pure hd trivial) fun hrecover => ?_
    have hagain (seen : List Expression) (rec : Bool) (h : rec = true) :
        Stays r i (Parse.call (.callArguments seen rec) : Parse scanned (List Expression)) d :=
      Steps.callOfRank hd (by rw [rank_of_stuck h hstuck]; omega) fun _ _ _ _ => trivial
    refine Steps.ite (fun _ => hagain _ _ (by grind)) fun _ => Steps.note fun _ => ?_
    exact Steps.eat hd (by decide) fun _ => hagain _ _ (by grind)

end Tsz.Syntax
