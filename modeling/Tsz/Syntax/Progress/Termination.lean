import Tsz.Syntax.Progress.Statements
import Tsz.Syntax.Scanner

/-!
# Termination of the parser

The parser of a source ends, and every iteration of its loops consumes a token, exactly when the
loop over call arguments never gets stuck.
-/

namespace Tsz.Syntax

open Recursion

variable {source : SourceText} {scanned : ScanOutput source}

/-! ## Every body -/

theorem steps_parseCall (call : Call source) (c : Cursor scanned) :
    Steps call.height c.index (parseCall call) c fun _ _ => ¬ Gains call c := by
  have ofStays {m : Parse scanned (Answer call)} (h : Stays call.height c.index m c)
      (hg : ¬ Gains call c) : Steps call.height c.index m c fun _ _ => ¬ Gains call c :=
    h.weaken fun _ _ _ _ => hg
  cases call with
  | sourceUnit => exact ofStays (stays_parseSourceUnit rfl (by simp [Call.height])) id
  | statement => exact ofStays (stays_parseStatementAtCurrentDepth rfl (by simp [Call.height])) id
  | assignmentExpression =>
    exact (steps_parseAssignmentExpression rfl (by simp [Call.height])).weaken fun _ _ _ => not_not.mpr
  | binaryExpression minimumPrecedence =>
    exact (steps_parseBinaryExpression rfl (by simp [Call.height]) _).weaken fun _ _ _ => not_not.mpr
  | unaryExpression =>
    exact (steps_parseUnaryExpression rfl (by simp [Call.height])).weaken fun _ _ _ => not_not.mpr
  | primaryExpression =>
    exact (steps_parsePrimaryExpression rfl).weaken fun _ _ _ => not_not.mpr
  | type => exact (takes_parseType rfl (by simp [Call.height])).weaken fun _ _ _ => not_not.mpr
  | postfixType => exact (takes_parsePostfixType rfl (by simp [Call.height])).weaken fun _ _ _ => not_not.mpr
  | sourceStatements statements => exact ofStays (stays_sourceStatements rfl (by simp [Call.height]) _) id
  | blockStatements statements => exact ofStays (stays_blockStatements rfl (by simp [Call.height]) _) id
  | clauseStatements statements => exact ofStays (stays_clauseStatements rfl (by simp [Call.height]) _) id
  | switchClauses clauses => exact ofStays (stays_switchClauses rfl _) id
  | importSpecifiers typeOnly bindings => exact ofStays (stays_importSpecifiers rfl _ _) id
  | exportSpecifiers typeOnly specifiers => exact ofStays (stays_exportSpecifiers rfl _ _) id
  | modifiers seen order => exact ofStays (keeps_modifiers rfl _ _).stays id
  | moduleNameTail => exact ofStays (keeps_moduleNameTail rfl).stays id
  | variableDeclarators declarators =>
    exact ofStays (stays_variableDeclarators rfl (by simp [Call.height]) _) id
  | recoverStatement extent => exact ofStays (keeps_recoverStatement rfl _).stays id
  | classMembers members emptyElements =>
    exact ofStays (stays_classMembers rfl (by simp [Call.height]) _ _) id
  | classMemberModifiers seen => exact ofStays (keeps_classMemberModifiers rfl _).stays id
  | heritageElements => exact ofStays (stays_heritageElements rfl) id
  | expressionTail expression => exact ofStays (keeps_expressionTail rfl _).stays id
  | binaryTail minimumPrecedence expression => exact ofStays (keeps_binaryTail rfl _ _).stays id
  | postfixTail expression => exact ofStays (stays_postfixTail rfl (by simp [Call.height]) _) id
  | callArguments arguments recover => exact ofStays (stays_callArguments rfl (by simp [Call.height]) _ _) id
  | expressionList close elements =>
    exact ofStays (stays_expressionList rfl (by simp [Call.height]) _ _) id
  | newCallee callee => exact ofStays (stays_newCallee rfl _) id
  | objectProperties objectExtent properties memberRecoveries =>
    exact ofStays (stays_objectProperties rfl _ _ _) id
  | templateSpans head headCooked spans =>
    exact ofStays (stays_templateSpans rfl (by simp [Call.height]) _ _ _) id
  | templateTokens stop => exact steps_templateTokens rfl stop
  | speculativeParameters => exact ofStays (stays_speculativeParameters rfl (by simp [Call.height])) id
  | parameters allowThis recover seen =>
    exact ofStays (stays_parameters rfl (by simp [Call.height]) _ _ _) id
  | parameterList close allowThis seen =>
    exact ofStays (stays_parameterList rfl (by simp [Call.height]) _ _ _) id
  | parameterModifiers seen => exact ofStays (keeps_parameterModifiers rfl _).stays id
  | balancedTokens opening closing depth =>
    exact ofStays (keeps_balancedTokens rfl _ _ _).stays id
  | bumpTo extent => exact ofStays (keeps_bumpTo rfl _).stays id
  | typeList types => exact ofStays (stays_typeList rfl (by simp [Call.height]) _) id
  | unionMembers members => exact ofStays (stays_unionMembers rfl (by simp [Call.height]) _) id
  | intersectionMembers members => exact ofStays (stays_intersectionMembers rfl (by simp [Call.height]) _) id
  | postfixTypeTail type => exact ofStays (keeps_postfixTypeTail rfl _).stays id
  | typeArguments arguments => exact ofStays (stays_typeArguments rfl (by simp [Call.height]) _) id
  | typeParameters seen => exact ofStays (stays_typeParameters rfl (by simp [Call.height]) _) id
  | typeParameterModifiers constParameter inVariance outVariance =>
    exact ofStays (keeps_typeParameterModifiers rfl _ _ _).stays id
  | tupleMembers members => exact ofStays (stays_tupleMembers rfl (by simp [Call.height]) _) id
  | tupleLabel => exact ofStays (keeps_tupleLabel rfl).stays id
  | typeMembers members => exact ofStays (stays_typeMembers rfl (by simp [Call.height]) _) id
  | mappedTypeMembers members => exact ofStays (stays_mappedTypeMembers rfl (by simp [Call.height]) _) id
  | typeMemberModifiers seen => exact ofStays (keeps_typeMemberModifiers rfl _).stays id
  | skipTypeMembers => exact ofStays (keeps_skipTypeMembers rfl).stays id
  | entityNameTail name span segmentSpans => exact ofStays (keeps_entityNameTail rfl _ _ _).stays id

theorem contracts_bodies : Contracts (bodies scanned) Moves := by
  intro call p
  refine (steps_parseCall call p.toCursor p.toLedger).mono (fun _ _ _ => trivial)
    (fun _ _ _ _ => id) fun _ _ h => h

/-! ## Measure -/

/-- Fewer tokens remain, or as many at a smaller rank. -/
def Smaller : Call source × Parser scanned → Call source × Parser scanned → Prop :=
  InvImage (Prod.Lex (· < ·) (· < ·)) fun x => (x.2.remaining, rank x.1 x.2.toCursor)

theorem wellFounded_smaller :
    WellFounded (Smaller : Call source × Parser scanned → Call source × Parser scanned → Prop) :=
  InvImage.wf _ (WellFounded.prod_lex wellFounded_lt wellFounded_lt)

theorem smaller_bodies (call : Call source) (p : Parser scanned)
    (h : ¬ call.isStuck p.toCursor = true) :
    (bodies scanned call p).Ensures (fun d q => Smaller (d, q) (call, p)) Moves
      fun _ _ => True := by
  have hrank : rank call p.toCursor = call.height := if_neg h
  have hforward : ((parseCall call).run p).Ensures (fun _ q => p.index ≤ q.index) Moves
      fun _ q => p.index ≤ q.index :=
    ((parseCall call).forward p).mono (fun _ _ => id) (fun _ _ _ _ => Moves.index_le)
      fun _ _ => id
  refine ((steps_parseCall call p.toCursor p.toLedger).and hforward).mono ?_
    (fun _ _ _ _ => id) fun _ _ _ => trivial
  rintro d q ⟨hpast | hlt, hle⟩
  · exact .left _ _ (Cursor.remaining_lt_iff.mpr hpast)
  · have hremaining : q.remaining ≤ p.remaining := Nat.sub_le_sub_left hle _
    rw [← hrank] at hlt
    rcases hremaining.lt_or_eq with h | h
    · exact .left _ _ h
    · exact Prod.lex_def.mpr (.inr ⟨h, hlt⟩)

/-! ## Stuck calls -/

/-- The parse returns without a move, and with an answer as `post` says. -/
def Leaves {α : Type} (m : Parse scanned α) (c : Cursor scanned) (post : α → Prop) : Prop :=
  ∀ l, ∃ a l', Returns (bodies scanned) (m.run ⟨c, l⟩) a ⟨c, l'⟩ ∧ post a

namespace Leaves

variable {α β : Type} {m : Parse scanned α} {f : α → Parse scanned β} {c : Cursor scanned}
  {mid : α → Prop} {post : β → Prop}

theorem pure {b : β} (h : post b) : Leaves (Pure.pure b : Parse scanned β) c post :=
  fun l => ⟨b, l, .done b _, h⟩

theorem bind (hm : Leaves m c mid) (hf : ∀ a, mid a → Leaves (f a) c post) :
    Leaves (m >>= f) c post := by
  intro l
  obtain ⟨a, l', hr, ha⟩ := hm l
  obtain ⟨b, l'', hr', hb⟩ := hf a ha l'
  exact ⟨b, l'', hr.bind hr', hb⟩

theorem note {n : Note scanned α} (hf : ∀ a, Leaves (f a) c post) :
    Leaves (Noting.note n >>= f) c post := fun l => hf (n ⟨c, l⟩).1 (n ⟨c, l⟩).2

theorem look {g : Parser scanned → α} (hf : ∀ l, Leaves (f (g ⟨c, l⟩)) c post) :
    Leaves (Tsz.Syntax.look g >>= f) c post := fun l => hf l l

theorem noteLast {n : Note scanned β} (h : ∀ l, post (n ⟨c, l⟩).1) :
    Leaves (Noting.note n : Parse scanned β) c post := fun l => ⟨_, _, .done _ _, h l⟩

theorem ite {p : Prop} [Decidable p] {m m' : Parse scanned β} (h : p → Leaves m c post)
    (h' : ¬ p → Leaves m' c post) : Leaves (if p then m else m') c post := by
  split
  · exact h ‹_›
  · exact h' ‹_›

theorem call {call : Call source} {post : Answer call → Prop}
    (h : Leaves (parseCall call) c post) : Leaves (Parse.call call) c post := by
  intro l
  obtain ⟨a, l', hr, ha⟩ := h l
  exact ⟨a, l', .call hr (.done a _), ha⟩

theorem eat {kind : TokenKind} (hk : c.kind ≠ kind) :
    Leaves (Tsz.Syntax.eat kind) c fun taken => taken = false :=
  Leaves.look fun _ => Leaves.ite (fun _ => Leaves.pure rfl) fun h =>
    absurd (by simpa [Parser.atKind] using h) hk

end Leaves

section

variable {c : Cursor scanned}

theorem leaves_parsePrimaryExpression (hk : c.kind ∈ stuckKinds) :
    Leaves parsePrimaryExpression c fun e => e.kind.isMissing = true := by
  have hasync : Leaves (asyncStartsArrow c.current) c fun starts => starts = false := by
    refine Leaves.look fun _ => Leaves.look fun _ => Leaves.ite (fun h => ?_) fun _ => Leaves.pure rfl
    have hkind : c.kind = .async := h.1
    simp [hkind, stuckKinds] at hk
  have hmissing : Leaves (parseMissingPrimary c.current) c fun e => e.kind.isMissing = true := by
    refine Leaves.note fun _ => Leaves.look fun _ => ?_
    dsimp only
    refine Leaves.ite (fun h => absurd hk ?_) fun _ => Leaves.noteLast fun _ => rfl
    intro hk
    simp only [stuckKinds, List.mem_cons, List.not_mem_nil, or_false] at hk
    rcases hk with hk | hk | hk | hk <;> simp [Parser.atAny, hk, expressionStops] at h
  refine Leaves.look fun _ => Leaves.look fun _ => hasync.bind ?_
  rintro _ rfl
  refine Leaves.look fun _ => Leaves.look fun _ => Leaves.note fun _ => Leaves.look fun _ =>
    Leaves.look fun _ => ?_
  have hcurrent : c.current.kind ∈ stuckKinds := hk
  simp only [stuckKinds, List.mem_cons, List.not_mem_nil, or_false] at hcurrent
  rcases hcurrent with h | h | h | h
  all_goals
    simp only [h, TokenKind.isIdentifier, Bool.false_eq_true, if_false]
    exact hmissing

theorem leaves_typeArgumentsAreFollowedBy (hk : c.kind ≠ .lessThan)
    (predicate : TokenKind → Bool) :
    Leaves (typeArgumentsAreFollowedBy predicate) c fun followed => followed = false :=
  Leaves.look fun _ => Leaves.ite (fun _ => Leaves.pure rfl) fun h =>
    absurd (by simp [Parser.atKind, hk]) h

/-- In front of these tokens a postfix does nothing. -/
theorem stuckKinds_noPostfix : ∀ kind ∈ stuckKinds,
    kind ≠ .lessThan ∧ kind ≠ .leftParen ∧ kind ≠ .leftBracket ∧ kind ≠ .dot ∧ kind ≠ .as ∧
      kind ≠ .bang ∧ kind ≠ .noSubstitutionTemplateLiteral ∧ kind ≠ .templateHead := by decide

theorem leaves_postfixTail (hk : c.kind ∈ stuckKinds) (expression : Expression)
    (hmissing : expression.kind.isMissing = true) :
    Leaves (postfixTail expression) c fun e => e.kind.isMissing = true := by
  obtain ⟨hlt, hparen, hbracket, hdot, has, hbang, htemplate, hhead⟩ := stuckKinds_noPostfix _ hk
  have htagged : Leaves (rejectTaggedTemplate expression.span) c fun tagged => tagged = none :=
    Leaves.look fun _ => Leaves.ite (fun h => absurd h (by simp [Parser.atAny, htemplate, hhead]))
      fun _ => Leaves.pure rfl
  have hpostfix : Leaves (observeUnmodeledPostfixExpression expression.span) c
      fun tagged => tagged = none := by
    refine Leaves.note fun _ => htagged.bind ?_
    rintro _ rfl
    refine Leaves.look fun _ => ?_
    dsimp only
    refine Leaves.ite (fun _ => ?_) fun _ => Leaves.pure rfl
    exact Leaves.look fun _ => Leaves.note fun _ => Leaves.pure rfl
  have hbang : Leaves consumeNonNullPostfix c fun bang => bang = none :=
    Leaves.look fun _ => Leaves.look fun _ =>
      Leaves.ite (fun h => absurd h (by simp [Parser.atKind, hbang])) fun _ => Leaves.pure rfl
  refine (leaves_typeArgumentsAreFollowedBy hlt _).bind ?_
  rintro _ rfl
  refine Leaves.ite (fun h => absurd h (by simp)) fun _ => ?_
  refine (leaves_typeArgumentsAreFollowedBy hlt _).bind ?_
  rintro _ rfl
  refine Leaves.look fun _ => Leaves.ite (fun _ => Leaves.pure hmissing) fun _ => ?_
  refine Leaves.look fun _ => Leaves.ite (fun h => absurd h (by simp [Parser.atKind, hparen]))
    fun _ => ?_
  refine Leaves.look fun _ => Leaves.ite (fun _ => Leaves.pure hmissing) fun _ => ?_
  refine Leaves.look fun _ => Leaves.ite
    (fun h => absurd h (by simp [Parser.atAny, hdot, hbracket])) fun _ => ?_
  refine (Leaves.eat has).bind ?_
  rintro _ rfl
  refine Leaves.ite (fun h => absurd h (by simp)) fun _ => hbang.bind ?_
  rintro _ rfl
  refine hpostfix.bind ?_
  rintro _ rfl
  exact Leaves.pure hmissing

theorem leaves_parseUnaryExpression (hk : c.kind ∈ stuckKinds) :
    Leaves parseUnaryExpression c fun e => e.kind.isMissing = true := by
  have hawait : Leaves parseUnsupportedAwaitTemplate c fun rejected => rejected = none := by
    refine Leaves.look fun _ => Leaves.look fun _ => Leaves.ite (fun h => ?_) fun _ =>
      Leaves.pure rfl
    have hkind : c.kind = .await := by
      simp only [Parser.atKind, Bool.and_eq_true, beq_iff_eq] at h
      exact h.1
    simp [hkind, stuckKinds] at hk
  refine hawait.bind ?_
  rintro _ rfl
  refine Leaves.look fun _ => Leaves.look fun l => ?_
  have hoperator : unaryOperator (⟨c, l⟩ : Parser scanned) = none := by
    simp only [stuckKinds, List.mem_cons, List.not_mem_nil, or_false] at hk
    rcases hk with hk | hk | hk | hk <;> simp [unaryOperator, hk]
  simp only [hoperator]
  refine Leaves.bind (Leaves.call (leaves_parsePrimaryExpression hk)) fun e he => ?_
  exact Leaves.call (leaves_postfixTail hk e he)

/-- In front of these tokens an expression is missing, and stays where it starts. -/
theorem leaves_parseAssignmentExpression (hk : c.kind ∈ stuckKinds) :
    Leaves parseAssignmentExpression c fun e => e.kind.isMissing = true := by
  have hoperators : binaryOperator c.kind = none ∧ assignmentOperator c.kind = none ∧
      c.kind ≠ .question := by
    simp only [stuckKinds, List.mem_cons, List.not_mem_nil, or_false] at hk
    rcases hk with hk | hk | hk | hk <;> simp [hk, binaryOperator, assignmentOperator]
  obtain ⟨hbinary, hassignment, hquestion⟩ := hoperators
  have htail (e : Expression) (he : e.kind.isMissing = true) :
      Leaves (binaryTail 0 e) c fun e => e.kind.isMissing = true := by
    refine Leaves.look fun _ => ?_
    simp only [hbinary]
    exact Leaves.pure he
  have hcondition : Leaves (parseBinaryExpression 0) c fun e => e.kind.isMissing = true := by
    refine Leaves.bind (Leaves.call (leaves_parseUnaryExpression hk)) fun e he => ?_
    dsimp only
    refine Leaves.ite (fun _ => Leaves.note fun _ => ?_) fun _ => ?_
    all_goals exact Leaves.call (htail e he)
  have hconditional : Leaves parseConditionalExpression c fun e => e.kind.isMissing = true := by
    refine Leaves.bind (Leaves.call hcondition) fun e he => Leaves.look fun _ =>
      Leaves.look fun _ => ?_
    have hbumpAt : Leaves (bumpAt .question) c fun taken => taken = none :=
      Leaves.look fun _ => Leaves.ite (fun h => absurd h (by simp [Parser.atKind, hquestion]))
        fun _ => Leaves.pure rfl
    dsimp only
    refine Leaves.ite (fun _ => Leaves.note fun _ => ?_) fun _ => ?_
    all_goals
      refine hbumpAt.bind ?_
      rintro _ rfl
      exact Leaves.pure he
  refine Leaves.look fun _ => hconditional.bind fun e he => ?_
  have hassign (hasLeadingJsdoc : Bool) :
      Leaves (parseAssignmentTail e hasLeadingJsdoc) c fun e => e.kind.isMissing = true := by
    refine Leaves.look fun _ => ?_
    simp only [hassignment]
    exact Leaves.pure he
  exact (hassign _).bind fun e he => Leaves.note fun _ => Leaves.pure he

/-- The parse makes a call without a move. -/
def Makes {α : Type} (m : Parse scanned α) (c : Cursor scanned) (post : Call source → Prop) :
    Prop :=
  ∀ l, ∃ d l', Asks (bodies scanned) (m.run ⟨c, l⟩) d ⟨c, l'⟩ ∧ post d

namespace Makes

variable {α β : Type} {m : Parse scanned α} {f : α → Parse scanned β}
  {post : Call source → Prop}

theorem bind {mid : α → Prop} (hm : Leaves m c mid) (hf : ∀ a, mid a → Makes (f a) c post) :
    Makes (m >>= f) c post := by
  intro l
  obtain ⟨a, l', hr, ha⟩ := hm l
  obtain ⟨d, l'', hask, hd⟩ := hf a ha l'
  exact ⟨d, l'', hask.bind_right hr, hd⟩

theorem look {g : Parser scanned → α} (hf : ∀ l, Makes (f (g ⟨c, l⟩)) c post) :
    Makes (Tsz.Syntax.look g >>= f) c post := fun l => hf l l

theorem ite {p : Prop} [Decidable p] {m m' : Parse scanned β} (h : p → Makes m c post)
    (h' : ¬ p → Makes m' c post) : Makes (if p then m else m') c post := by
  split
  · exact h ‹_›
  · exact h' ‹_›

theorem call {call : Call source} (h : post call) : Makes (Parse.call call) c post :=
  fun l => ⟨call, l, .here call _ _, h⟩

end Makes

/-- The iteration behind a stuck one starts at the same token, stuck as well. -/
theorem makes_callArguments (hk : c.kind ∈ stuckKinds) (arguments : List Expression) :
    Makes (callArguments arguments true) c fun call => call.isStuck c = true := by
  have hkinds : c.kind ≠ .rightParen ∧ c.kind ≠ .endOfFile ∧ c.kind ≠ .fatArrow ∧
      c.kind ≠ .comma := by
    simp only [stuckKinds, List.mem_cons, List.not_mem_nil, or_false] at hk
    rcases hk with hk | hk | hk | hk <;> simp [hk]
  obtain ⟨hparen, hend, harrow, hcomma⟩ := hkinds
  refine Makes.look fun _ => Makes.ite
    (fun h => absurd h (by simp [Parser.atAny, hparen, hend])) fun _ => ?_
  refine Makes.look fun _ => Makes.ite (fun h => absurd h (by simp [Parser.atKind, harrow]))
    fun _ => ?_
  refine Makes.look fun _ => ?_
  refine Makes.bind (Leaves.call (leaves_parseAssignmentExpression hk)) fun argument hmissing => ?_
  refine Makes.look fun _ => Makes.bind (Leaves.eat hcomma) ?_
  rintro _ rfl
  refine Makes.ite (fun h => absurd h (by simp)) fun _ => Makes.look fun _ => ?_
  refine Makes.ite (fun h => absurd h (by simp [Parser.atAny, hparen, hend])) fun _ => ?_
  refine Makes.ite (fun _ => Makes.call ?_) fun h => absurd hmissing h
  simpa [Call.isStuck] using hk

end

theorem isStuck_asks (call : Call source) (p : Parser scanned)
    (h : call.isStuck p.toCursor = true) :
    ∃ d q, Asks (bodies scanned) (bodies scanned call p) d q ∧ d.isStuck q.toCursor = true := by
  unfold Call.isStuck at h
  split at h
  · rename_i arguments
    obtain ⟨d, l, hask, hd⟩ :=
      makes_callArguments (by simpa using h) arguments p.toLedger
    exact ⟨d, ⟨p.toCursor, l⟩, hask, hd⟩
  · cases h

/-! ## Sources -/

/-- Calls of the same form: an iteration of a loop and one further of the same loop. -/
def Call.sameForm (call call' : Call source) : Prop := call.ctorIdx = call'.ctorIdx

/-- The heights in the order of the forms. -/
def heights : List Nat :=
  [13, 10, 4, 3, 2, 1, 3, 1, 11, 11, 11, 12, 0, 0, 0, 0, 1, 0, 2, 0, 0, 0, 0, 1, 5, 5, 0, 2, 5, 0,
    1, 1, 1, 0, 0, 0, 4, 2, 2, 0, 4, 1, 0, 4, 0, 2, 2, 0, 0, 0]

theorem height_eq (call : Call source) : call.height = heights.getD call.ctorIdx 0 := by
  cases call <;> rfl

/-- A call that is not stuck is smaller at the same token only in another form. -/
theorem index_lt_of_smaller {call call' : Call source} {p q : Parser scanned}
    (hsmaller : Smaller (call', q) (call, p)) (hform : call.sameForm call')
    (hp : ¬ call.isStuck p.toCursor = true) (hq : ¬ call'.isStuck q.toCursor = true) :
    p.index < q.index := by
  have hrank : rank call p.toCursor = rank call' q.toCursor := by
    rw [rank, rank, if_neg hp, if_neg hq, height_eq, height_eq, hform]
  rcases Prod.lex_def.mp hsmaller with h | ⟨-, h⟩
  · exact (Cursor.remaining_lt_iff.mp h).2
  · exact absurd h (by simp only [hrank, lt_irrefl, not_false_eq_true])

section

variable [UnicodeIdent] [NumberFormat]

/-- The parser of a source text at its start. -/
def sourceParser (source : SourceText) : Parser (scanSource source) := .new (scanSource source)

/-- `parse_source` comes to its end: the scanner takes every character, and the parser that runs
on its tokens returns or panics. -/
def ParseSourceTerminates (source : SourceText) : Prop :=
  (Scanner.scanTokens source.text.length { output := emptyOutput source } source.text).2 = [] ∧
    Halts (bodies (scanSource source)) (bodies (scanSource source) .sourceUnit (sourceParser source))

/-- A call that is made while a source is parsed. -/
def IsReached (source : SourceText) (call : Call source) (p : Parser (scanSource source)) : Prop :=
  Reaches (bodies (scanSource source)) (.sourceUnit, sourceParser source) (call, p)

/-- Whenever an iteration of a loop leads to a further one, it has consumed a token. -/
def LoopsProgress (source : SourceText) : Prop :=
  ∀ call p, IsReached source call p → ∀ call' q,
    Asks (bodies (scanSource source)) (bodies (scanSource source) call p) call' q →
      call.sameForm call' → p.index < q.index

/-- Parsing a source ends, with every loop iteration consuming a token or leaving its loop,
exactly when no iteration over call arguments is stuck. -/
theorem parseSource_terminates_iff (source : SourceText) :
    ParseSourceTerminates source ∧ LoopsProgress source ↔
      ∀ call p, IsReached source call p → call.isStuck p.toCursor = false := by
  have hhalts : Halts (bodies (scanSource source))
      (bodies (scanSource source) .sourceUnit (sourceParser source)) ↔
        ∀ y : Call source × Parser (scanSource source),
          IsReached source y.1 y.2 → ¬ y.1.isStuck y.2.toCursor = true :=
    halts_iff wellFounded_smaller contracts_bodies smaller_bodies isStuck_asks .sourceUnit _
  constructor
  · rintro ⟨⟨-, hend⟩, -⟩ call p hp
    exact Bool.eq_false_iff.mpr (hhalts.mp hend (call, p) hp)
  · intro h
    have hstuck (call p) (hp : IsReached source call p) : ¬ call.isStuck p.toCursor = true :=
      Bool.eq_false_iff.mp (h call p hp)
    refine ⟨⟨Scanner.scanTokens_rest _ _ _ le_rfl, hhalts.mpr fun y hy => hstuck y.1 y.2 hy⟩, ?_⟩
    intro call p hp call' q hask hform
    have hq : IsReached source call' q := .tail hp hask
    have hsmaller : Smaller (call', q) (call, p) :=
      (smaller_bodies call p (hstuck call p hp)).asks contracts_bodies hask
    exact index_lt_of_smaller hsmaller hform (hstuck call p hp) (hstuck call' q hq)

end

/-! ## A source that is never parsed -/

def rejectedArgument : SourceText := ⟨⟨0⟩, some "ts", "f(<T x;".toList⟩

/-- Behind the assertion without its `>` the argument loop is in its recovery mode, and stays in
front of the semicolon. -/
theorem rejectedArgument_never_parsed :
    ¬ @ParseSourceTerminates asciiIdent spelledNumbers rejectedArgument := by
  let _ := asciiIdent
  let _ := spelledNumbers
  rintro ⟨-, hend⟩
  have hleads : leadsTo (bodies (scanSource rejectedArgument))
      (fun call p => call.isStuck p.toCursor) 60
      (bodies (scanSource rejectedArgument) .sourceUnit (sourceParser rejectedArgument)) = true := by
    decide +kernel
  obtain ⟨⟨call, p⟩, hreach, hstuck⟩ := reaches_of_leadsTo hleads
  exact not_halts_of_stuck isStuck_asks hstuck (hend.reaches hreach)

end Tsz.Syntax
