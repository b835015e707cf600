import Tsz.Syntax.Progress.Steps

/-!
# Progress of names and literals

Names take a token whenever there is one, be it of the wrong kind. A template is consumed from
its head on.
-/

namespace Tsz.Syntax

open Noting (note)

variable {source : SourceText} {scanned : ScanOutput source} {r i : Nat} {c : Cursor scanned}

/-! ## Names -/

theorem takes_parseName (hi : c.index = i) : Takes r i parseName c := by
  refine Steps.look fun _ => Steps.note fun name => ?_
  cases name with
  | keyword =>
    exact (takes_bump hi).bind fun hk _ _ hi => Steps.look fun _ => Steps.pure hi hk
  | identifier =>
    exact (takes_bumpIdentifier hi).bind fun hk _ _ hi => Steps.look fun _ => Steps.pure hi hk
  | missing => exact (takes_bump hi).bind fun hk _ _ hi => Steps.pure hi hk

theorem takes_parseIdentifierName (hi : c.index = i) : Takes r i parseIdentifierName c := by
  refine Steps.look fun _ => ?_
  split
  · exact (takes_bumpIdentifier hi).bind fun hk _ _ hi => Steps.look fun _ => Steps.pure hi hk
  · exact Steps.note fun _ => (takes_bump hi).bind fun hk _ _ hi => Steps.pure hi hk

theorem consumes_parseEntityName (hi : c.index = i) (hk : c.kind ≠ .endOfFile) :
    Consumes r i parseEntityName c :=
  Steps.look fun _ => Steps.note fun _ => ((takes_parseIdentifierName hi).consumes hk).bind

theorem keeps_entityNameTail (hi : c.index = i) (name : String) (span : Span)
    (segmentSpans : List Span) : Keeps r i (entityNameTail name span segmentSpans) c :=
  Steps.eat hi (by decide) fun _ => Steps.pure hi rfl

/-! ## Statements and expressions -/

theorem stays_parseStatement (hi : c.index = i) (hr : 10 < r) : Stays r i parseStatement c :=
  Steps.note fun _ => (stays_call hi hr).bind fun _ _ hi =>
    Steps.note fun _ => Steps.pure hi trivial

theorem stays_parseExpression (hi : c.index = i) (hr : 4 < r) : Stays r i parseExpression c :=
  (stays_call hi hr).bind fun _ _ hi => stays_call hi (Nat.zero_lt_of_lt hr)

theorem consumes_parseBlock (hi : c.index = i) (hk : c.kind = .leftBrace) :
    Consumes r i parseBlock c := by
  refine Steps.look fun _ => ?_
  dsimp only
  split
  · exact Steps.note fun _ => Steps.look fun _ =>
      Steps.expect hi (by decide) fun h => absurd hk h
  · exact Steps.look fun _ => Steps.expect hi (by decide) fun h => absurd hk h

/-! ## Balanced tokens -/

theorem keeps_balancedTokens (hi : c.index = i) (opening closing : TokenKind) (depth : Nat) :
    Keeps r i (balancedTokens opening closing depth) c := by
  refine Steps.look fun _ => ?_
  split
  · exact Steps.pure hi rfl
  · rename_i h
    have hk : c.kind ≠ .endOfFile := fun hk => h (.inr (by simpa [Parser.atKind] using hk))
    exact Steps.look fun _ => (consumes_bump hi hk).bind

theorem consumes_consumeBalancedTokens (hi : c.index = i) (hk : c.kind ≠ .endOfFile)
    (opening closing : TokenKind) (missingMessage : String) :
    Consumes r i (consumeBalancedTokens opening closing missingMessage) c :=
  (consumes_bump hi hk).bind

theorem Cursor.current_of_end (hk : c.kind = .endOfFile) : c.current = source.endToken := by
  have hle : scanned.body.length ≤ c.index :=
    Nat.le_of_not_lt fun hlt => c.kind_ne_endOfFile_iff.mpr hlt hk
  simp [Cursor.current, Cursor.tokenAt, c.splits.length_eq, hle]

theorem keeps_bumpTo (hi : c.index = i) (extent : BraceExtent source) :
    Keeps r i (bumpTo extent) c := by
  refine Steps.look fun _ => Steps.ite (fun h => ?_) fun _ => Steps.pure hi rfl
  have hk : c.kind ≠ .endOfFile := by
    intro hk
    have hstart : c.current.span.start = source.length := by
      rw [Cursor.current_of_end hk]
      rfl
    have hstop := extent.stop_le
    simp only [hstart] at h
    omega
  exact (consumes_bump hi hk).bind

theorem takes_parsePropertyName (hi : c.index = i) : Takes r i parsePropertyName c := by
  refine Steps.look fun _ => Steps.note fun _ => ?_
  dsimp only
  split
  · exact (takes_bump hi).bind fun hk _ _ hi => Steps.look fun _ => Steps.pure hi hk
  · exact (takes_bump hi).bind fun hk _ _ hi => Steps.look fun _ => Steps.pure hi hk
  · exact (takes_bump hi).bind fun hk _ _ hi => Steps.look fun _ => Steps.pure hi hk
  · rename_i hk
    have hk : c.kind = .leftBracket := hk
    exact (consumes_consumeBalancedTokens hi (by simp [hk]) _ _ _).bind
  · split
    · exact (takes_parseIdentifierName hi).bind fun hk _ _ hi => Steps.pure hi hk
    · exact (takes_parseName hi).bind fun hk _ _ hi => Steps.pure hi hk

theorem takes_parseModuleSpecifier (hi : c.index = i) : Takes r i parseModuleSpecifier c := by
  refine Steps.look fun _ => ?_
  split
  · exact (takes_bump hi).bind fun hk _ _ hi => Steps.look fun _ => Steps.pure hi hk
  · exact Steps.note fun _ => Steps.note fun _ =>
      (takes_bump hi).bind fun hk _ _ hi => Steps.pure hi hk

theorem takes_parseRecoveredBindingHead (hi : c.index = i) :
    Takes r i parseRecoveredBindingHead c := by
  refine Steps.look fun _ => Steps.look fun _ => ?_
  split
  · exact takes_parseName hi
  · rename_i closing hclosing
    refine Steps.look fun _ => Steps.look fun _ => ?_
    split
    · exact takes_parseName hi
    · rename_i hlength
      have hk : c.kind ≠ .endOfFile := by
        intro hk
        simp [Parser.bindingPatternClose, hk] at hclosing
      exact (consumes_advance hi hk (by omega)).bind

/-! ## Templates -/

theorem steps_templateTokens (hi : c.index = i) (stop : Nat) :
    Steps r i (templateTokens stop) c fun _ _ => ¬ (c.index ≤ stop ∧ c.kind ≠ .endOfFile) := by
  refine Steps.look fun _ => Steps.look fun _ => ?_
  split
  · rename_i h
    have hk : c.kind ≠ .endOfFile := by simpa [Parser.atKind] using h.2
    refine Steps.look fun _ => ?_
    split
    · exact ((takes_bumpIdentifier hi).consumes hk).bind
    · exact (consumes_bump hi hk).bind
  · rename_i h
    exact Steps.pure hi (by simpa [Parser.atKind] using h)

theorem le_templateEnd (p : Parser scanned) (hk : p.kind ≠ .endOfFile) (nesting : Nat) :
    p.index ≤ p.templateEnd nesting := by
  have hlt := p.kind_ne_endOfFile_iff.mp hk
  unfold Parser.templateEnd
  split
  · exact Nat.le_add_right _ _
  · simp only [Cursor.tokens, List.length_append, List.length_singleton, p.splits.length_eq]
    omega

theorem steps_consumeTemplateThrough (hi : c.index = i) (hr : 0 < r) (first : Token)
    (stop : Nat) :
    Steps r i (consumeTemplateThrough first stop) c fun _ _ =>
      ¬ (c.index ≤ stop ∧ c.kind ≠ .endOfFile) := by
  have hcall : Steps r i (Parse.call (.templateTokens stop) : Parse scanned Unit) c fun _ _ =>
      ¬ (c.index ≤ stop ∧ c.kind ≠ .endOfFile) := Steps.call hi hr fun _ _ _ hg => hg
  refine Steps.look fun _ => ?_
  dsimp only
  split
  · exact Steps.note fun _ => Steps.look fun _ =>
      hcall.bind fun _ _ hi h => Steps.pure hi h
  · exact Steps.look fun _ => hcall.bind fun _ _ hi h => Steps.pure hi h

theorem consumes_consumeTemplateExtent (hi : c.index = i) (hr : 0 < r)
    (hk : c.kind ≠ .endOfFile) : Consumes r i consumeTemplateExtent c := by
  refine Steps.look fun _ => Steps.look fun l => ?_
  refine (steps_consumeTemplateThrough hi hr _ _).weaken fun _ _ _ h => h ⟨?_, hk⟩
  dsimp only
  split
  · exact le_templateEnd ⟨c, l⟩ hk 0
  · exact le_rfl

theorem stays_recoverTemplateExpression (hi : c.index = i) (hr : 0 < r) (head : Token) :
    Stays r i (recoverTemplateExpression head) c :=
  Steps.look fun _ => (steps_consumeTemplateThrough hi hr head _).stays.bind fun _ _ hi =>
    Steps.note fun _ => Steps.noteLast hi fun _ => trivial

/-- Without a template here, nothing is rejected. -/
theorem steps_rejectTaggedTemplate (hi : c.index = i) (hr : 0 < r) (tagSpan : Span) :
    Steps r i (rejectTaggedTemplate tagSpan) c fun rejected d =>
      d = c ∧ rejected = none := by
  refine Steps.look fun _ => ?_
  split
  · rename_i h
    have hk : c.kind ≠ .endOfFile := by
      intro hk
      simp [Parser.atAny, hk] at h
    exact Steps.note fun _ => (consumes_consumeTemplateExtent hi hr hk).bind
  · exact Steps.pure hi ⟨rfl, rfl⟩

theorem consumes_parseNoSubstitutionTemplateLiteral (hi : c.index = i)
    (hk : c.kind ≠ .endOfFile) : Consumes r i parseNoSubstitutionTemplateLiteral c := by
  refine Steps.look fun _ => Steps.note fun cooked => ?_
  cases cooked with
  | none => exact Steps.note fun _ => (consumes_bump hi hk).bind
  | some literal => exact (consumes_bump hi hk).bind

theorem consumes_parseTemplateExpression (hi : c.index = i) (hk : c.kind ≠ .endOfFile) :
    Consumes r i parseTemplateExpression c :=
  Steps.look fun _ => Steps.note fun _ => (consumes_bump hi hk).bind

theorem stays_templateSpans (hi : c.index = i) (hr : 4 < r) (head : Token) (headCooked : String)
    (spans : List TemplateSpan) : Stays r i (templateSpans head headCooked spans) c := by
  have h0 : 0 < r := Nat.zero_lt_of_lt hr
  refine Steps.look fun _ => ?_
  split
  · exact Steps.note fun _ => stays_recoverTemplateExpression hi h0 head
  · refine Steps.look fun _ => ?_
    split
    · exact stays_recoverTemplateExpression hi h0 head
    · refine Steps.look fun _ => (stays_call hi hr).bind fun expression d hi => ?_
      refine Steps.look fun _ => Steps.look fun _ => ?_
      split
      · exact Steps.note fun _ => stays_recoverTemplateExpression hi h0 head
      · rename_i h
        have hk : d.kind ≠ .endOfFile := by
          intro hk
          simp [Parser.atAny, hk] at h
        refine Steps.look fun _ => Steps.note fun cooked => ?_
        cases cooked with
        | none => exact stays_recoverTemplateExpression hi h0 head
        | some cooked => exact (consumes_bump hi hk).bind

/-- An `await` in front of a template is the only expression parsed here. -/
theorem steps_parseUnsupportedAwaitTemplate (hi : c.index = i) :
    Steps r i parseUnsupportedAwaitTemplate c fun rejected d => d = c ∧ rejected = none := by
  refine Steps.look fun _ => Steps.look fun _ => ?_
  split
  · rename_i h
    have hk : c.kind ≠ .endOfFile := by
      intro hk
      simp [Parser.atKind, hk] at h
    exact (consumes_bump hi hk).bind
  · exact Steps.pure hi ⟨rfl, rfl⟩

theorem consumes_parseRegularExpressionLiteral (hi : c.index = i) (hk : c.kind ≠ .endOfFile) :
    Consumes r i parseRegularExpressionLiteral c :=
  Steps.look fun _ => (consumes_bump hi hk).bind

end Tsz.Syntax
