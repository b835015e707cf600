import Tsz.Syntax.Progress.Literals

/-!
# Progress of types

A type takes a token whenever there is one. The loops over parameters and members go on only
behind a separator or a token taken for the purpose.
-/

namespace Tsz.Syntax

open Noting (note)

variable {source : SourceText} {scanned : ScanOutput source} {r i : Nat} {c : Cursor scanned}

theorem takes_recoverMissingType (hi : c.index = i) (token : Token) :
    Takes r i (recoverMissingType token true) c :=
  Steps.note fun _ => (takes_bump hi).bind fun hk _ _ hi => Steps.pure hi hk

theorem typeAnnotation_keeps (hi : c.index = i) : Keeps r i parseTypeAnnotation c :=
  keeps_eatThen hi (by decide)

/-! ## Parameters -/

theorem keeps_parameterModifiers (hi : c.index = i) (modifiers : List ParameterModifierNode) :
    Keeps r i (parameterModifiers modifiers) c := by
  refine Steps.look fun _ => ?_
  dsimp only
  split
  · exact Steps.pure hi rfl
  · rename_i modifier h
    have hk : c.kind ≠ .endOfFile := by
      intro hk
      cases h.symm.trans (congrArg parameterModifier hk)
    exact Steps.look fun _ =>
      Steps.ite (fun _ => (consumes_bump hi hk).bind) fun _ => Steps.pure hi rfl

theorem takes_parseParameterName (hi : c.index = i) (thisParameter : Bool)
    (modifiers : List ParameterModifierNode) :
    Takes r i (parseParameterName thisParameter modifiers) c := by
  refine Steps.ite (fun _ => ?_) fun _ => Steps.ite (fun _ => ?_) fun _ =>
    Steps.look fun _ => Steps.ite (fun _ => ?_) fun _ => ?_
  · exact (takes_bumpIdentifier hi).bind fun hk _ _ hi => Steps.look fun _ => Steps.pure hi hk
  · exact (takes_parseName hi).bind fun hk _ _ hi => Steps.pure hi hk
  · exact (takes_bump hi).bind fun hk _ _ hi =>
      Steps.look fun _ => Steps.note fun _ => Steps.pure hi hk
  · exact (takes_parseRecoveredBindingHead hi).bind fun hk _ _ hi => Steps.pure hi hk

theorem takes_parseParameterWithThis (hi : c.index = i) (hr : 0 < r) (allowThis : Bool) :
    Takes r i (parseParameterWithThis allowThis) c := by
  refine Steps.look fun _ => Steps.look fun _ => (stays_call hi hr).bind fun modifiers d hd => ?_
  refine Steps.bumpAt hd (by decide) fun _ => Steps.look fun _ => ?_
  dsimp only
  refine Steps.noteIf (Steps.look fun _ => ?_)
  refine (takes_parseParameterName hd _ modifiers).bind fun hk _ e he => Steps.look fun _ => ?_
  refine Steps.bumpAt he (by decide) fun _ => ?_
  refine (keeps_eatThen he (by decide)).bind fun _ => ?_
  refine (keeps_eatThen he (by decide)).bind fun _ => Steps.look fun _ => Steps.look fun _ => ?_
  exact Steps.pure he (Cursor.kind_eq_endOfFile hk (hd.trans hi.symm))

theorem stays_parameters (hi : c.index = i) (hr : 0 < r)
    (allowThis recoverMissingSeparator : Bool) (seen : List Parameter) :
    Stays r i (parameters allowThis recoverMissingSeparator seen) c := by
  refine Steps.look fun _ => Steps.ite (fun _ => Steps.pure hi trivial) fun h => ?_
  have hk : c.kind ≠ .endOfFile := by
    intro hk
    simp [Parser.atAny, hk] at h
  exact Steps.look fun _ => ((takes_parseParameterWithThis hi hr allowThis).consumes hk).bind

theorem stays_parseParametersWithThis (hi : c.index = i) (hr : 1 < r)
    (allowThis recoverMissingSeparator : Bool) :
    Stays r i (parseParametersWithThis allowThis recoverMissingSeparator) c :=
  Steps.expect hi (by decide) fun _ => (stays_call hi hr).bind fun _ _ hd =>
    Steps.expect hd (by decide) fun _ => Steps.pure hd trivial

theorem consumes_parseParametersWithThis (hi : c.index = i) (hk : c.kind = .leftParen)
    (allowThis recoverMissingSeparator : Bool) :
    Consumes r i (parseParametersWithThis allowThis recoverMissingSeparator) c :=
  Steps.expect hi (by decide) fun h => absurd hk h

theorem stays_parseAccessorParameters (hi : c.index = i) (hr : 1 < r) :
    Stays r i parseAccessorParameters c :=
  (stays_parseParametersWithThis hi hr true false).bind fun _ _ hd =>
    Steps.note fun _ => Steps.pure hd trivial

theorem stays_parameterList (hi : c.index = i) (hr : 0 < r) (close : TokenKind)
    (allowThis : Bool) (seen : List Parameter) :
    Stays r i (parameterList close allowThis seen) c := by
  refine Steps.look fun _ => Steps.ite (fun _ => Steps.pure hi trivial) fun h => ?_
  have hk : c.kind ≠ .endOfFile := by
    intro hk
    simp [Parser.atAny, hk] at h
  exact ((takes_parseParameterWithThis hi hr allowThis).consumes hk).bind

/-! ## Type parameters and arguments -/

theorem keeps_typeParameterModifiers (hi : c.index = i)
    (constParameter inVariance outVariance : Bool) :
    Keeps r i (typeParameterModifiers constParameter inVariance outVariance) c := by
  refine Steps.look fun _ => ?_
  dsimp only
  split
  · exact Steps.eat hi (by decide) fun h => absurd ‹_› h
  · exact Steps.eat hi (by decide) fun h => absurd ‹_› h
  · exact Steps.eat hi (by decide) fun h => absurd ‹_› h
  · exact Steps.pure hi rfl

theorem stays_typeParameters (hi : c.index = i) (hr : 0 < r)
    (seen : List TypeParameterDeclaration) : Stays r i (typeParameters seen) c := by
  refine Steps.look fun _ => Steps.look fun _ =>
    Steps.ite (fun _ => Steps.pure hi trivial) fun _ => Steps.look fun _ => ?_
  refine (stays_call hi hr).bind fun _ d hd => (takes_parseName hd).bind fun _ _ e he => ?_
  refine (keeps_eatThen he (by decide)).bind fun _ => (keeps_eatThen he (by decide)).bind fun _ => ?_
  exact Steps.eat he (by decide) fun _ => Steps.pure he trivial

theorem keeps_parseTypeParameters (hi : c.index = i) : Keeps r i parseTypeParameters c :=
  Steps.eat hi (by decide) fun _ => Steps.pure hi rfl

theorem consumes_parseTypeParameters (hi : c.index = i) (hk : c.kind = .lessThan) :
    Consumes r i parseTypeParameters c := Steps.eat hi (by decide) fun h => absurd hk h

theorem stays_typeArguments (hi : c.index = i) (hr : 3 < r) (seen : List TypeNode) :
    Stays r i (typeArguments seen) c := by
  refine Steps.look fun _ => Steps.look fun _ =>
    Steps.ite (fun _ => Steps.pure hi trivial) fun h => ?_
  have hk : c.kind ≠ .endOfFile := by
    intro hk
    simp [Parser.atKind, hk] at h
  have htype : Consumes r i (Parse.call .type : Parse scanned TypeNode) c :=
    Steps.call hi hr fun _ _ _ hg => hg hk
  exact Steps.look fun _ => htype.bind

theorem keeps_parseTypeArgumentsWithClose (hi : c.index = i) :
    Keeps r i parseTypeArgumentsWithClose c :=
  Steps.look fun _ => Steps.eat hi (by decide) fun _ => Steps.pure hi rfl

theorem consumes_parseTypeArgumentsWithClose (hi : c.index = i) (hk : c.kind = .lessThan) :
    Consumes r i parseTypeArgumentsWithClose c :=
  Steps.look fun _ => Steps.eat hi (by decide) fun h => absurd hk h

theorem keeps_parseTypeArguments (hi : c.index = i) : Keeps r i parseTypeArguments c :=
  (keeps_parseTypeArgumentsWithClose hi).bind fun _ => Steps.pure hi rfl

theorem consumes_parseTypeArguments (hi : c.index = i) (hk : c.kind = .lessThan) :
    Consumes r i parseTypeArguments c := (consumes_parseTypeArgumentsWithClose hi hk).bind

/-! ## Types -/

theorem takes_parseIntersectionType (hi : c.index = i) (hr : 1 < r) :
    Takes r i parseIntersectionType c := by
  have htype : Takes r i (Parse.call .postfixType : Parse scanned TypeNode) c :=
    Steps.call hi hr fun _ _ _ hg => not_not.mp hg
  refine Steps.eat hi (by decide) fun _ => htype.bind fun hk _ d hd => ?_
  exact Steps.eat hd (by decide) fun _ => Steps.pure hd hk

theorem takes_parseUnionType (hi : c.index = i) (hr : 1 < r) : Takes r i parseUnionType c :=
  Steps.eat hi (by decide) fun _ => (takes_parseIntersectionType hi hr).bind fun hk _ _ hd =>
    Steps.eat hd (by decide) fun _ => Steps.pure hd hk

theorem stays_intersectionMembers (hi : c.index = i) (hr : 1 < r) (members : List TypeNode) :
    Stays r i (intersectionMembers members) c :=
  (stays_call hi hr).bind fun _ _ hd => Steps.eat hd (by decide) fun _ => Steps.pure hd trivial

theorem stays_unionMembers (hi : c.index = i) (hr : 1 < r) (members : List TypeNode) :
    Stays r i (unionMembers members) c :=
  (takes_parseIntersectionType hi hr).bind fun _ _ _ hd =>
    Steps.eat hd (by decide) fun _ => Steps.pure hd trivial

theorem stays_typeList (hi : c.index = i) (hr : 3 < r) (types : List TypeNode) :
    Stays r i (typeList types) c :=
  (stays_call hi hr).bind fun _ _ hd => Steps.eat hd (by decide) fun _ => Steps.pure hd trivial

theorem takes_parseType (hi : c.index = i) (hr : 1 < r) : Takes r i parseType c :=
  Steps.eat hi (by decide) fun _ => (takes_parseUnionType hi hr).bind fun hk _ _ hd =>
    Steps.eat hd (by decide) fun _ => Steps.eat hd (by decide) fun _ => Steps.pure hd hk

/-! ## Members of object types -/

theorem keeps_parseTypeMemberSeparator (hi : c.index = i) :
    Keeps r i parseTypeMemberSeparator c :=
  Steps.eat hi (by decide) fun _ => Steps.eat hi (by decide) fun _ => Steps.pure hi rfl

theorem stays_parseTypeMemberName (hi : c.index = i) : Stays r i parseTypeMemberName c := by
  refine Steps.look fun _ => Steps.note fun _ => ?_
  dsimp only
  split
  · exact (takes_bump hi).bind fun _ _ _ hd =>
      Steps.look fun _ => Steps.look fun _ => Steps.pure hd trivial
  · exact (takes_bump hi).bind fun _ _ _ hd => Steps.look fun _ => Steps.pure hd trivial
  · exact (takes_bump hi).bind fun _ _ _ hd => Steps.look fun _ => Steps.pure hd trivial
  · rename_i hk
    have hk : c.kind = .leftBracket := hk
    exact (consumes_bump hi (by simp [hk])).bind
  · exact (takes_parseIdentifierName hi).bind fun _ _ _ hd => Steps.pure hd trivial

theorem keeps_typeMemberModifiers (hi : c.index = i) (modifiers : TypeMemberModifiers) :
    Keeps r i (typeMemberModifiers modifiers) c := by
  refine Steps.look fun _ => ?_
  dsimp only
  split
  · exact Steps.pure hi rfl
  · rename_i kind h
    have hk : c.kind ≠ .endOfFile := by
      intro hk
      cases h.symm.trans (congrArg typeMemberModifier hk)
    exact Steps.look fun _ =>
      Steps.ite (fun _ => (consumes_bump hi hk).bind) fun _ => Steps.pure hi rfl

/-- What follows the name or the type parameters of a signature. -/
theorem stays_signatureTail {f : List Parameter → Option TypeNode → Unit → Note scanned TypeMember}
    {m : Parse scanned (List Parameter)} (hm : Stays r i m c) :
    Stays r i (do
      let parameters ← m
      let returnType ← parseTypeAnnotation
      let separator ← parseTypeMemberSeparator
      note (f parameters returnType separator)) c :=
  hm.bind fun _ _ hd => (typeAnnotation_keeps hd).bind fun _ =>
    (keeps_parseTypeMemberSeparator hd).bind fun _ => Steps.noteLast hd fun _ => trivial

theorem stays_parseCallSignature (hi : c.index = i) (hr : 1 < r) :
    Stays r i parseCallSignature c :=
  Steps.look fun _ => (keeps_parseTypeParameters hi).bind fun _ =>
    stays_signatureTail (stays_parseParametersWithThis hi hr true false)

theorem stays_parseConstructSignature (hi : c.index = i) (hr : 1 < r) :
    Stays r i parseConstructSignature c :=
  Steps.look fun _ => Steps.expect hi (by decide) fun _ =>
    (keeps_parseTypeParameters hi).bind fun _ =>
      stays_signatureTail (stays_parseParametersWithThis hi hr false false)

theorem stays_parseAccessorSignature (hi : c.index = i) (hr : 1 < r) (start : Span)
    (modifiers : TypeMemberModifiers) (accessor : AccessorKind) :
    Stays r i (parseAccessorSignature start modifiers accessor) c := by
  refine (takes_bump hi).bind fun _ _ d hd => ?_
  refine (stays_parseTypeMemberName hd).bind fun _ e he => ?_
  refine (keeps_parseTypeParameters he).bind fun _ => ?_
  dsimp only
  exact Steps.noteIf (stays_signatureTail (stays_parseAccessorParameters he hr))

theorem stays_parseIndexSignature (hi : c.index = i) (hr : 1 < r) (start : Span)
    (modifiers : TypeMemberModifiers) : Stays r i (parseIndexSignature start modifiers) c := by
  refine Steps.expect hi (by decide) fun _ => (stays_call hi hr).bind fun _ d hd => ?_
  refine Steps.expect hd (by decide) fun _ => (typeAnnotation_keeps hd).bind fun _ => ?_
  exact (keeps_parseTypeMemberSeparator hd).bind fun _ => Steps.noteLast hd fun _ => trivial

theorem stays_parsePropertyOrMethodSignature (hi : c.index = i) (hr : 1 < r) (start : Span)
    (modifiers : TypeMemberModifiers) :
    Stays r i (parsePropertyOrMethodSignature start modifiers) c := by
  refine (stays_parseTypeMemberName hi).bind fun _ d hd => Steps.eat hd (by decide) fun _ => ?_
  refine Steps.look fun _ => Steps.ite (fun _ => ?_) fun _ => ?_
  · exact (keeps_parseTypeParameters hd).bind fun _ =>
      stays_signatureTail (stays_parseParametersWithThis hd hr false false)
  · refine (typeAnnotation_keeps hd).bind fun _ => ?_
    dsimp only
    refine Steps.ite (fun _ => ?_) fun _ => ?_
    · exact (keeps_eatThen hd (by decide)).bind fun _ =>
        (keeps_parseTypeMemberSeparator hd).bind fun _ => Steps.noteLast hd fun _ => trivial
    · exact (keeps_parseTypeMemberSeparator hd).bind fun _ => Steps.noteLast hd fun _ => trivial

theorem stays_parseTypeMember (hi : c.index = i) (hr : 1 < r) : Stays r i parseTypeMember c := by
  refine Steps.look fun _ => Steps.ite (fun _ => stays_parseCallSignature hi hr) fun _ => ?_
  refine Steps.look fun _ => Steps.look fun _ =>
    Steps.ite (fun _ => stays_parseConstructSignature hi hr) fun _ => ?_
  refine Steps.look fun _ => (stays_call hi (Nat.zero_lt_of_lt hr)).bind fun modifiers d hd => ?_
  refine Steps.look fun _ => Steps.look fun _ =>
    Steps.ite (fun _ => stays_parseAccessorSignature hd hr _ _ _) fun _ => ?_
  refine Steps.look fun _ => Steps.look fun _ =>
    Steps.ite (fun _ => stays_parseAccessorSignature hd hr _ _ _) fun _ => ?_
  exact Steps.look fun _ => Steps.ite (fun _ => stays_parseIndexSignature hd hr _ _) fun _ =>
    stays_parsePropertyOrMethodSignature hd hr _ _

theorem keeps_skipTypeMembers (hi : c.index = i) : Keeps r i skipTypeMembers c := by
  refine Steps.look fun _ => Steps.ite (fun _ => Steps.pure hi rfl) fun h => ?_
  have hk : c.kind ≠ .endOfFile := by
    intro hk
    simp [Parser.atAny, hk] at h
  exact (consumes_bump hi hk).bind

theorem stays_parseRecoveredTypeMember (hi : c.index = i) (hr : 0 < r) :
    Stays r i parseRecoveredTypeMember c := by
  refine Steps.look fun _ => (stays_parseTypeMemberName hi).bind fun _ d hd => ?_
  refine (keeps_eatThen hd (by decide)).bind fun _ => Steps.look fun _ => ?_
  refine (stays_call hd hr).bind fun _ e he => Steps.look fun _ => ?_
  dsimp only
  refine Steps.ite (fun _ => Steps.look fun _ => Steps.ite (fun _ => ?_) fun _ => ?_) fun _ => ?_
  · exact Steps.note fun _ => Steps.look fun _ => Steps.note fun _ => Steps.note fun _ =>
      Steps.pure he trivial
  · exact Steps.note fun _ => Steps.look fun _ => Steps.note fun _ => Steps.note fun _ =>
      Steps.pure he trivial
  · exact Steps.look fun _ => Steps.note fun _ => Steps.note fun _ => Steps.pure he trivial

/-- A token at which nothing was consumed is skipped. -/
theorem consumes_bumpUnlessMoved (hi : c.index = i) (hk : c.kind ≠ .endOfFile) :
    Consumes r i (bumpUnlessMoved i) c := by
  refine Steps.look fun _ => Steps.ite (fun _ => ?_) fun h => absurd hi h
  exact (consumes_bump hi hk).bind

/-- A round of a loop that skips a token that the round did not take. -/
theorem Stays.orBump {α β : Type} {m : Parse scanned α} {f : α → Unit → Parse scanned β}
    {post : β → Cursor scanned → Prop} (hm : Stays r i m c) (hi : c.index = i)
    (hk : c.kind ≠ .endOfFile) :
    Steps r i (m >>= fun a => bumpUnlessMoved c.index >>= f a) c post := by
  subst hi
  refine hm.bind fun _ d hd => ?_
  exact (consumes_bumpUnlessMoved hd fun h => hk (Cursor.kind_eq_endOfFile h hd)).bind

theorem stays_typeMembers (hi : c.index = i) (hr : 1 < r) (members : List TypeMember) :
    Stays r i (typeMembers members) c := by
  refine Steps.look fun _ => Steps.ite (fun _ => Steps.pure hi trivial) fun h => ?_
  have hk : c.kind ≠ .endOfFile := by
    intro hk
    simp [Parser.atAny, hk] at h
  refine Steps.eat hi (by decide) fun _ => Steps.eat hi (by decide) fun _ => ?_
  refine Steps.look fun _ => Steps.ite (fun _ => ?_) fun _ => ?_
  · exact Steps.look fun _ => (stays_parseTypeMember hi hr).orBump hi hk
  · refine Steps.note fun _ => Steps.look fun _ => Steps.look fun _ => Steps.ite (fun _ => ?_) fun _ => ?_
    · exact (consumes_bump hi hk).bind
    · exact (stays_parseRecoveredTypeMember hi (Nat.zero_lt_of_lt hr)).bind fun _ _ hd =>
        Steps.pure hd trivial

theorem consumes_parseTypeMembers (hi : c.index = i) (hk : c.kind = .leftBrace) :
    Consumes r i parseTypeMembers c := Steps.expect hi (by decide) fun h => absurd hk h

/-! ## Primary types -/

theorem stays_mappedTypeMembers (hi : c.index = i) (hr : 1 < r) (members : List TypeMember) :
    Stays r i (mappedTypeMembers members) c := by
  refine Steps.look fun _ => Steps.ite (fun _ => Steps.pure hi trivial) fun h => ?_
  have hk : c.kind ≠ .endOfFile := by
    intro hk
    simp [Parser.atAny, hk] at h
  exact Steps.look fun _ => (stays_parseTypeMember hi hr).orBump hi hk

theorem keeps_tupleLabel (hi : c.index = i) : Keeps r i tupleLabel c := by
  refine Steps.look fun _ => Steps.ite (fun _ => Steps.pure hi rfl) fun h => ?_
  have hk : c.kind ≠ .endOfFile := by
    intro hk
    simp [Parser.atAny, hk] at h
  refine Steps.look fun _ => Steps.ite (fun _ => ?_) fun _ => ?_
  · exact ((takes_bumpIdentifier hi).consumes hk).bind
  · exact (consumes_bump hi hk).bind

theorem stays_parseTupleMember (hi : c.index = i) (hr : 3 < r) :
    Stays r i parseTupleMember c := by
  refine Steps.look fun _ => Steps.look fun _ => Steps.ite (fun _ => ?_) fun _ => ?_
  · refine (stays_call hi (Nat.zero_lt_of_lt hr)).bind fun _ _ hd => ?_
    exact (takes_bump hd).bind fun _ _ _ he => Steps.note fun _ => stays_call he hr
  · exact Steps.bumpAt hi (by decide) fun _ => stays_call hi hr

theorem stays_tupleMembers (hi : c.index = i) (hr : 3 < r) (members : List TypeNode) :
    Stays r i (tupleMembers members) c := by
  refine Steps.look fun _ => Steps.ite (fun _ => Steps.pure hi trivial) fun _ => ?_
  exact (stays_parseTupleMember hi hr).bind fun _ _ hd =>
    Steps.eat hd (by decide) fun _ => Steps.pure hd trivial

theorem consumes_parseGenericFunctionType (hi : c.index = i) (hk : c.kind = .lessThan) :
    Consumes r i parseGenericFunctionType c :=
  Steps.look fun _ => (consumes_parseTypeParameters hi hk).bind

theorem consumes_parseConstructorType (hi : c.index = i) (start : Span)
    (hk : c.kind = .abstract ∨ c.kind = .new) : Consumes r i (parseConstructorType start) c :=
  Steps.eat hi (by decide) fun habstract => Steps.expect hi (by decide) fun hnew =>
    absurd hk (by simp [habstract, hnew])

theorem consumes_parseTypeReference (hi : c.index = i) (hk : c.kind ≠ .endOfFile) :
    Consumes r i parseTypeReference c := (consumes_parseEntityName hi hk).bind

/-- A keyword type is consumed; without one the cursor stays. -/
theorem steps_parseKeywordType (hi : c.index = i) (first : Token) (hfirst : first.kind = c.kind) :
    Steps r i (parseKeywordType first) c fun type d => d = c ∧ type = none := by
  unfold parseKeywordType
  split
  · rename_i keyword h
    have hk : c.kind ≠ .endOfFile := by
      intro hk
      simp [keywordType, hfirst, hk] at h
    exact (consumes_bump hi hk).bind
  · refine Steps.look fun _ => Steps.ite (fun h => ?_) fun _ => Steps.pure hi ⟨rfl, rfl⟩
    have hk : c.kind ≠ .endOfFile := by
      intro hk
      simp [hfirst, hk] at h
    exact (consumes_bump hi hk).bind

theorem takes_parsePrimaryType (hi : c.index = i) : Takes r i parsePrimaryType c := by
  refine Steps.look fun _ => (steps_parseKeywordType hi c.current rfl).bind ?_
  rintro keyword d - ⟨rfl, rfl⟩
  refine Steps.look fun _ => ?_
  by_cases hk : d.kind = .endOfFile
  · have hcurrent : d.current.kind = .endOfFile := hk
    simp only [hcurrent, TokenKind.isIdentifier, reduceCtorEq, false_and, if_false]
    exact takes_recoverMissingType hi _
  · suffices h : Consumes r i _ d from h.steps
    dsimp only
    -- every other kind of token is consumed at once or by the list it opens
    split
    any_goals exact Steps.note fun _ => (consumes_bump hi hk).bind
    any_goals exact (consumes_bump hi hk).bind
    · exact consumes_parseConstructorType hi _ (.inr ‹_›)
    · refine Steps.look fun _ => Steps.ite (fun _ => (consumes_bump hi hk).bind) fun _ => ?_
      exact (consumes_parseTypeMembers hi ‹_›).bind
    · exact consumes_parseGenericFunctionType hi ‹_›
    · refine Steps.ite (fun h => ?_) fun _ => Steps.ite (fun _ => ?_) fun _ => ?_
      · exact consumes_parseConstructorType hi _ (.inl h.1)
      · exact consumes_parseTypeReference hi hk
      · exact (takes_recoverMissingType hi _).consumes hk

theorem keeps_postfixTypeTail (hi : c.index = i) (type : TypeNode) :
    Keeps r i (postfixTypeTail type) c := by
  refine Steps.look fun _ => Steps.look fun _ => Steps.ite (fun h => ?_) fun _ => ?_
  · have hk : c.kind ≠ .endOfFile := by
      intro hk
      simp [Parser.atKind, hk] at h
    exact (consumes_bump hi hk).bind
  · exact Steps.eat hi (by decide) fun _ => Steps.pure hi rfl

theorem takes_parsePostfixType (hi : c.index = i) (hr : 0 < r) : Takes r i parsePostfixType c :=
  (takes_parsePrimaryType hi).bind fun hk _ _ hd => Steps.call hd hr fun _ _ _ _ => hk

end Tsz.Syntax
