import Tsz.Syntax.Progress.Types

/-!
# Progress of functions

To tell an arrow from a parenthesis the parser tries it out and comes back to where it was. What
it tries out starts with a token of its own, so the calls made there are all behind that token.
-/

namespace Tsz.Syntax

variable {source : SourceText} {scanned : ScanOutput source} {r i : Nat} {c : Cursor scanned}

/-! ## Where an arrow is -/

theorem stays_speculativeParameters (hi : c.index = i) (hr : 0 < r) :
    Stays r i speculativeParameters c := by
  refine Steps.look fun _ => Steps.ite (fun _ => Steps.pure hi trivial) fun h => ?_
  have hk : c.kind ≠ .endOfFile := by
    intro hk
    simp [Parser.atAny, hk] at h
  refine Steps.look fun _ => Steps.ite (fun _ => Steps.pure hi trivial) fun _ => ?_
  exact ((takes_parseParameterWithThis hi hr false).consumes hk).bind

theorem stays_speculativeParenthesizedArrowToken (hi : c.index = i) (hk : c.kind ≠ .endOfFile) :
    Stays r i speculativeParenthesizedArrowToken c := by
  refine Steps.look fun _ => Steps.look fun _ =>
    Steps.ite (fun _ => Steps.pure hi trivial) fun _ => ?_
  have harrow : Consumes r i (speculativeArrow c.index) c := (consumes_bump hi hk).bind
  refine (stays_withSpeculativeParse hi harrow.steps).bind fun _ d hd => ?_
  dsimp only
  exact Steps.noteIf (Steps.pure hd trivial)

theorem stays_typeAnnotationArrowToken {distance : Nat} (hi : c.index = i)
    (hk : c.kind ≠ .endOfFile) (hdistance : 0 < distance) (definite : Bool) :
    Stays r i (typeAnnotationArrowToken distance definite) c := by
  refine Steps.look fun _ => stays_withSpeculativeParse hi ?_
  exact (consumes_advance hi hk hdistance).bind

theorem stays_parenExpressionArrowToken (hi : c.index = i) (definite : Bool) :
    Stays r i (parenExpressionArrowToken definite) c := by
  refine Steps.look fun _ => Steps.ite (fun _ => Steps.pure hi trivial) fun h => ?_
  have hk : c.kind ≠ .endOfFile := by
    intro hk
    simp [Parser.atKind, hk] at h
  refine Steps.ite (fun _ => stays_speculativeParenthesizedArrowToken hi hk) fun _ => ?_
  refine Steps.look fun _ => ?_
  split
  · exact Steps.pure hi trivial
  · refine Steps.look fun _ => ?_
    split
    · exact Steps.pure hi trivial
    · exact Steps.look fun _ => Steps.ite (fun _ => Steps.pure hi trivial) fun _ =>
        stays_typeAnnotationArrowToken hi hk (Nat.succ_pos _) _
    · exact Steps.pure hi trivial

theorem stays_primaryParenthesizedArrowIndex (hi : c.index = i) :
    Stays r i primaryParenthesizedArrowIndex c := by
  refine Steps.look fun _ => Steps.look fun _ =>
    Steps.ite (fun _ => Steps.pure hi trivial) fun _ => Steps.look fun _ => ?_
  split
  · exact Steps.pure hi trivial
  · exact stays_parenExpressionArrowToken hi _

theorem stays_asyncParenthesizedArrowIsArrow (hi : c.index = i) (hk : c.kind ≠ .endOfFile) :
    Stays r i asyncParenthesizedArrowIsArrow c :=
  (stays_lookahead hi hk Nat.one_pos).bind fun _ _ hd => Steps.pure hd trivial

theorem stays_speculativeGenericArrow (hi : c.index = i) : Stays r i speculativeGenericArrow c := by
  refine (keeps_parseTypeParameters hi).bind fun _ => Steps.look fun _ => ?_
  dsimp only
  refine Steps.ite (fun _ => (stays_parenExpressionArrowToken hi _).bind fun arrow d hd => ?_)
    fun _ => Steps.pureBind ?_
  all_goals
    refine Steps.ite (fun _ => (stays_parenExpressionArrowToken ‹_› true).bind
      fun rejected e he => ?_) fun _ => Steps.pureBind ?_
  all_goals split <;> exact Steps.pure ‹_› trivial

theorem stays_genericArrowIsParenthesizedArrow (hi : c.index = i) :
    Stays r i genericArrowIsParenthesizedArrow c := by
  refine Steps.look fun _ => Steps.look fun _ => Steps.look fun _ =>
    Steps.ite (fun _ => Steps.pure hi trivial) fun _ => ?_
  refine (stays_withSpeculativeParse hi (stays_speculativeGenericArrow hi)).bind fun _ d hd => ?_
  refine Steps.look fun _ => Steps.ite (fun _ => ?_) fun _ => Steps.pure hd trivial
  exact Steps.look fun _ => Steps.note fun _ => Steps.pure hd trivial

/-! ## Arrows -/

theorem consumes_parseArrowHeader (hi : c.index = i) (hk : c.kind = .leftParen) (isAsync : Bool)
    (diagnosticCount : Nat) : Consumes r i (parseArrowHeader isAsync diagnosticCount) c := by
  refine Steps.look fun _ => (stays_parenExpressionArrowToken hi true).bind fun arrow d hd => ?_
  have hparen : d.kind = .leftParen := by
    rw [c.kind_congr (hd.trans hi.symm) (by simp [hk, TokenKind.isTypeClose]) (by simp [hk]), hk]
  exact Steps.look fun _ => Steps.note fun _ =>
    (consumes_parseParametersWithThis hd hparen false true).bind

theorem consumes_parseParenthesizedArrow (hi : c.index = i) (generic isAsync : Bool)
    (h : generic = true ∧ c.kind = .lessThan ∨ generic = false ∧ c.kind = .leftParen) :
    Consumes r i (parseParenthesizedArrow generic isAsync) c := by
  refine Steps.look fun _ => Steps.look fun _ => Steps.look fun _ => ?_
  obtain ⟨rfl, hk⟩ | ⟨rfl, hk⟩ := h
  · exact (consumes_parseTypeParameters hi hk).bind
  · have hne : c.kind ≠ .endOfFile := by simp [hk]
    refine Steps.ite (fun h => absurd h (by simp)) fun _ => Steps.pureBind (Steps.look fun _ => ?_)
    -- behind the header the cursor is behind the arrow that was looked up, or behind the list
    have hheader (count : Nat) : Consumes r i (parseArrowHeader isAsync count) c :=
      consumes_parseArrowHeader hi hk isAsync count
    have htarget (header : ArrowHeader) (distance : Nat)
        (h : (if header.recovered then header.arrow.map (· + 1) else none) = some distance) :
        0 < distance := by
      split at h
      · obtain ⟨arrow, -, rfl⟩ := Option.map_eq_some_iff.mp h
        exact Nat.succ_pos arrow
      · cases h
    refine Steps.ite (fun _ => Steps.note fun _ => ?_) fun _ => ?_
    all_goals exact (consumes_returningTo hi (hheader _) htarget).bind

end Tsz.Syntax
