import Tsz.Lexical.Precedence
import Tsz.Recursion.Completion
import Tsz.Syntax.Progress.Termination

/-!
# Operators

Which tree the parser builds from operands and operators. An operand is whatever the parser reads
as a unary expression, with its postfixes and type assertions.
-/

namespace Tsz.Syntax

open Recursion Precedence

variable {source : SourceText} {scanned : ScanOutput source}

/-- What an operator does, by the tables of the parser. -/
def operatorRole (token : Token) : Option Role :=
  match binaryOperator token.kind with
  | some (_, precedence) => some (.binary precedence)
  | none =>
    if (assignmentOperator token.kind).isSome then some .assign
    else if token.kind = .question then some .question
    else if token.kind = .colon then some .colon
    else none

theorem operatorRole_binary {token : Token} {operator : BinaryOperator} {precedence : Nat}
    (h : binaryOperator token.kind = some (operator, precedence)) :
    operatorRole token = some (.binary precedence) := by simp [operatorRole, h]

theorem operatorRole_assign {token : Token} {operator : AssignmentOperator}
    (h : assignmentOperator token.kind = some operator) : operatorRole token = some .assign := by
  unfold assignmentOperator at h
  split at h
  · simp [operatorRole, binaryOperator, assignmentOperator, *]
  · simp [operatorRole, binaryOperator, assignmentOperator, *]
  · cases h

theorem operatorRole_question {token : Token} (h : token.kind = .question) :
    operatorRole token = some .question := by
  simp [operatorRole, binaryOperator, assignmentOperator, h]

theorem operatorRole_colon {token : Token} (h : token.kind = .colon) :
    operatorRole token = some .colon := by
  simp [operatorRole, binaryOperator, assignmentOperator, h]

/-! ## What is read -/

/-- The expression is read as an operand. -/
def IsOperand (c : Cursor scanned) (e : Expression) (d : Cursor scanned) : Prop :=
  ∃ l l', Returns (bodies scanned) (bodies scanned .unaryExpression ⟨c, l⟩) e ⟨d, l'⟩

/-- The pieces from one cursor to another. -/
inductive Reads : Cursor scanned → List (Piece Expression Token) → Cursor scanned → Prop
  | nil (c : Cursor scanned) : Reads c [] c
  | operand {c d d' : Cursor scanned} {e : Expression} {pieces : List (Piece Expression Token)} :
      IsOperand c e d → Reads d pieces d' → Reads c (.operand e :: pieces) d'
  | operator {c d : Cursor scanned} {pieces : List (Piece Expression Token)} :
      c.kind ≠ .endOfFile → Reads c.forward pieces d → Reads c (.operator c.current :: pieces) d

theorem Reads.append {c d d' : Cursor scanned} {xs ys : List (Piece Expression Token)}
    (h : Reads c xs d) (h' : Reads d ys d') : Reads c (xs ++ ys) d' := by
  induction h with
  | nil c => exact h'
  | operand he _ ih => exact .operand he (ih h')
  | operator hk _ ih => exact .operator hk (ih h')

/-- The expression is the tree, with the spans that the parser gives to its nodes. -/
inductive Builds : Expression → Tree Expression Token → Prop
  | operand (e : Expression) : Builds e (.operand e)
  | binary {left right : Expression} {l r : Tree Expression Token} {token : Token}
      {operator : BinaryOperator} {precedence : Nat} (node : NodeId) :
      Builds left l → Builds right r → binaryOperator token.kind = some (operator, precedence) →
      Builds ⟨node, left.span.merge right.span, .binary left operator token.span right⟩
        (.binary l token r)
  | conditional {condition whenTrue whenFalse : Expression} {c t f : Tree Expression Token}
      (node : NodeId) (question colon : Token) :
      Builds condition c → Builds whenTrue t → Builds whenFalse f →
      Builds ⟨node, condition.span.merge whenFalse.span,
          .conditional condition question.span whenTrue (some colon.span) whenFalse⟩
        (.conditional c question t colon f)
  | unfinished {condition whenTrue whenFalse : Expression} {c t : Tree Expression Token}
      (node : NodeId) (question : Token) :
      Builds condition c → Builds whenTrue t → whenFalse.kind = .missing →
      Builds ⟨node, condition.span.merge whenFalse.span,
          .conditional condition question.span whenTrue none whenFalse⟩
        (.unfinished c question t)
  | assignment {left right : Expression} {l r : Tree Expression Token} {token : Token}
      {operator : AssignmentOperator} (node : NodeId) (hasLeadingJsdoc : Bool) :
      Builds left l → Builds right r → assignmentOperator token.kind = some operator →
      Builds ⟨node, left.span.merge right.span,
          .assignment left operator token.span right hasLeadingJsdoc⟩
        (.assignment l token r)

/-- From one cursor to the other the expression is read, as this tree. -/
structure ReadAs (c : Cursor scanned) (e : Expression) (d : Cursor scanned)
    (t : Tree Expression Token) : Prop where
  builds : Builds e t
  reads : Reads c t.yield d
  correct : t.Correct operatorRole

/-- From one cursor to the other the expression is read, as the only correct tree of its pieces.
There can be more than one when a conditional lacks its colon. -/
structure BuiltAs (c : Cursor scanned) (e : Expression) (d : Cursor scanned)
    (t : Tree Expression Token) : Prop extends ReadAs c e d t where
  unique : ∀ t' : Tree Expression Token, t'.Correct operatorRole → t'.gaps = 0 ∨ t.gaps = 0 →
    t'.yield = t.yield → t' = t

/-- The tree is built so that a binary operator at the cursor goes around it. -/
def Awaits (d : Cursor scanned) (t : Tree Expression Token) : Prop :=
  ∀ operator precedence, binaryOperator d.kind = some (operator, precedence) →
    t.Tight operatorRole precedence

/-- No binary operator of this precedence or a tighter one is at the cursor. -/
def Ends (d : Cursor scanned) (minimumPrecedence : Nat) : Prop :=
  ∀ operator precedence, binaryOperator d.kind = some (operator, precedence) →
    precedence < minimumPrecedence

/-- No operator is at the cursor, except for the colon of a conditional around. -/
def AtEnd (d : Cursor scanned) : Prop :=
  operatorRole d.current = none ∨ operatorRole d.current = some .colon

namespace ReadAs

variable {c d d' d'' : Cursor scanned} {e left right : Expression}
  {t l r : Tree Expression Token}

theorem builtAs (h : ReadAs c e d t) : BuiltAs c e d t where
  toReadAs := h
  unique _ ht' hgaps hyield := ht'.unique h.correct hgaps hyield

theorem of_operand (h : IsOperand c e d) : ReadAs c e d (.operand e) where
  builds := .operand e
  reads := .operand h (.nil d)
  correct := trivial

theorem binary {operator : BinaryOperator} {precedence : Nat} (node : NodeId)
    (hl : ReadAs c left d l) (hop : binaryOperator d.kind = some (operator, precedence))
    (htl : l.Tight operatorRole precedence) (hr : ReadAs d.forward right d' r)
    (htr : r.Tight operatorRole (precedence + 1)) :
    ReadAs c ⟨node, left.span.merge right.span, .binary left operator d.current.span right⟩ d'
      (.binary l d.current r) where
  builds := .binary node hl.builds hr.builds hop
  reads := by
    have hk : d.kind ≠ .endOfFile := by
      intro hk
      simp [hk, binaryOperator] at hop
    exact hl.reads.append (.operator hk hr.reads)
  correct := ⟨precedence, operatorRole_binary hop, ⟨hl.correct, htl⟩, hr.correct, htr⟩

theorem conditional {whenTrue whenFalse : Expression} {f : Tree Expression Token} (node : NodeId)
    (hl : ReadAs c left d l) (htl : l.Tight operatorRole 0) (hquestion : d.kind = .question)
    (ht : ReadAs d.forward whenTrue d' t) (hcolon : d'.kind = .colon)
    (hf : ReadAs d'.forward whenFalse d'' f) :
    ReadAs c ⟨node, left.span.merge whenFalse.span,
        .conditional left d.current.span whenTrue (some d'.current.span) whenFalse⟩ d''
      (.conditional l d.current t d'.current f) where
  builds := .conditional node _ _ hl.builds ht.builds hf.builds
  reads := hl.reads.append (.operator (by simp [hquestion])
    (ht.reads.append (.operator (by simp [hcolon]) hf.reads)))
  correct := ⟨⟨operatorRole_question hquestion, operatorRole_colon hcolon⟩,
    ⟨hl.correct, htl⟩, ht.correct, hf.correct⟩

theorem unfinished {whenTrue whenFalse : Expression} (node : NodeId)
    (hl : ReadAs c left d l) (htl : l.Tight operatorRole 0) (hquestion : d.kind = .question)
    (ht : ReadAs d.forward whenTrue d' t) (hmissing : whenFalse.kind = .missing) :
    ReadAs c ⟨node, left.span.merge whenFalse.span,
        .conditional left d.current.span whenTrue none whenFalse⟩ d'
      (.unfinished l d.current t) where
  builds := .unfinished node _ hl.builds ht.builds hmissing
  reads := hl.reads.append (.operator (by simp [hquestion]) ht.reads)
  correct := ⟨operatorRole_question hquestion, ⟨hl.correct, htl⟩, ht.correct⟩

theorem assignment {operator : AssignmentOperator} (node : NodeId) (hasLeadingJsdoc : Bool)
    (hl : ReadAs c left d l) (htl : l.Tight operatorRole 0)
    (hop : assignmentOperator d.kind = some operator) (hr : ReadAs d.forward right d' r) :
    ReadAs c ⟨node, left.span.merge right.span,
        .assignment left operator d.current.span right hasLeadingJsdoc⟩ d'
      (.assignment l d.current r) where
  builds := .assignment node hasLeadingJsdoc hl.builds hr.builds hop
  reads := by
    have hk : d.kind ≠ .endOfFile := by
      intro hk
      simp [hk, assignmentOperator] at hop
    exact hl.reads.append (.operator hk hr.reads)
  correct := ⟨operatorRole_assign hop, ⟨hl.correct, htl⟩, hr.correct⟩

end ReadAs

/-! ## Judgement -/

/-- The calls that read operators. -/
def Call.ReadsOperators : Call source → Prop
  | .assignmentExpression | .binaryExpression _ | .binaryTail _ _ => True
  | _ => False

/-- What the calls that read operators promise. -/
def Promise : (call : Call source) → Cursor scanned → Answer call → Cursor scanned → Prop
  | .assignmentExpression, c, e, d => ∃ t, ReadAs c e d t ∧ AtEnd d
  | .binaryExpression m, c, e, d =>
    ∃ t, ReadAs c e d t ∧ t.Tight operatorRole m ∧ Awaits d t ∧ Ends d m
  | .binaryTail m left, c, e, d =>
    ∀ c' l, ReadAs c' left c l → l.Tight operatorRole m → Awaits c l →
      ∃ t, ReadAs c' e d t ∧ t.Tight operatorRole m ∧ Awaits d t ∧ Ends d m
  | _, _, _, _ => True

/-- From the cursor, whatever the ledger, the parse returns as `post` says, as part of the body of
a call: it reads operands, and operators with smaller calls. -/
def Builder {α : Type} (call : Call source) (p : Parser scanned) (m : Parse scanned α)
    (c : Cursor scanned) (post : α → Cursor scanned → Prop) : Prop :=
  ∀ l, (m.run ⟨c, l⟩).Completes
    (fun d q => d = .unaryExpression ∨ d.ReadsOperators ∧ Smaller (d, q) (call, p))
    (fun d q r q' => Returns (bodies scanned) (bodies scanned d q) r q' ∧
      (d.ReadsOperators → Promise d q.toCursor r q'.toCursor))
    fun a q => post a q.toCursor

theorem smaller_of_past {call d : Call source} {p : Parser scanned} {c : Cursor scanned}
    (h : c.Past p.index) (l : Ledger) : Smaller (d, ⟨c, l⟩) (call, p) :=
  .left _ _ (Cursor.remaining_lt_iff.mpr h)

theorem smaller_of_rank {call d : Call source} {p : Parser scanned} {c : Cursor scanned}
    (hindex : p.index ≤ c.index) (h : rank d c < rank call p.toCursor) (l : Ledger) :
    Smaller (d, ⟨c, l⟩) (call, p) := by
  have hremaining : c.remaining ≤ p.remaining := Nat.sub_le_sub_left hindex _
  rcases hremaining.lt_or_eq with hlt | heq
  · exact .left _ _ hlt
  · exact Prod.lex_def.mpr (.inr ⟨heq, h⟩)

theorem Cursor.past_forward_of_le {c : Cursor scanned} {i : Nat} (hi : i ≤ c.index)
    (hk : c.kind ≠ .endOfFile) : c.forward.Past i :=
  ⟨hi.trans_lt (Cursor.past_forward hk).1, hi.trans_lt (Cursor.past_forward hk).2⟩

namespace Builder

variable {α β : Type} {call d : Call source} {p : Parser scanned} {c : Cursor scanned}
  {m : Parse scanned α} {f : α → Parse scanned β} {mid post' : α → Cursor scanned → Prop}
  {post : β → Cursor scanned → Prop}

theorem weaken (h : Builder call p m c mid) (hpost : ∀ a d, mid a d → post' a d) :
    Builder call p m c post' := fun l => (h l).weaken fun a q => hpost a q.toCursor

theorem bind (hm : Builder call p m c mid) (hf : ∀ a d, mid a d → Builder call p (f a) d post) :
    Builder call p (m >>= f) c post := fun l =>
  (hm l).trans fun a q hq => hf a q.toCursor hq q.toLedger

theorem pure {b : β} (h : post b c) :
    Builder call p (Pure.pure b : Parse scanned β) c post := fun _ => h

theorem note {n : Note scanned α} (hf : ∀ a, Builder call p (f a) c post) :
    Builder call p (Noting.note n >>= f) c post := fun l => hf (n ⟨c, l⟩).1 (n ⟨c, l⟩).2

theorem look {g : Parser scanned → α} (hf : ∀ l, Builder call p (f (g ⟨c, l⟩)) c post) :
    Builder call p (Tsz.Syntax.look g >>= f) c post := fun l => hf l l

theorem ite {q : Prop} [Decidable q] {m m' : Parse scanned β} (h : q → Builder call p m c post)
    (h' : ¬ q → Builder call p m' c post) : Builder call p (if q then m else m') c post := by
  split
  · exact h ‹_›
  · exact h' ‹_›

/-- A note that is only taken under a condition. -/
theorem noteIf {q : Prop} [Decidable q] {n : Note scanned α} {m : Parse scanned β}
    (h : Builder call p m c post) :
    Builder call p (if q then Noting.note n >>= fun _ => m else m) c post :=
  ite (fun _ => note fun _ => h) fun _ => h

theorem bump {f : Token → Parse scanned β} (hf : Builder call p (f c.current) c.forward post) :
    Builder call p (Tsz.Syntax.bump >>= f) c post := fun _ => hf _

theorem bumpAt {kind : TokenKind} {f : Option Span → Parse scanned β}
    (hf : c.kind = kind → Builder call p (f (some c.current.span)) c.forward post)
    (hf' : c.kind ≠ kind → Builder call p (f none) c post) :
    Builder call p (Tsz.Syntax.bumpAt kind >>= f) c post := by
  by_cases hk : c.kind = kind
  · have h : Builder call p (Tsz.Syntax.bumpAt kind) c
        fun taken d => taken = some c.current.span ∧ d = c.forward :=
      look fun _ => ite (fun _ => bump (pure ⟨rfl, rfl⟩))
        fun hat => absurd hk (by simpa [Parser.atKind] using hat)
    refine h.bind ?_
    rintro taken d ⟨rfl, rfl⟩
    exact hf hk
  · have h : Builder call p (Tsz.Syntax.bumpAt kind) c fun taken d => taken = none ∧ d = c :=
      look fun _ => ite (fun hat => absurd (by simpa [Parser.atKind] using hat) hk)
        fun _ => pure ⟨rfl, rfl⟩
    refine h.bind ?_
    rintro taken d ⟨rfl, rfl⟩
    exact hf' hk

/-- An operand is read. -/
theorem operand {post : Expression → Cursor scanned → Prop}
    (h : ∀ e d, IsOperand c e d → c.index ≤ d.index → post e d) :
    Builder call p (Parse.call .unaryExpression : Parse scanned Expression) c post := by
  intro l
  refine ⟨.inl rfl, ?_⟩
  rintro e q ⟨hr, -⟩
  exact h e q.toCursor ⟨l, q.toLedger, hr⟩ (contracts_bodies.returns hr).index_le

theorem smaller {post : Answer d → Cursor scanned → Prop} (hd : d.ReadsOperators)
    (hsmaller : ∀ l, Smaller (d, ⟨c, l⟩) (call, p))
    (h : ∀ r e, Promise d c r e → c.index ≤ e.index → post r e) :
    Builder call p (Parse.call d) c post := by
  intro l
  refine ⟨.inr ⟨hd, hsmaller l⟩, ?_⟩
  rintro r q ⟨hr, hpromise⟩
  exact h r q.toCursor (hpromise hd) (contracts_bodies.returns hr).index_le

end Builder

/-! ## Bodies -/

variable {p : Parser scanned} {c : Cursor scanned}

theorem builder_binaryTail (m : Nat) (left : Expression) :
    Builder (.binaryTail m left) p (binaryTail m left) p.toCursor
      (Promise (.binaryTail m left) p.toCursor) := by
  refine Builder.look fun _ => ?_
  dsimp only
  split
  · rename_i hnone
    refine Builder.pure fun c' l hl htl hawaits => ⟨l, hl, htl, hawaits, ?_⟩
    intro operator precedence hop
    simp [hnone] at hop
  · rename_i operator precedence hop
    refine Builder.ite (fun hlt => ?_) fun hle => ?_
    · refine Builder.pure fun c' l hl htl hawaits => ⟨l, hl, htl, hawaits, ?_⟩
      intro operator' precedence' hop'
      grind
    · have hk : p.kind ≠ .endOfFile := by
        intro hk
        cases hop.symm.trans (congrArg binaryOperator hk)
      have hpast : p.forward.Past p.index := Cursor.past_forward hk
      have hright : Builder (.binaryTail m left) p
          (Parse.call (.binaryExpression (precedence + 1)) : Parse scanned Expression) p.forward
          fun right d => d.Past p.index ∧
            Promise (.binaryExpression (precedence + 1)) p.forward right d :=
        Builder.smaller trivial (smaller_of_past hpast) fun right d hd hle => ⟨hpast.mono hle, hd⟩
      refine Builder.bump (hright.bind ?_)
      rintro right d ⟨hd, r, hr, htr, -, hends⟩
      refine Builder.note fun node => ?_
      refine Builder.smaller trivial (smaller_of_past hd) fun e d' htail _ => ?_
      intro c' l hl htl hawaits
      have hle' : m ≤ precedence := not_lt.mp hle
      refine htail c' _ (hl.binary node hop (hawaits operator precedence hop) hr htr)
        ⟨precedence, operatorRole_binary hop, hle'⟩ ?_
      -- What follows the right operand binds no tighter than the operator in front of it.
      intro operator' precedence' hop'
      exact ⟨precedence, operatorRole_binary hop, Nat.le_of_lt_succ (hends _ _ hop')⟩

theorem builder_parseBinaryExpression (m : Nat) :
    Builder (.binaryExpression m) p (parseBinaryExpression m) p.toCursor
      (Promise (.binaryExpression m) p.toCursor) := by
  have hoperand : Builder (.binaryExpression m) p
      (Parse.call .unaryExpression : Parse scanned Expression) p.toCursor
      fun e d => IsOperand p.toCursor e d ∧ p.index ≤ d.index :=
    Builder.operand fun e d he hle => ⟨he, hle⟩
  refine hoperand.bind ?_
  rintro e d ⟨he, hle⟩
  refine Builder.noteIf (Builder.smaller trivial (smaller_of_rank hle ?_) fun e' d' htail _ => ?_)
  · simp [rank, Call.isStuck, Call.height]
  · exact htail p.toCursor _ (.of_operand he) trivial fun _ _ _ => trivial

theorem Ends.eq_none {d : Cursor scanned} (h : Ends d 0) : binaryOperator d.kind = none := by
  cases hop : binaryOperator d.kind with
  | none => rfl
  | some found => exact absurd (h found.1 found.2 hop) (Nat.not_lt_zero _)

theorem atEnd_of_none {d : Cursor scanned} (hbinary : binaryOperator d.kind = none)
    (hassign : assignmentOperator d.kind = none) (hquestion : d.kind ≠ .question) : AtEnd d := by
  change binaryOperator d.current.kind = none at hbinary
  change assignmentOperator d.current.kind = none at hassign
  change d.current.kind ≠ .question at hquestion
  by_cases hcolon : d.current.kind = .colon
  · exact .inr (operatorRole_colon hcolon)
  · exact .inl (by simp [operatorRole, hbinary, hassign, hquestion, hcolon])

theorem AtEnd.assignmentOperator_eq_none {d : Cursor scanned} (h : AtEnd d) :
    assignmentOperator d.kind = none := by
  cases hop : assignmentOperator d.kind with
  | none => rfl
  | some operator =>
    have hrole : operatorRole d.current = some .assign := operatorRole_assign hop
    rcases h with h | h
    · simp [h] at hrole
    · simp [h] at hrole

/-- Behind the cursor a whole expression is read with a smaller call. -/
theorem builder_assignmentExpression {call : Call source} (hpast : c.Past p.index) :
    Builder call p (Parse.call .assignmentExpression : Parse scanned Expression) c
      fun e d => d.Past p.index ∧ ∃ t, ReadAs c e d t ∧ AtEnd d :=
  Builder.smaller trivial (smaller_of_past hpast) fun _ _ he hle => ⟨hpast.mono hle, he⟩

theorem builder_parseWhenFalse {call : Call source} (hpast : c.Past p.index) :
    Builder call p parseWhenFalse c fun found d => d.Past p.index ∧
      (c.kind = .colon ∧ found.1 = some c.current.span ∧
          (∃ f, ReadAs c.forward found.2 d f ∧ AtEnd d) ∨
        found.1 = none ∧ found.2.kind = .missing ∧ d = c) := by
  refine Builder.bumpAt (fun hcolon => ?_) fun _ => ?_
  · have hforward : c.forward.Past p.index := hpast.mono c.index_le_forward
    refine (builder_assignmentExpression hforward).bind ?_
    rintro e d ⟨hd, hread⟩
    exact Builder.pure ⟨hd, .inl ⟨hcolon, rfl, hread⟩⟩
  · refine Builder.note fun _ => Builder.look fun _ => ?_
    have hmissing (span : Span) : Builder call p (missingExpression span : Parse scanned _) c
        fun e d => e.kind = .missing ∧ d = c := fun _ => ⟨rfl, rfl⟩
    refine (hmissing _).bind ?_
    rintro e d ⟨he, rfl⟩
    exact Builder.pure ⟨hpast, .inr ⟨rfl, he, rfl⟩⟩

/-- What a conditional expression leaves an assignment to go on with: a binary tree, or a whole
expression at its end. -/
theorem builder_parseConditionalExpression :
    Builder .assignmentExpression p parseConditionalExpression p.toCursor fun e d =>
      p.index ≤ d.index ∧ ∃ t, ReadAs p.toCursor e d t ∧
        (t.Tight operatorRole 0 ∧ binaryOperator d.kind = none ∧ d.kind ≠ .question ∨
          AtEnd d) := by
  have hcondition : Builder .assignmentExpression p
      (Parse.call (.binaryExpression 0) : Parse scanned Expression) p.toCursor fun e d =>
        p.index ≤ d.index ∧ Promise (.binaryExpression 0) p.toCursor e d := by
    refine Builder.smaller trivial (smaller_of_rank le_rfl ?_) fun e d hd hle => ⟨hle, hd⟩
    simp [rank, Call.isStuck, Call.height]
  refine hcondition.bind ?_
  rintro condition d ⟨hle, l, hl, htl, -, hends⟩
  refine Builder.look fun _ => Builder.look fun _ => Builder.noteIf ?_
  refine Builder.bumpAt (fun hquestion => ?_) fun hquestion => ?_
  · have hpast : d.forward.Past p.index := Cursor.past_forward_of_le hle (by simp [hquestion])
    refine (builder_assignmentExpression hpast).bind ?_
    rintro whenTrue d' ⟨hd', t, ht, hend⟩
    refine (builder_parseWhenFalse hd').bind ?_
    rintro ⟨colonSpan, whenFalse⟩ d'' ⟨hd'', hfalse⟩
    refine Builder.noteIf (Builder.note fun node => Builder.pure ⟨hd''.2.le, ?_⟩)
    rcases hfalse with ⟨hcolon, rfl, f, hf, hfend⟩ | ⟨rfl, hmissing, rfl⟩
    · exact ⟨_, hl.conditional _ htl hquestion ht hcolon hf, .inr hfend⟩
    · exact ⟨_, hl.unfinished _ htl hquestion ht hmissing, .inr hend⟩
  · exact Builder.pure ⟨hle, l, hl, .inl ⟨htl, hends.eq_none, hquestion⟩⟩

theorem builder_parseAssignmentExpression :
    Builder .assignmentExpression p parseAssignmentExpression p.toCursor
      (Promise .assignmentExpression p.toCursor) := by
  refine Builder.look fun _ => builder_parseConditionalExpression.bind ?_
  rintro left d ⟨hle, l, hl, hleft⟩
  have htail (hasLeadingJsdoc : Bool) : Builder .assignmentExpression p
      (parseAssignmentTail left hasLeadingJsdoc) d (Promise .assignmentExpression p.toCursor) := by
    refine Builder.look fun _ => ?_
    dsimp only
    split
    · rename_i hnone
      refine Builder.pure ⟨l, hl, ?_⟩
      rcases hleft with ⟨-, hbinary, hquestion⟩ | hend
      · exact atEnd_of_none hbinary hnone hquestion
      · exact hend
    · rename_i operator hop
      have htl : l.Tight operatorRole 0 := by
        rcases hleft with ⟨htl, -, -⟩ | hend
        · exact htl
        · cases hop.symm.trans hend.assignmentOperator_eq_none
      have hk : d.kind ≠ .endOfFile := by
        intro hk
        cases hop.symm.trans (congrArg assignmentOperator hk)
      refine Builder.bump ((builder_assignmentExpression
        (Cursor.past_forward_of_le hle hk)).bind ?_)
      rintro right d' ⟨-, r, hr, hend⟩
      exact Builder.note fun node => Builder.pure ⟨_, hl.assignment _ _ htl hop hr, hend⟩
  refine (htail _).bind fun e d' he => ?_
  exact Builder.note fun _ => Builder.pure he

/-! ## Runs -/

theorem completes_bodies (call : Call source) (p : Parser scanned) (h : call.ReadsOperators) :
    (bodies scanned call p).Completes
      (fun d q => d = .unaryExpression ∨ d.ReadsOperators ∧ Smaller (d, q) (call, p))
      (fun d q r q' => Returns (bodies scanned) (bodies scanned d q) r q' ∧
        (d.ReadsOperators → Promise d q.toCursor r q'.toCursor))
      fun r q => Promise call p.toCursor r q.toCursor := by
  cases call with
  | assignmentExpression => exact builder_parseAssignmentExpression p.toLedger
  | binaryExpression m => exact builder_parseBinaryExpression m p.toLedger
  | binaryTail m left => exact builder_binaryTail m left p.toLedger
  | _ => exact h.elim

/-- The call comes to an operand that is not read. -/
def HasUnreadOperand (call : Call source) (p : Parser scanned) : Prop :=
  ∃ u, Reaches (bodies scanned) (call, p) (.unaryExpression, u) ∧
    ¬ ∃ e q, Returns (bodies scanned) (bodies scanned .unaryExpression u) e q

/-- A call that reads operators keeps its promise, unless one of the operands is not read. -/
theorem promise_or (call : Call source) (p : Parser scanned) (h : call.ReadsOperators) :
    (∃ r q, Returns (bodies scanned) (bodies scanned call p) r q ∧
      Promise call p.toCursor r q.toCursor) ∨ HasUnreadOperand call p := by
  have hoperand (d : Call source) (_ : Parser scanned) (hd : d = .unaryExpression) :
      ¬ d.ReadsOperators := by
    subst hd
    exact id
  refine (completes_induction wellFounded_smaller hoperand completes_bodies call p h).imp_right ?_
  rintro ⟨d, u, hreach, rfl, hnot⟩
  exact ⟨u, hreach, hnot⟩

/-- From operands and operators the parser builds the one tree in which every operator binds
tighter than the one above it, or as tight and to its left, and goes on as long as there is an
operator to go on with. -/
theorem operators_built (p : Parser scanned) :
    (∀ m, (∃ e q t,
        Returns (bodies scanned) (bodies scanned (.binaryExpression m) p) e q ∧
          BuiltAs p.toCursor e q.toCursor t ∧ t.gaps = 0 ∧ t.Tight operatorRole m ∧
          Ends q.toCursor m) ∨ HasUnreadOperand (.binaryExpression m) p) ∧
      ((∃ e q t, Returns (bodies scanned) (bodies scanned .assignmentExpression p) e q ∧
          BuiltAs p.toCursor e q.toCursor t ∧ AtEnd q.toCursor) ∨
        HasUnreadOperand .assignmentExpression p) := by
  constructor
  · intro m
    refine (promise_or (.binaryExpression m) p trivial).imp_left ?_
    rintro ⟨e, q, hreturns, t, ht, htight, -, hends⟩
    exact ⟨e, q, t, hreturns, ht.builtAs, ht.correct.gaps_eq_zero htight, htight, hends⟩
  · refine (promise_or .assignmentExpression p trivial).imp_left ?_
    rintro ⟨e, q, hreturns, t, ht, hend⟩
    exact ⟨e, q, t, hreturns, ht.builtAs, hend⟩

/-! ## Type assertions -/

section

local instance ascii : UnicodeIdent := asciiIdent

local instance spelled : NumberFormat := spelledNumbers

/-- A sum in front of `as`. -/
def sumAssertion : SourceText := ⟨⟨0⟩, some "ts", "a+b as T".toList⟩

def isSumWithAssertion : Expression → Bool
  | ⟨_, _, .binary _ .add _ ⟨_, _, .as _ _⟩⟩ => true
  | _ => false

/-- Only the last operand is asserted to be of the type, although `+` binds tighter than the
relational operators. -/
theorem sumAssertion_built :
    ∃ e q, Returns (bodies (scanSource sumAssertion))
        (bodies (scanSource sumAssertion) (.binaryExpression 0) (sourceParser sumAssertion)) e q ∧
      isSumWithAssertion e = true ∧ q.kind = .endOfFile := by
  have hrun : ((eval (bodies (scanSource sumAssertion)) 40
      (bodies (scanSource sumAssertion) (.binaryExpression 0)
        (sourceParser sumAssertion))).join.map
          fun o => isSumWithAssertion o.1 && o.2.kind == .endOfFile) = some true := by
    decide +kernel
  obtain ⟨o, hjoin, hshape⟩ := Option.map_eq_some_iff.mp hrun
  have hshape : isSumWithAssertion o.1 = true ∧ o.2.kind = .endOfFile := by simpa using hshape
  exact ⟨o.1, o.2, ⟨40, Option.join_eq_some_iff.mp hjoin⟩, hshape.1, hshape.2⟩

end

end Tsz.Syntax
