import Tsz.Syntax.Parser.Unit

/-!
# Progress of the parser

A parse that starts at an index either consumes a token or stays at the index. As long as it
stays, the calls it makes have a smaller rank than the call it is the body of; behind the index
every call is smaller. The judgement `Steps` says so, and has one rule for each way a parse is
put together.
-/

namespace Tsz.Syntax

open Recursion
open Noting (note)

variable {source : SourceText} {scanned : ScanOutput source}

/-! ## Measure -/

/-- Behind an index at which there was a token. -/
def Cursor.Past (i : Nat) (c : Cursor scanned) : Prop := i < scanned.body.length ∧ i < c.index

def Cursor.remaining (c : Cursor scanned) : Nat := scanned.body.length - c.index

namespace Cursor

variable {c d : Cursor scanned} {i : Nat}

theorem Past.mono (h : c.Past i) (hle : c.index ≤ d.index) : d.Past i :=
  ⟨h.1, h.2.trans_le hle⟩

theorem remaining_lt_iff : d.remaining < c.remaining ↔ d.Past c.index := by
  simp only [remaining, Past]
  omega

theorem past_forward (h : c.kind ≠ .endOfFile) : c.forward.Past c.index :=
  ⟨c.kind_ne_endOfFile_iff.mp h, c.index_lt_forward h⟩

theorem forward_eq (h : c.kind = .endOfFile) : c.forward = c := if_pos h

end Cursor

/-- The tokens in front of which the loop over call arguments can stand still. -/
def stuckKinds : List TokenKind := [.colon, .semicolon, .rightBracket, .rightBrace]

/-- An iteration of the loop over call arguments that starts in its recovery mode, in front of a
token that neither ends the list nor starts an argument. -/
def Call.isStuck : Call source → Cursor scanned → Bool
  | .callArguments _ true, c => stuckKinds.contains c.kind
  | _, _ => false

/-- How many calls can nest at one token below a call of this form. -/
def Call.height : Call source → Nat
  | .sourceUnit => 13
  | .switchClauses _ => 12
  | .sourceStatements _ | .blockStatements _ | .clauseStatements _ => 11
  | .statement => 10
  | .callArguments _ _ | .expressionList _ _ | .templateSpans _ _ _ => 5
  | .assignmentExpression | .typeList _ | .typeArguments _ | .tupleMembers _ => 4
  | .binaryExpression _ | .type => 3
  | .unaryExpression | .unionMembers _ | .intersectionMembers _ | .objectProperties _ _ _
  | .typeMembers _ | .mappedTypeMembers _ | .classMembers _ _ => 2
  | .primaryExpression | .postfixTail _ | .postfixType | .parameters _ _ _
  | .parameterList _ _ _ | .speculativeParameters | .typeParameters _
  | .variableDeclarators _ => 1
  | _ => 0

/-- The height, except that a stuck call is below every other one. -/
def rank (call : Call source) (c : Cursor scanned) : Nat :=
  if call.isStuck c then 0 else call.height

theorem rank_le_height (call : Call source) (c : Cursor scanned) : rank call c ≤ call.height := by
  unfold rank
  split <;> omega

/-- The calls that are sure to consume a token. -/
def Gains : Call source → Cursor scanned → Prop
  | .assignmentExpression, c | .binaryExpression _, c | .unaryExpression, c
  | .primaryExpression, c => c.kind ∉ expressionStops
  | .type, c | .postfixType, c => c.kind ≠ .endOfFile
  | .templateTokens stop, c => c.index ≤ stop ∧ c.kind ≠ .endOfFile
  | _, _ => False

/-- A call consumes a token or returns where it started. -/
def Moves (call : Call source) (p : Parser scanned) (_ : Answer call) (q : Parser scanned) :
    Prop :=
  q.Past p.index ∨ q.index = p.index ∧ ¬ Gains call p.toCursor

theorem Moves.index_le {call : Call source} {p q : Parser scanned} {a : Answer call}
    (h : Moves call p a q) : p.index ≤ q.index := by
  rcases h with h | h
  · exact h.2.le
  · exact h.1.ge

theorem Cursor.kind_eq_endOfFile {c d : Cursor scanned} (hk : d.kind = .endOfFile)
    (hi : d.index = c.index) : c.kind = .endOfFile := by
  by_contra h
  exact d.kind_ne_endOfFile_iff.mpr (hi ▸ c.kind_ne_endOfFile_iff.mp h) hk

/-! ## Judgement -/

variable {α β : Type} {r i : Nat} {c : Cursor scanned}

/-- From the cursor, whatever the ledger, the parse either gets behind the index or stays at it
and ends as `post` says. While it stays at the index it only makes calls of smaller rank. -/
def Steps (r i : Nat) (m : Parse scanned α) (c : Cursor scanned)
    (post : α → Cursor scanned → Prop) : Prop :=
  ∀ l, (m.run ⟨c, l⟩).Ensures (fun call q => q.Past i ∨ rank call q.toCursor < r) Moves
    fun a q => q.Past i ∨ q.index = i ∧ post a q.toCursor

/-- The parse gets behind the index. -/
def Consumes (r i : Nat) (m : Parse scanned α) (c : Cursor scanned) : Prop :=
  Steps r i m c fun _ _ => False

/-- The parse gets behind the index or leaves the cursor as it is. -/
def Keeps (r i : Nat) (m : Parse scanned α) (c : Cursor scanned) : Prop :=
  Steps r i m c fun _ d => d = c

/-- The parse gets behind the index, except at the end of the tokens. -/
def Takes (r i : Nat) (m : Parse scanned α) (c : Cursor scanned) : Prop :=
  Steps r i m c fun _ _ => c.kind = .endOfFile

/-- The parse gets behind the index or stays at it. -/
def Stays (r i : Nat) (m : Parse scanned α) (c : Cursor scanned) : Prop :=
  Steps r i m c fun _ _ => True

namespace Steps

variable {m : Parse scanned α} {f : α → Parse scanned β} {mid post' : α → Cursor scanned → Prop}
  {post : β → Cursor scanned → Prop}

/-- Behind the index every parse is fine. -/
theorem of_past (h : c.Past i) (post : α → Cursor scanned → Prop) : Steps r i m c post := by
  intro l
  refine (m.forward ⟨c, l⟩).mono (fun _ q hq => .inl ?_) (fun _ _ _ _ => Moves.index_le)
    (fun _ q hq => .inl ?_)
  · exact h.mono hq
  · exact h.mono hq

theorem weaken (h : Steps r i m c mid) (hpost : ∀ a d, d.index = i → mid a d → post' a d) :
    Steps r i m c post' := fun l =>
  (h l).weaken fun a q => Or.imp_right fun hq => ⟨hq.1, hpost a q.toCursor hq.1 hq.2⟩

theorem bind (hm : Steps r i m c mid)
    (hf : ∀ a d, d.index = i → mid a d → Steps r i (f a) d post) :
    Steps r i (m >>= f) c post := by
  intro l
  refine (hm l).trans ?_
  rintro a q (hq | ⟨hi, hq⟩)
  · exact of_past hq post q.toLedger
  · exact hf a q.toCursor hi hq q.toLedger

theorem pure {a : β} (hi : c.index = i) (h : post a c) :
    Steps r i (Pure.pure a : Parse scanned β) c post := fun _ => .inr ⟨hi, h⟩

theorem pureBind {a : α} (h : Steps r i (f a) c post) :
    Steps r i ((Pure.pure a : Parse scanned α) >>= f) c post := h

theorem fault : Steps r i (Parse.fault : Parse scanned β) c post := fun _ => trivial

theorem note {n : Note scanned α} (hf : ∀ a, Steps r i (f a) c post) :
    Steps r i (Noting.note n >>= f) c post := fun l => hf (n ⟨c, l⟩).1 (n ⟨c, l⟩).2

theorem look {g : Parser scanned → α} (hf : ∀ l, Steps r i (f (g ⟨c, l⟩)) c post) :
    Steps r i (Tsz.Syntax.look g >>= f) c post := fun l => hf l l

theorem ite {p : Prop} [Decidable p] {m m' : Parse scanned β} (h : p → Steps r i m c post)
    (h' : ¬ p → Steps r i m' c post) : Steps r i (if p then m else m') c post := by
  split
  · exact h ‹_›
  · exact h' ‹_›

/-- A note that is only taken under a condition. -/
theorem noteIf {p : Prop} [Decidable p] {n : Note scanned α} {m : Parse scanned β}
    (h : Steps r i m c post) :
    Steps r i (if p then Noting.note n >>= fun _ => m else m) c post :=
  ite (fun _ => note fun _ => h) fun _ => h

theorem noteLast {n : Note scanned β} (hi : c.index = i) (h : ∀ b, post b c) :
    Steps r i (Noting.note n : Parse scanned β) c post := fun l => .inr ⟨hi, h (n ⟨c, l⟩).1⟩

theorem callOfRank {call : Call source} {post : Answer call → Cursor scanned → Prop}
    (hi : c.index = i) (hr : rank call c < r)
    (h : ∀ a d, d.index = i → ¬ Gains call c → post a d) :
    Steps r i (Parse.call call) c post := by
  intro l
  refine ⟨.inr hr, ?_⟩
  rintro a q (hq | ⟨hq, hg⟩)
  · exact .inl (hi ▸ hq)
  · exact .inr ⟨hq.trans hi, h a q.toCursor (hq.trans hi) hg⟩

theorem call {call : Call source} {post : Answer call → Cursor scanned → Prop}
    (hi : c.index = i) (hr : call.height < r)
    (h : ∀ a d, d.index = i → ¬ Gains call c → post a d) :
    Steps r i (Parse.call call) c post :=
  callOfRank hi ((rank_le_height call c).trans_lt hr) h

end Steps

theorem Consumes.steps {m : Parse scanned α} (h : Consumes r i m c)
    {post : α → Cursor scanned → Prop} : Steps r i m c post :=
  h.weaken fun _ _ _ h => h.elim

theorem Consumes.bind {m : Parse scanned α} {f : α → Parse scanned β}
    {post : β → Cursor scanned → Prop} (hm : Consumes r i m c) : Steps r i (m >>= f) c post :=
  Steps.bind hm fun _ _ _ h => h.elim

/-- What starts a production also starts what the production is the start of. -/
theorem Consumes.bindBind {γ : Type} {m : Parse scanned α} {f : α → Parse scanned β}
    {g : β → Parse scanned γ} {post : γ → Cursor scanned → Prop} (hm : Consumes r i m c) :
    Steps r i (m >>= f >>= g) c post :=
  Consumes.bind hm.bind

theorem Keeps.bind {m : Parse scanned α} {f : α → Parse scanned β}
    {post : β → Cursor scanned → Prop} (hm : Keeps r i m c) (hf : ∀ a, Steps r i (f a) c post) :
    Steps r i (m >>= f) c post := by
  refine Steps.bind hm ?_
  rintro a d - rfl
  exact hf a

theorem Takes.consumes {m : Parse scanned α} (h : Takes r i m c) (hk : c.kind ≠ .endOfFile) :
    Consumes r i m c := h.weaken fun _ _ _ h => hk h

theorem Takes.bind {m : Parse scanned α} {f : α → Parse scanned β}
    {post : β → Cursor scanned → Prop} (hm : Takes r i m c)
    (hf : c.kind = .endOfFile → ∀ a d, d.index = i → Steps r i (f a) d post) :
    Steps r i (m >>= f) c post := Steps.bind hm fun a d hi hk => hf hk a d hi

theorem Steps.stays {m : Parse scanned α} {post : α → Cursor scanned → Prop}
    (h : Steps r i m c post) : Stays r i m c := h.weaken fun _ _ _ _ => trivial

theorem Stays.bind {m : Parse scanned α} {f : α → Parse scanned β}
    {post : β → Cursor scanned → Prop} (hm : Stays r i m c)
    (hf : ∀ a d, d.index = i → Steps r i (f a) d post) : Steps r i (m >>= f) c post :=
  Steps.bind hm fun a d hi _ => hf a d hi

/-! ## Elementary steps -/

section

variable {m : Parse scanned α}

theorem takes_bumpIdentifier (hi : c.index = i) : Takes r i Parse.bumpIdentifier c := by
  by_cases hk : c.kind = .endOfFile
  · exact fun _ => .inr ⟨by simpa [Cursor.forward_eq hk] using hi, hk⟩
  · exact fun _ => .inl (hi ▸ Cursor.past_forward hk)

theorem takes_bump (hi : c.index = i) : Takes r i bump c :=
  Steps.note fun _ => takes_bumpIdentifier hi

theorem consumes_bump (hi : c.index = i) (hk : c.kind ≠ .endOfFile) : Consumes r i bump c :=
  (takes_bump hi).consumes hk

/-- A token of one kind is taken when it is there. -/
theorem steps_eat {kind : TokenKind} (hi : c.index = i) (hkind : kind ≠ .endOfFile) :
    Steps r i (eat kind) c fun taken d => d = c ∧ c.kind ≠ kind ∧ taken = false := by
  refine Steps.look fun _ => ?_
  split
  · rename_i h
    refine Steps.pure hi ⟨rfl, ?_, rfl⟩
    simpa [Parser.atKind] using h
  · rename_i h
    obtain rfl : c.kind = kind := by simpa [Parser.atKind] using h
    exact (consumes_bump hi hkind).bind

theorem keeps_eat {kind : TokenKind} (hi : c.index = i) (hkind : kind ≠ .endOfFile) :
    Keeps r i (eat kind) c := (steps_eat hi hkind).weaken fun _ _ _ h => h.1

theorem consumes_eat {kind : TokenKind} (hi : c.index = i) (hkind : kind ≠ .endOfFile)
    (hk : c.kind = kind) : Consumes r i (eat kind) c :=
  (steps_eat hi hkind).weaken fun _ _ _ h => h.2.1 hk

/-- What follows a token that was not there starts where the token was looked for. -/
theorem Steps.eat {kind : TokenKind} {f : Bool → Parse scanned β}
    {post : β → Cursor scanned → Prop} (hi : c.index = i) (hkind : kind ≠ .endOfFile)
    (hf : c.kind ≠ kind → Steps r i (f false) c post) :
    Steps r i (Tsz.Syntax.eat kind >>= f) c post := by
  refine (steps_eat hi hkind).bind ?_
  rintro taken d - ⟨rfl, hk, rfl⟩
  exact hf hk

theorem Steps.expect {kind : TokenKind} {message : String} {code : Nat}
    {f : Bool → Parse scanned β} {post : β → Cursor scanned → Prop} (hi : c.index = i)
    (hkind : kind ≠ .endOfFile) (hf : c.kind ≠ kind → Steps r i (f false) c post) :
    Steps r i (Tsz.Syntax.expect kind message code >>= f) c post := by
  have h : Steps r i (Tsz.Syntax.expect kind message code) c
      fun taken d => d = c ∧ c.kind ≠ kind ∧ taken = false :=
    Steps.eat hi hkind fun hk => Steps.note fun _ => Steps.pure hi ⟨rfl, hk, rfl⟩
  refine h.bind ?_
  rintro taken d - ⟨rfl, hk, rfl⟩
  exact hf hk

theorem Steps.bumpAt {kind : TokenKind} {f : Option Span → Parse scanned β}
    {post : β → Cursor scanned → Prop} (hi : c.index = i) (hkind : kind ≠ .endOfFile)
    (hf : c.kind ≠ kind → Steps r i (f none) c post) :
    Steps r i (Tsz.Syntax.bumpAt kind >>= f) c post := by
  have h : Steps r i (Tsz.Syntax.bumpAt kind) c
      fun taken d => d = c ∧ c.kind ≠ kind ∧ taken = none := by
    refine Steps.look fun _ => ?_
    split
    · rename_i h
      obtain rfl : c.kind = kind := by simpa [Parser.atKind] using h
      exact (consumes_bump hi hkind).bind
    · rename_i h
      exact Steps.pure hi ⟨rfl, by simpa [Parser.atKind] using h, rfl⟩
  refine h.bind ?_
  rintro taken d - ⟨rfl, hk, rfl⟩
  exact hf hk

theorem steps_eatThen {kind : TokenKind} (hi : c.index = i) (hkind : kind ≠ .endOfFile) :
    Steps r i (eatThen kind m) c fun taken d => d = c ∧ c.kind ≠ kind ∧ taken = none :=
  Steps.eat hi hkind fun hk => Steps.pure hi ⟨rfl, hk, rfl⟩

theorem keeps_eatThen {kind : TokenKind} (hi : c.index = i) (hkind : kind ≠ .endOfFile) :
    Keeps r i (eatThen kind m) c := (steps_eatThen hi hkind).weaken fun _ _ _ h => h.1

/-! ## Jumps -/

theorem stays_withSpeculativeParse (hi : c.index = i) (hm : Stays r i m c) :
    Stays r i (withSpeculativeParse m) c := fun l =>
  (hm { l with speculating := true }).trans fun _ _ _ => .inr ⟨hi, trivial⟩

theorem stays_lookahead {distance : Nat} (hi : c.index = i) (hk : c.kind ≠ .endOfFile)
    (hdistance : 0 < distance) : Stays r i (Parse.lookahead distance m) c := by
  intro l
  have hpast : Cursor.Past i { c with index := c.index + distance } :=
    ⟨hi ▸ c.kind_ne_endOfFile_iff.mp hk, by simp only; omega⟩
  exact (Steps.of_past (m := m) hpast (fun _ _ => True) l).trans fun _ _ _ => .inr ⟨hi, trivial⟩

theorem consumes_advance {distance : Nat} (hi : c.index = i) (hk : c.kind ≠ .endOfFile)
    (hdistance : 0 < distance) :
    Consumes r i (Parse.advance distance : Parse scanned Unit) c :=
  fun _ => .inl ⟨hi ▸ c.kind_ne_endOfFile_iff.mp hk, by simp only; omega⟩

theorem consumes_returningTo {target : α → Option Nat} (hi : c.index = i)
    (hm : Consumes r i m c)
    (htarget : ∀ a distance, target a = some distance → 0 < distance) :
    Consumes r i (Parse.returningTo m target) c := by
  refine fun l => (hm l).trans fun a q hq => ?_
  have hpast : q.Past i := by simpa using hq
  cases ha : target a with
  | none => exact .inl hpast
  | some distance =>
    have hlt := htarget a distance ha
    exact .inl ⟨hpast.1, by simp only; omega⟩

theorem stays_call {call : Call source} (hi : c.index = i) (hr : call.height < r) :
    Stays r i (Parse.call call : Parse scanned _) c :=
  Steps.call hi hr fun _ _ _ _ => trivial

end

end Tsz.Syntax
