import Mathlib.Data.List.Induction
import Tsz.Syntax.Scanner.Partition

/-!
# Nesting of templates

The scanner keeps a counter of open braces and a stack of the counts at which a template left its
text. Both follow from the tokens: the heads that no tail has closed are the stack, and a chunk of
a template only goes on at the count of the innermost of them.

## Main definitions

* `IsInnermostHead` — the open head that the next tail belongs to.
* `Scanner.TemplatesNest` — the invariant of the scan loop.

## Main results

* `Scanner.templatesNest_scanTokens` — the invariant holds in every state of the loop.
-/

namespace Tsz.Syntax

variable {source : SourceText}

/-! ## Braces and heads of a list of tokens -/

def countBrace (depth : Nat) : TokenKind → Nat
  | .leftBrace => depth + 1
  | .rightBrace => depth - 1
  | _ => depth

/-- The braces that are open behind the tokens. A closing brace without an open one is ignored. -/
def bracesOpen (kinds : List TokenKind) : Nat := kinds.foldl countBrace 0

def openHead (heads : List Nat) : TokenKind × Nat → List Nat
  | (.templateHead, index) => index :: heads
  | (.templateTail, _) => heads.tail
  | _ => heads

/-- The positions of the heads that no tail has closed, the innermost one first. -/
def openHeads (kinds : List TokenKind) : List Nat := kinds.zipIdx.foldl openHead []

/-- No tail closes a head in front of the tokens. -/
def KeepsHeads (kinds : List TokenKind) : Prop :=
  ∀ front, front <+: kinds → front.count .templateTail ≤ front.count .templateHead

/-- The head at the position is open, and every head behind it is closed. -/
structure IsInnermostHead (kinds : List TokenKind) (head : Nat) : Prop where
  isHead : kinds[head]? = some .templateHead
  keepsHeads : KeepsHeads (kinds.drop (head + 1))
  balanced :
    (kinds.drop (head + 1)).count .templateHead = (kinds.drop (head + 1)).count .templateTail

section

variable {kinds : List TokenKind} {kind : TokenKind}

@[simp]
theorem bracesOpen_concat : bracesOpen (kinds ++ [kind]) = countBrace (bracesOpen kinds) kind := by
  simp [bracesOpen]

@[simp]
theorem openHeads_concat :
    openHeads (kinds ++ [kind]) = openHead (openHeads kinds) (kind, kinds.length) := by
  simp [openHeads, List.zipIdx_append]

theorem KeepsHeads.concat (h : KeepsHeads kinds)
    (hkind : (kinds ++ [kind]).count .templateTail ≤ (kinds ++ [kind]).count .templateHead) :
    KeepsHeads (kinds ++ [kind]) := by
  intro front hfront
  rcases List.prefix_concat_iff.mp hfront with rfl | hfront
  · exact hkind
  · exact h front hfront

/-- Behind the head at a position of the stack, as many heads as lie above it are open. -/
theorem of_mem_openHeads (kinds : List TokenKind) : ∀ i head, (openHeads kinds)[i]? = some head →
    kinds[head]? = some .templateHead ∧ KeepsHeads (kinds.drop (head + 1)) ∧
      (kinds.drop (head + 1)).count .templateHead =
        (kinds.drop (head + 1)).count .templateTail + i := by
  induction kinds using List.reverseRecOn with
  | nil => simp [openHeads]
  | append_singleton kinds kind ih =>
    -- the heads that were open before stay so
    have hkeep : ∀ i j head, (openHeads kinds)[i]? = some head →
        [kind].count .templateHead + i = [kind].count .templateTail + j →
        (kinds ++ [kind])[head]? = some .templateHead ∧
          KeepsHeads ((kinds ++ [kind]).drop (head + 1)) ∧
          ((kinds ++ [kind]).drop (head + 1)).count .templateHead =
            ((kinds ++ [kind]).drop (head + 1)).count .templateTail + j := by
      intro i j head hhead hcount
      obtain ⟨hkind, hkeeps, hbalance⟩ := ih i head hhead
      obtain ⟨hlt, -⟩ := List.getElem?_eq_some_iff.mp hkind
      rw [List.drop_append_of_le_length hlt]
      have hbalance' : (kinds.drop (head + 1) ++ [kind]).count .templateHead =
          (kinds.drop (head + 1) ++ [kind]).count .templateTail + j := by
        simp only [List.count_append]
        omega
      exact ⟨by rw [List.getElem?_append_left hlt, hkind], hkeeps.concat (by omega), hbalance'⟩
    intro i head hhead
    rw [openHeads_concat] at hhead
    by_cases hopen : kind = .templateHead
    · subst hopen
      cases i with
      | zero =>
        obtain rfl : kinds.length = head := by simpa [openHead] using hhead
        refine ⟨by simp, ?_, by simp⟩
        intro front hfront
        simp_all
      | succ i => exact hkeep i (i + 1) head hhead (by simp [Nat.add_comm])
    · by_cases hclose : kind = .templateTail
      · subst hclose
        refine hkeep (i + 1) i head ?_ (by simp [Nat.add_comm])
        simpa [openHead] using hhead
      · refine hkeep i i head ?_ (by simp [hopen, hclose])
        rwa [openHead] at hhead
        · simp_all
        · simp_all

theorem isInnermostHead_of_head? {head : Nat} (h : (openHeads kinds).head? = some head) :
    IsInnermostHead kinds head := by
  rw [List.head?_eq_getElem?] at h
  obtain ⟨hhead, hkeeps, hbalance⟩ := of_mem_openHeads kinds 0 head h
  exact ⟨hhead, hkeeps, hbalance⟩

theorem lt_length_of_mem_openHeads {head : Nat} (h : head ∈ openHeads kinds) :
    head < kinds.length := by
  obtain ⟨i, hi⟩ := List.getElem?_of_mem h
  exact (List.getElem?_eq_some_iff.mp (of_mem_openHeads kinds i head hi).1).1

end

/-! ## Single tokens -/

theorem kind_fromKeyword (text : String) :
    TokenKind.fromKeyword text ∉
      [.templateHead, .templateMiddle, .templateTail, .rightBrace] := by
  intro h
  have hname := TokenKind.isIdentifierName_fromKeyword text
  simp only [List.mem_cons, List.not_mem_nil, or_false] at h
  rcases h with h | h | h | h <;> rw [h] at hname <;> cases hname

theorem kind_punctuators (c : Char) : ∀ operator ∈ Scanner.punctuators c,
    operator.2 ∉ [.templateHead, .templateMiddle, .templateTail] ∧
      (operator.2 = .rightBrace → c = '\x7d') := by
  unfold Scanner.punctuators
  split <;> simp

namespace Scanner

/-- The counter of braces and the stack of templates. -/
def nesting (s : Scanner source) : Nat × List Nat := (s.braceDepth, s.templateExpressionDepths)

/-- The tokens a character can start, and what each of them does to the stack of templates. -/
inductive TemplateStep (s : Scanner source) (c : Char) : TokenKind → Nat × List Nat → Prop
  | head : TemplateStep s c .templateHead (s.braceDepth, s.braceDepth :: s.templateExpressionDepths)
  | middle (hc : c = '\x7d') (h : s.templateExpressionDepths.head? = some s.braceDepth) :
      TemplateStep s c .templateMiddle s.nesting
  | tail (hc : c = '\x7d') (h : s.templateExpressionDepths.head? = some s.braceDepth) :
      TemplateStep s c .templateTail (s.braceDepth, s.templateExpressionDepths.tail)
  | plain {kind : TokenKind} (hkind : kind ∉ [.templateHead, .templateMiddle, .templateTail])
      (h : kind = .rightBrace → s.templateExpressionDepths.head? ≠ some s.braceDepth) :
      TemplateStep s c kind s.nesting

section

variable (s : Scanner source) {c : Char}

theorem TemplateStep.of_ne {kind : TokenKind}
    (hkind : kind ∉ [.templateHead, .templateMiddle, .templateTail, .rightBrace]) :
    TemplateStep s c kind s.nesting :=
  .plain (by simp_all) (by simp_all)

theorem nesting_scanIdentifier (text : List Char) (length : Nat) (isPrivate : Bool) :
    (s.scanIdentifier text length isPrivate).scanner.nesting = s.nesting := by
  unfold scanIdentifier diagnoseIdentifierAfterNumber
  dsimp only
  split <;> rfl

theorem templateStep_scanIdentifier (text : List Char) (length : Nat) (isPrivate : Bool) :
    TemplateStep s c (s.scanIdentifier text length isPrivate).kind
      (s.scanIdentifier text length isPrivate).scanner.nesting := by
  rw [nesting_scanIdentifier]
  refine .of_ne s ?_
  cases isPrivate
  · exact kind_fromKeyword _
  · simp [scanIdentifier]

theorem templateStep_head (text : List Char) :
    TemplateStep s c (s.scanTemplateToken text true).kind
      (s.scanTemplateToken text true).scanner.nesting := by
  unfold scanTemplateToken
  dsimp only
  split
  · exact .of_ne s (by simp)
  · exact .head
  · exact .of_ne s (by simp)

theorem templateStep_continuation (text : List Char) (hc : c = '\x7d')
    (h : s.templateExpressionDepths.head? = some s.braceDepth) :
    TemplateStep s c (s.scanTemplateToken text false).kind
      (s.scanTemplateToken text false).scanner.nesting := by
  unfold scanTemplateToken
  dsimp only
  split
  · exact .tail hc h
  · exact .middle hc h
  · exact .tail hc h

theorem templateStep_scanPunctuator (text : List Char) (c : Char) (rest : List Char)
    (h : c = '\x7d' → s.templateExpressionDepths.head? ≠ some s.braceDepth) :
    TemplateStep s c (s.scanPunctuator text c rest).kind
      (s.scanPunctuator text c rest).scanner.nesting := by
  unfold scanPunctuator
  split
  · exact .of_ne s (by simp)
  · split
    · next hfind =>
      obtain ⟨hkind, hbrace⟩ := kind_punctuators c _ (List.mem_of_find?_eq_some hfind)
      exact .plain hkind fun hkind => h (hbrace hkind)
    · exact .of_ne s (by simp)

theorem nesting_of_scanRegularExpression {text : List Char} {token : ScannedToken source}
    (h : s.scanRegularExpression text = some token) : token.scanner.nesting = s.nesting := by
  unfold scanRegularExpression at h
  dsimp only at h
  split_ifs at h <;> obtain rfl := Option.some.inj h <;> rfl

theorem templateStep_scanSlash (text rest : List Char) :
    TemplateStep s '/' (s.scanSlash text rest).kind (s.scanSlash text rest).scanner.nesting := by
  unfold scanSlash
  split
  · next token h =>
    split_ifs at h
    rw [s.nesting_of_scanRegularExpression h, s.kind_of_scanRegularExpression h]
    exact .of_ne s (by simp)
  · exact s.templateStep_scanPunctuator text '/' rest (by simp)

theorem templateStep_scanToken [UnicodeIdent] [NumberFormat] (c : Char) (rest : List Char) :
    TemplateStep s c (s.scanToken c rest).kind (s.scanToken c rest).scanner.nesting := by
  unfold scanToken
  dsimp only
  split_ifs with hcontinues _ _ _ _ _ hslash
  · exact s.templateStep_continuation _ hcontinues.1 hcontinues.2
  · exact s.templateStep_scanIdentifier _ _ _
  · refine .of_ne s ?_
    simp only [scanNumber]
    split <;> simp
  · exact s.templateStep_scanIdentifier _ _ _
  · exact .of_ne s (by simp [scanStringToken])
  · exact s.templateStep_head _
  · subst hslash
    exact s.templateStep_scanSlash _ _
  · exact s.templateStep_scanPunctuator _ c rest fun hc h => hcontinues ⟨hc, h⟩

theorem nesting_skipTrivia (fuel : Nat) (s : Scanner source) (text : List Char) :
    (skipTrivia fuel s text).1.nesting = s.nesting := by
  induction fuel generalizing s text with
  | zero => rfl
  | succ fuel ih =>
    rw [skipTrivia]
    dsimp only
    split_ifs
    · exact ih _ _
    · exact ih _ _
    · rw [ih]
      unfold blockComment
      dsimp only
      split <;> rfl
    · rfl

end

/-! ## The invariant -/

def kinds (s : Scanner source) : List TokenKind := s.output.body.map (·.kind)

/-- The stack of templates holds the brace depth of every open head. -/
structure TemplatesNest (s : Scanner source) : Prop where
  braceDepth : s.braceDepth = bracesOpen s.kinds
  depths : s.templateExpressionDepths =
    (openHeads s.kinds).map fun head => bracesOpen (s.kinds.take head)
  ascends : s.templateExpressionDepths.Pairwise (· ≥ ·)
  le_braceDepth : ∀ depth ∈ s.templateExpressionDepths, depth ≤ s.braceDepth
  count_heads : s.kinds.count .templateHead =
    s.kinds.count .templateTail + s.templateExpressionDepths.length
  /-- A chunk goes on behind the brace that closes a substitution of the innermost head. -/
  continues : ∀ index token, s.output.body[index]? = some token →
    token.kind ∈ [.templateMiddle, .templateTail] →
    source.HasCharAt token.span.start '\x7d' ∧
      ∃ head, IsInnermostHead (s.kinds.take index) head ∧
        bracesOpen (s.kinds.take head) = bracesOpen (s.kinds.take index)

namespace TemplatesNest

variable {s t : Scanner source}

theorem congr (h : s.TemplatesNest) (hbody : t.output.body = s.output.body)
    (hnesting : t.nesting = s.nesting) : t.TemplatesNest := by
  obtain ⟨hdepth, hdepths⟩ := Prod.mk.inj hnesting
  have hkinds : t.kinds = s.kinds := by rw [kinds, kinds, hbody]
  constructor <;> simp only [hkinds, hdepth, hdepths, hbody]
  exacts [h.braceDepth, h.depths, h.ascends, h.le_braceDepth, h.count_heads, h.continues]

/-- A closing brace that goes on with no template leaves every head below its depth. -/
theorem le_pred (h : s.TemplatesNest) (hne : s.templateExpressionDepths.head? ≠ some s.braceDepth) :
    ∀ depth ∈ s.templateExpressionDepths, depth ≤ s.braceDepth - 1 := by
  have hascends := h.ascends
  have hle := h.le_braceDepth
  cases hdepths : s.templateExpressionDepths with
  | nil => simp
  | cons top depths =>
    rw [hdepths] at hascends hle hne
    have htop : top < s.braceDepth :=
      Nat.lt_of_le_of_ne (hle top List.mem_cons_self) fun heq => hne (by simp [heq])
    intro depth hdepth
    rcases List.mem_cons.mp hdepth with rfl | hdepth
    · omega
    · have := List.rel_of_pairwise_cons hascends hdepth
      omega

theorem exists_head (h : s.TemplatesNest)
    (htop : s.templateExpressionDepths.head? = some s.braceDepth) :
    ∃ head, IsInnermostHead s.kinds head ∧ bracesOpen (s.kinds.take head) = bracesOpen s.kinds := by
  rw [h.depths, List.head?_map, Option.map_eq_some_iff] at htop
  obtain ⟨head, hhead, hdepth⟩ := htop
  exact ⟨head, isInnermostHead_of_head? hhead, hdepth.trans h.braceDepth⟩

/-- The next token keeps the invariant. -/
theorem step (h : s.TemplatesNest) {c : Char} {kind : TokenKind} {span : Span} {n : Nat × List Nat}
    (hstep : TemplateStep s c kind n) (hc : source.HasCharAt span.start c)
    (hbody : t.output.body = s.output.body ++ [⟨kind, span⟩])
    (hnesting : t.nesting = (countBrace n.1 kind, n.2)) : t.TemplatesNest := by
  obtain ⟨hdepth, hdepths⟩ := Prod.mk.inj hnesting
  have hkinds : t.kinds = s.kinds ++ [kind] := by simp [kinds, hbody]
  have htake : (openHeads s.kinds).map (fun head => bracesOpen ((s.kinds ++ [kind]).take head)) =
      s.templateExpressionDepths := by
    rw [h.depths]
    refine List.map_congr_left fun head hhead => ?_
    rw [List.take_append_of_le_length (Nat.le_of_lt (lt_length_of_mem_openHeads hhead))]
  have hn : n.1 = s.braceDepth := by cases hstep <;> rfl
  have hlength : s.kinds.length = s.output.body.length := List.length_map _
  constructor
  · rw [hdepth, hkinds, bracesOpen_concat, ← h.braceDepth, hn]
  · rw [hdepths, hkinds, openHeads_concat]
    cases hstep with
    | head =>
      simp only [openHead, List.map_cons, htake]
      rw [List.take_left, h.braceDepth]
    | middle => exact htake.symm
    | tail =>
      simp only [openHead, List.map_tail, htake]
    | plain hkind =>
      rw [openHead]
      · exact htake.symm
      · simp_all
      · simp_all
  · rw [hdepths]
    cases hstep with
    | head => exact List.pairwise_cons.mpr ⟨h.le_braceDepth, h.ascends⟩
    | middle => exact h.ascends
    | tail => exact h.ascends.tail
    | plain => exact h.ascends
  · rw [hdepths, hdepth, hn]
    cases hstep with
    | head => simpa [countBrace] using h.le_braceDepth
    | middle => exact h.le_braceDepth
    | tail => exact fun depth hdepth => h.le_braceDepth depth (List.mem_of_mem_tail hdepth)
    | plain hkind hbrace =>
      intro depth hmem
      have hle := h.le_braceDepth depth hmem
      unfold countBrace
      split
      · omega
      · exact h.le_pred (hbrace rfl) depth hmem
      · exact hle
  · have hcount := h.count_heads
    rw [hdepths, hkinds]
    cases hstep with
    | head => simp [hcount]; omega
    | middle => simp [hcount, nesting]
    | tail hc htop =>
      have hpos : 0 < s.templateExpressionDepths.length :=
        List.length_pos_iff.mpr fun hnil => by simp [hnil] at htop
      simp [hcount]
      omega
    | plain hkind =>
      simp only [List.mem_cons, List.not_mem_nil, or_false, not_or] at hkind
      simp [hcount, nesting, hkind.1, hkind.2.2]
  · intro index token htoken hcontinues
    rw [hbody] at htoken
    rw [hkinds]
    rcases Nat.lt_or_ge index s.output.body.length with hlt | hge
    · rw [List.getElem?_append_left hlt] at htoken
      rw [List.take_append_of_le_length (by omega)]
      obtain ⟨hchar, head, hhead, hdepth⟩ := h.continues index token htoken hcontinues
      refine ⟨hchar, head, hhead, ?_⟩
      have := (List.getElem?_eq_some_iff.mp hhead.isHead).1
      rw [List.take_append_of_le_length (by simp at this; omega), hdepth]
    · rw [List.getElem?_append_right hge, List.getElem?_singleton] at htoken
      obtain ⟨hindex, rfl⟩ : index = s.output.body.length ∧ ⟨kind, span⟩ = token := by
        simp at htoken
        exact ⟨by omega, htoken.2⟩
      have htop : c = '\x7d' ∧ s.templateExpressionDepths.head? = some s.braceDepth := by
        cases hstep with
        | head => simp at hcontinues
        | middle hc h => exact ⟨hc, h⟩
        | tail hc h => exact ⟨hc, h⟩
        | plain hkind => simp_all
      obtain ⟨head, hhead, hdepth⟩ := h.exists_head htop.2
      have hlt := (List.getElem?_eq_some_iff.mp hhead.isHead).1
      rw [hindex, ← hlength, List.take_left]
      refine ⟨htop.1 ▸ hc, head, hhead, ?_⟩
      rw [List.take_append_of_le_length (Nat.le_of_lt hlt), hdepth]

end TemplatesNest

variable [UnicodeIdent] [NumberFormat]

theorem TemplatesNest.scanTokens (fuel : Nat) {s : Scanner source} {text : List Char}
    (h : s.TemplatesNest) (htext : text <:+ source.text) :
    (scanTokens fuel s text).1.TemplatesNest := by
  induction fuel generalizing s text with
  | zero => exact h
  | succ fuel ih =>
    obtain ⟨comments, hskips, hfound⟩ := skips_skipTrivia text.length s text htext
    have hnesting := nesting_skipTrivia text.length s text
    have htrivia : (skipTrivia text.length s text).1.TemplatesNest :=
      h.congr (Prod.mk.inj hfound).1 hnesting
    rw [Scanner.scanTokens]
    split
    · next t hrun =>
      rw [hrun] at htrivia
      exact htrivia
    · next t c rest hrun =>
      rw [hrun] at htrivia hskips
      have hstart := hskips.suffix.trans htext
      obtain ⟨before, hbefore⟩ := hskips.suffix.trans htext
      have hafter := List.drop_suffix (t.scanToken c rest).length rest
      have hbody := (Prod.mk.inj (t.found_push c rest (rest.drop (t.scanToken c rest).length))).1
      refine ih (htrivia.step (t.templateStep_scanToken c rest) ?_ hbody rfl) ?_
      · exact ⟨before, rest, hbefore.symm, SourceText.offsetOf_append hbefore.symm⟩
      · exact hafter.trans ((List.suffix_cons c rest).trans ⟨before, hbefore⟩)

/-- In every state of the scan loop the stack of templates is sorted and below the brace depth,
middles and tails continue the innermost head, and the stack counts the open heads. -/
theorem templatesNest_scanTokens (source : SourceText) (steps : Nat) :
    (Scanner.scanTokens steps { output := emptyOutput source } source.text).1.TemplatesNest := by
  refine TemplatesNest.scanTokens steps ?_ List.suffix_rfl
  constructor <;> simp [kinds, emptyOutput, bracesOpen, openHeads]

end Scanner

end Tsz.Syntax
