import Tsz.Semantics.NumericNames
import Tsz.Semantics.TypeStore

/-!
# Numeric literal types

A numeric literal type is found again by the bits of its value. The text it is displayed with is
stored beside it: a literal brings that of its number, and a minus in front changes both.

## Main definitions

* `DisplayedLiteral` — a value and its text, from source or behind a minus.
* `LiteralStore` — a store of types with the texts of its numeric literals.
* `NumericOperand.number` — the number that an operand denotes.

## Main results

* `LiteralStore.Reaches.labelled` — each text is that of the bits.
* `evaluate_identity` — types agree if the numbers do, but for a negated zero.
-/

namespace Tsz.Semantics

open Rounding Rounding.Format Decimals Syntax

def signBit : BitVec 64 := 1#64 <<< 63

/-- A value, and the text it is displayed with, which no comparison reads. -/
structure DisplayedLiteral where
  value : NumericLiteral
  display : List Char

namespace DisplayedLiteral

def fromSource [ShortestDigits] (source : List Char) : Option DisplayedLiteral :=
  (parseNumberLiteral source).map fun parsed =>
    { value := ⟨BitVec.ofNat 64 parsed.value⟩, display := parsed.display }

def toggleMinus : List Char → List Char
  | '-' :: display => display
  | display => '-' :: display

def negated (literal : DisplayedLiteral) : DisplayedLiteral where
  value := ⟨literal.value.bits ^^^ signBit⟩
  display := toggleMinus literal.display

end DisplayedLiteral

structure LiteralStore where
  types : TypeStore
  displays : List (TypeId × List Char)

namespace LiteralStore

def new : LiteralStore := ⟨.new, []⟩

def display (s : LiteralStore) (id : TypeId) : Option (List Char) := s.displays.lookup id

/-- An equal literal keeps the text it was stored with. -/
def intern (s : LiteralStore) (literal : DisplayedLiteral) (provenance : LiteralProvenance) :
    TypeId × LiteralStore :=
  let (id, types) := s.types.intern (.literalNumber literal.value provenance)
  (id, { types
         displays :=
           if s.types.Contains id then s.displays else (id, literal.display) :: s.displays })

def tryNumericLiteral [ShortestDigits] (s : LiteralStore) (source : List Char)
    (provenance : LiteralProvenance) : Option (TypeId × LiteralStore) :=
  (DisplayedLiteral.fromSource source).map (s.intern · provenance)

def negatedNumericLiteral (s : LiteralStore) (literal : DisplayedLiteral)
    (provenance : LiteralProvenance) : TypeId × LiteralStore :=
  s.intern literal.negated provenance

/-- A minus in front of an operand of a numeric literal type. -/
def evaluateMinus (s : LiteralStore) (operand : TypeId) : Option (TypeId × LiteralStore) :=
  match s.types.kind operand, s.display operand with
  | .literalNumber value provenance, some display =>
    some (s.negatedNumericLiteral ⟨value, display⟩ provenance)
  | _, _ => none

end LiteralStore

/-- A literal behind any number of minuses. -/
inductive NumericOperand where
  | literal (source : List Char)
  | minus (operand : NumericOperand)

namespace NumericOperand

def evaluate [ShortestDigits] (s : LiteralStore) (provenance : LiteralProvenance) :
    NumericOperand → Option (TypeId × LiteralStore)
  | literal source => s.tryNumericLiteral source provenance
  | minus operand => do
    let (id, s) ← operand.evaluate s provenance
    s.evaluateMinus id

/-- The double that an operand denotes, by its sign and the rest of its bits. -/
def number : NumericOperand → Option (Bool × Nat)
  | literal source =>
    (mathematicalValue (source.filter (· ≠ '_'))).map fun x =>
      (false, binary64.round (inUnits x))
  | minus operand => operand.number.map fun (negative, bits) => (!negative, bits)

end NumericOperand

/-- Zeros are the same number whatever their signs are. -/
def SameNumber (left right : Bool × Nat) : Prop :=
  left.2 = right.2 ∧ (left.1 = right.1 ∨ left.2 = 0)

/-! ## Bits and texts -/

/-- The bits of a double. -/
def toBits (number : Bool × Nat) : BitVec 64 :=
  BitVec.ofNat 64 number.2 ^^^ if number.1 then signBit else 0

theorem toBits_not (negative : Bool) (bits : Nat) :
    toBits (!negative, bits) = toBits (negative, bits) ^^^ signBit := by
  cases negative <;> simp [toBits, BitVec.xor_assoc]

theorem msb_signBit : signBit.msb = true := by decide

theorem toBits_injective {left right : Bool × Nat} (hleft : left.2 ≤ binary64.infinity)
    (hright : right.2 ≤ binary64.infinity) : toBits left = toBits right ↔ left = right := by
  have hbound : binary64.infinity < 2 ^ 63 := by decide
  have hmsb {number : Bool × Nat} (h : number.2 ≤ binary64.infinity) :
      (toBits number).msb = number.1 := by
    have hlow : (BitVec.ofNat 64 number.2).msb = false := by
      rw [BitVec.msb_eq_decide, BitVec.toNat_ofNat, Nat.mod_eq_of_lt (by omega)]
      simpa using h.trans_lt hbound
    obtain ⟨negative, bits⟩ := number
    rw [toBits, BitVec.msb_xor, hlow]
    cases negative <;> simp [msb_signBit]
  constructor
  · intro heq
    have hsign : left.1 = right.1 := by
      rw [← hmsb hleft, ← hmsb hright, heq]
    unfold toBits at heq
    rw [hsign, BitVec.xor_left_inj] at heq
    have hnat := congrArg BitVec.toNat heq
    rw [BitVec.toNat_ofNat, BitVec.toNat_ofNat, Nat.mod_eq_of_lt (by omega),
      Nat.mod_eq_of_lt (by omega)] at hnat
    exact Prod.ext hsign hnat
  · rintro rfl
    rfl

/-- The text stored for a double: its own one, or a minus in front of a zero. -/
def storedText [ShortestDigits] (number : Bool × Nat) : List Char :=
  (if number.1 then ['-'] else []) ++ javascriptNumberToString false number.2

theorem exists_head_javascriptNumberToString [ShortestDigits] (bits : Nat) :
    ∃ c cs, javascriptNumberToString false bits = c :: cs ∧ c ≠ '-' := by
  rcases Nat.eq_zero_or_pos bits with rfl | hpos
  · exact ⟨'0', [], rfl, by decide⟩
  · by_cases hfinite : bits = binary64.infinity
    · refine ⟨'I', "nfinity".toList, ?_, by decide⟩
      rw [javascriptNumberToString, if_neg hpos.ne', if_pos hfinite]
      rfl
    · obtain ⟨c, integer, point, exponent, htext, hinteger, -⟩ :=
        (ShortestDigits.shortest bits).exists_parts
      refine ⟨c, integer ++ point ++ exponent, ?_, ?_⟩
      · rw [javascriptNumberToString_false hpos hfinite, htext]
        rfl
      · rintro rfl
        exact absurd (hinteger '-' (by simp)) (by decide)

theorem toggleMinus_storedText [ShortestDigits] (negative : Bool) (bits : Nat) :
    DisplayedLiteral.toggleMinus (storedText (negative, bits)) = storedText (!negative, bits) := by
  obtain ⟨c, cs, htext, hc⟩ := exists_head_javascriptNumberToString bits
  cases negative with
  | true => simp [storedText, DisplayedLiteral.toggleMinus]
  | false =>
    simp only [storedText, htext]
    unfold DisplayedLiteral.toggleMinus
    split
    next heq => exact absurd (List.cons.inj heq).1 hc
    next => rfl

theorem storedText_eq_iff [ShortestDigits] (number : Bool × Nat) :
    storedText number = doubleToText number.1 number.2 ↔ number ≠ (true, 0) := by
  obtain ⟨negative, bits⟩ := number
  unfold storedText doubleToText
  rcases Nat.eq_zero_or_pos bits with rfl | hpos
  · cases negative <;> simp [javascriptNumberToString]
  · refine iff_of_true ?_ fun heq => hpos.ne' (Prod.mk.inj heq).2
    simp only [if_neg hpos.ne']
    by_cases hfinite : bits = binary64.infinity
    · rw [if_pos hfinite, javascriptNumberToString, if_neg hpos.ne', if_pos hfinite]
    · rw [if_neg hfinite, javascriptNumberToString_false hpos hfinite]

/-! ## Stores -/

namespace LiteralStore

theorem types_intern (s : LiteralStore) (literal : DisplayedLiteral)
    (provenance : LiteralProvenance) :
    (s.intern literal provenance).2.types =
        (s.types.intern (.literalNumber literal.value provenance)).2 ∧
      (s.intern literal provenance).1 =
        (s.types.intern (.literalNumber literal.value provenance)).1 :=
  ⟨rfl, rfl⟩

variable [ShortestDigits]

/-- Each numeric literal has the text of its bits. -/
structure Labelled (s : LiteralStore) : Prop where
  consistent : s.types.Consistent
  display : ∀ id, s.types.Contains id → ∀ value provenance,
    s.types.kind id = .literalNumber value provenance →
      ∃ number : Bool × Nat, number.2 ≤ binary64.infinity ∧ value.bits = toBits number ∧
        s.display id = some (storedText number)

/-- A literal with the bits and the text of a number. -/
structure Shows (literal : DisplayedLiteral) (number : Bool × Nat) : Prop where
  le_infinity : number.2 ≤ binary64.infinity
  value : literal.value = ⟨toBits number⟩
  display : literal.display = storedText number

theorem Shows.negated {literal : DisplayedLiteral} {number : Bool × Nat}
    (h : Shows literal number) : Shows literal.negated (!number.1, number.2) where
  le_infinity := h.le_infinity
  value := by
    rw [DisplayedLiteral.negated, h.value, toBits_not]
  display := by
    rw [DisplayedLiteral.negated, h.display, ← toggleMinus_storedText]

/-- Literals and minuses are evaluated, and other types are added, in any order. -/
inductive Reaches (s : LiteralStore) : LiteralStore → Prop
  | refl : Reaches s s
  | literal {t u : LiteralStore} {source : List Char} {provenance : LiteralProvenance}
      {id : TypeId} (h : Reaches s t)
      (heq : t.tryNumericLiteral source provenance = some (id, u)) : Reaches s u
  | minus {t u : LiteralStore} {operand id : TypeId} (h : Reaches s t)
      (heq : t.evaluateMinus operand = some (id, u)) : Reaches s u
  | other {t : LiteralStore} {types : TypeStore} (h : Reaches s t)
      (hextends : t.types.Extends types) (hconsistent : types.Consistent)
      (hother : ∀ id, types.Contains id → ¬ t.types.Contains id → ∀ value provenance,
        types.kind id ≠ .literalNumber value provenance) : Reaches s { t with types }

variable {s t u : LiteralStore}

theorem Labelled.intern (h : s.Labelled) {literal : DisplayedLiteral} {number : Bool × Nat}
    (hshows : Shows literal number) (provenance : LiteralProvenance) :
    (s.intern literal provenance).2.Labelled := by
  have hconsistent := h.consistent.intern (k := .literalNumber literal.value provenance)
    fun c hc => nomatch hc
  refine ⟨hconsistent, fun id hid value provenance' hkind => ?_⟩
  rcases s.types.intern_cases (.literalNumber literal.value provenance) with
    ⟨old, hold, heq⟩ | ⟨hnone, heq⟩
  · obtain ⟨hcontains, -⟩ := h.consistent.interned _ _ hold
    have hsame : (s.intern literal provenance).2 = s := by
      simp only [LiteralStore.intern, heq, if_pos hcontains]
    rw [hsame] at hid hkind ⊢
    exact h.display id hid value provenance' hkind
  · have hnew : ¬ s.types.Contains ⟨s.types.kinds.length⟩ := Nat.lt_irrefl _
    have hdisplays : (s.intern literal provenance).2.displays =
        (⟨s.types.kinds.length⟩, literal.display) :: s.displays := by
      simp only [LiteralStore.intern, heq, if_neg hnew]
    rw [(s.types_intern literal provenance).1, heq] at hid hkind
    rcases TypeStore.contains_push.mp hid with hold | hlast
    · have hkind := (TypeStore.kind_push_of_contains hold).symm.trans hkind
      obtain ⟨other, hle, hbits, hdisplay⟩ := h.display id hold value provenance' hkind
      refine ⟨other, hle, hbits, ?_⟩
      have hne : id ≠ ⟨s.types.kinds.length⟩ := by
        rintro rfl
        exact hnew hold
      rw [LiteralStore.display, hdisplays, List.lookup_cons, beq_false_of_ne hne]
      exact hdisplay
    · obtain rfl : id = ⟨s.types.kinds.length⟩ := by
        cases id
        exact congrArg TypeId.mk hlast
      have hkind := TypeStore.kind_push_last.symm.trans hkind
      injection hkind with hvalue
      refine ⟨number, hshows.le_infinity, ?_, ?_⟩
      · rw [← hvalue, hshows.value]
      · rw [LiteralStore.display, hdisplays, List.lookup_cons_self, hshows.display]

theorem shows_fromSource {source : List Char} {literal : DisplayedLiteral}
    (h : DisplayedLiteral.fromSource source = some literal) :
    ∃ number, (NumericOperand.literal source).number = some number ∧ Shows literal number := by
  obtain ⟨parsed, hparse, rfl⟩ := Option.map_eq_some_iff.mp h
  obtain ⟨value, hvalue, rfl⟩ := Option.map_eq_some_iff.mp hparse
  rw [numericValue_eq] at hvalue
  obtain ⟨x, hx, rfl⟩ := Option.map_eq_some_iff.mp hvalue
  refine ⟨(false, binary64.round (inUnits x)), ?_, ?_, ?_, ?_⟩
  · rw [NumericOperand.number, hx]
    rfl
  · exact (isRounded_round binary64 (inUnits_nonneg (mathematicalValue_nonneg hx))).le_infinity
  · simp [toBits]
  · rfl

theorem Labelled.shows_kind (h : s.Labelled) {id : TypeId} (hid : s.types.Contains id)
    {value : NumericLiteral} {provenance : LiteralProvenance}
    (hkind : s.types.kind id = .literalNumber value provenance) {display : List Char}
    (hdisplay : s.display id = some display) {number : Bool × Nat}
    (hnumber : number.2 ≤ binary64.infinity) (hbits : value.bits = toBits number) :
    Shows ⟨value, display⟩ number := by
  obtain ⟨other, hle, hbits', hdisplay'⟩ := h.display id hid value provenance hkind
  obtain rfl : other = number :=
    (toBits_injective hle hnumber).mp (hbits'.symm.trans hbits)
  refine ⟨hnumber, ?_, Option.some.inj (hdisplay.symm.trans hdisplay')⟩
  cases value
  exact congrArg NumericLiteral.mk hbits

theorem Reaches.extends (h : Reaches s t) : s.types.Extends t.types := by
  induction h with
  | refl => rfl
  | literal _ heq ih =>
    obtain ⟨literal, -, hintern⟩ := Option.map_eq_some_iff.mp heq
    obtain rfl := (Prod.mk.inj hintern).2
    exact ih.trans (TypeStore.extends_intern _ _)
  | minus _ heq ih =>
    unfold evaluateMinus at heq
    split at heq
    · obtain rfl := (Prod.mk.inj (Option.some.inj heq)).2
      exact ih.trans (TypeStore.extends_intern _ _)
    · cases heq
  | other _ hextends _ _ ih => exact ih.trans hextends

/-- What a minus finds is a literal with its text, and so is what it leaves. -/
theorem Labelled.evaluateMinus (h : s.Labelled) {operand id : TypeId}
    (hid : s.types.Contains operand) {number : Bool × Nat}
    {provenance : LiteralProvenance} (hnumber : number.2 ≤ binary64.infinity)
    (hkind : s.types.kind operand = .literalNumber ⟨toBits number⟩ provenance)
    (heq : s.evaluateMinus operand = some (id, t)) :
    ∃ literal, Shows literal (!number.1, number.2) ∧ s.intern literal provenance = (id, t) := by
  unfold LiteralStore.evaluateMinus at heq
  split at heq
  next value provenance' display hvalue hdisplay =>
    obtain ⟨rfl, rfl⟩ := TypeKind.literalNumber.inj (hkind.symm.trans hvalue)
    have hshows := h.shows_kind hid hkind hdisplay hnumber rfl
    exact ⟨_, hshows.negated, Option.some.inj heq⟩
  next => cases heq

theorem Reaches.labelled (h : Reaches s t) (hs : s.Labelled) : t.Labelled := by
  induction h with
  | refl => exact hs
  | literal _ heq ih =>
    obtain ⟨literal, hsource, hintern⟩ := Option.map_eq_some_iff.mp heq
    obtain ⟨number, -, hshows⟩ := shows_fromSource hsource
    obtain rfl := (Prod.mk.inj hintern).2
    exact ih.intern hshows _
  | @minus t u operand id _ heq ih =>
    have hcontains : t.types.Contains operand := by
      by_contra hnot
      have hkind : t.types.kind operand = .error :=
        List.getD_eq_default _ _ (Nat.le_of_not_lt hnot)
      simp [LiteralStore.evaluateMinus, hkind] at heq
    have hheq := heq
    unfold LiteralStore.evaluateMinus at hheq
    split at hheq
    next value provenance display hkind hdisplay =>
      obtain ⟨number, hle, hbits, -⟩ := ih.display operand hcontains value provenance hkind
      obtain ⟨bits⟩ := value
      obtain rfl : bits = toBits number := hbits
      obtain ⟨literal, hshows, hintern⟩ := ih.evaluateMinus hcontains hle hkind heq
      obtain rfl := (Prod.mk.inj hintern).2
      exact ih.intern hshows _
    next => cases hheq
  | @other t types _ hextends hconsistent hother ih =>
    refine ⟨hconsistent, fun id hid value provenance hkind => ?_⟩
    by_cases hold : t.types.Contains id
    · exact ih.display id hold value provenance ((hextends.kind hold).symm.trans hkind)
    · exact absurd hkind (hother id hid hold value provenance)

theorem Labelled.kind_intern (h : s.Labelled) {literal : DisplayedLiteral} {number : Bool × Nat}
    (hshows : Shows literal number) {provenance : LiteralProvenance} {id : TypeId}
    (heq : s.intern literal provenance = (id, t)) :
    t.types.Contains id ∧ t.types.kind id = .literalNumber ⟨toBits number⟩ provenance := by
  obtain ⟨rfl, rfl⟩ := Prod.mk.inj heq
  obtain ⟨hcontains, hkind⟩ := h.consistent.kind_intern (.literalNumber literal.value provenance)
  refine ⟨hcontains, hkind.trans ?_⟩
  rw [hshows.value]

/-- An operand has the type of its number. -/
theorem evaluate_spec (hs : s.Labelled) {provenance : LiteralProvenance} (operand : NumericOperand)
    {id : TypeId} (heq : operand.evaluate s provenance = some (id, t)) :
    Reaches s t ∧ ∃ number, operand.number = some number ∧ number.2 ≤ binary64.infinity ∧
      t.types.Contains id ∧ t.types.kind id = .literalNumber ⟨toBits number⟩ provenance := by
  induction operand generalizing id t with
  | literal source =>
    refine ⟨.literal .refl heq, ?_⟩
    obtain ⟨literal, hsource, hintern⟩ := Option.map_eq_some_iff.mp heq
    obtain ⟨number, hnumber, hshows⟩ := shows_fromSource hsource
    exact ⟨number, hnumber, hshows.le_infinity, hs.kind_intern hshows hintern⟩
  | minus operand ih =>
    rw [NumericOperand.evaluate] at heq
    obtain ⟨⟨inner, u⟩, hinner, heq⟩ := Option.bind_eq_some_iff.mp heq
    obtain ⟨hreaches, number, hnumber, hle, hcontains, hkind⟩ := ih hinner
    have hu := hreaches.labelled hs
    obtain ⟨literal, hshows, hintern⟩ := hu.evaluateMinus hcontains hle hkind heq
    have hminus : operand.minus.number = some (!number.1, number.2) := by
      rw [NumericOperand.number, hnumber, Option.map_some]
    exact ⟨.minus hreaches heq, _, hminus, hle, hu.kind_intern hshows hintern⟩

theorem labelled_new : new.Labelled where
  consistent := .new
  display id hid value provenance hkind := by
    have hnone : ∀ k ∈ TypeStore.new.kinds, ∀ value provenance,
        k ≠ .literalNumber value provenance := by
      have hkinds : TypeStore.new.kinds = [.error, .any, .unknown, .never, .void, .undefined, .null,
          .boolean, .number, .string, .bigInt, .objectKeyword, .symbol] := by decide
      rw [hkinds]
      rintro k hk value provenance rfl
      simp at hk
    have hmem : new.types.kind id ∈ TypeStore.new.kinds := by
      have hget : new.types.kind id = TypeStore.new.kinds.get ⟨id.index, hid⟩ :=
        List.getD_eq_getElem _ _ hid
      rw [hget]
      exact List.get_mem _ _
    exact absurd hkind (hnone _ hmem value provenance)

end LiteralStore

open LiteralStore

/-- Of two operands that are evaluated in a run, with other types in between, the types are the
same if the numbers are and the texts are those of the numbers, just if neither is a zero that is
negated. -/
theorem evaluate_identity [ShortestDigits] {s s' t t' u : LiteralStore} {a b : NumericOperand}
    {provenance : LiteralProvenance} {left right : TypeId} {x y : Bool × Nat}
    (hs : Reaches new s) (ha : a.evaluate s provenance = some (left, s')) (ht : Reaches s' t)
    (hb : b.evaluate t provenance = some (right, t')) (hu : Reaches t' u)
    (hx : a.number = some x) (hy : b.number = some y) :
    ((left = right ↔ SameNumber x y) ∧ u.display left = some (doubleToText x.1 x.2) ∧
      u.display right = some (doubleToText y.1 y.2)) ↔ x ≠ (true, 0) ∧ y ≠ (true, 0) := by
  have hs' := hs.labelled labelled_new
  obtain ⟨hsa, x', hx', hxle, hleft, hleftKind⟩ := evaluate_spec hs' a ha
  obtain rfl : x = x' := Option.some.inj (hx.symm.trans hx')
  have ht' := ht.labelled (hsa.labelled hs')
  obtain ⟨htb, y', hy', hyle, hright, hrightKind⟩ := evaluate_spec ht' b hb
  obtain rfl : y = y' := Option.some.inj (hy.symm.trans hy')
  have hu' := hu.labelled (htb.labelled ht')
  have hextends := ht.extends.trans (htb.extends.trans hu.extends)
  have hleftKind := (hextends.kind hleft).trans hleftKind
  have hleft := hextends.contains hleft
  have hrightKind := (hu.extends.kind hright).trans hrightKind
  have hright := hu.extends.contains hright
  have hdisplay {id : TypeId} {z : Bool × Nat} (hid : u.types.Contains id)
      (hkind : u.types.kind id = .literalNumber ⟨toBits z⟩ provenance)
      (hz : z.2 ≤ binary64.infinity) :
      u.display id = some (doubleToText z.1 z.2) ↔ z ≠ (true, 0) := by
    obtain ⟨other, hle, hbits, hdisplay⟩ := hu'.display id hid _ _ hkind
    obtain rfl : z = other := (toBits_injective hz hle).mp hbits
    rw [hdisplay, Option.some_inj, storedText_eq_iff]
  have hsame : left = right ↔ x = y := by
    rw [← toBits_injective hxle hyle]
    constructor
    · rintro rfl
      have hkinds := hleftKind.symm.trans hrightKind
      injection hkinds with hvalue
      injection hvalue
    · intro hbits
      refine hu'.consistent.eq_of_kind_eq hleft hright (by rw [hleftKind]; rfl) ?_
      rw [hleftKind, hrightKind, hbits]
  rw [hdisplay hleft hleftKind hxle, hdisplay hright hrightKind hyle, hsame, and_iff_right_iff_imp]
  rintro ⟨hxzero, hyzero⟩
  constructor
  · rintro rfl
    exact ⟨rfl, .inl rfl⟩
  · rintro ⟨hbits, hsign⟩
    obtain ⟨negative, bits⟩ := x
    obtain ⟨negative', bits'⟩ := y
    obtain rfl : bits = bits' := hbits
    rcases hsign with rfl | rfl
    · rfl
    · cases negative <;> cases negative' <;> first | rfl | exact absurd rfl ‹_›

theorem evaluate_literal [ShortestDigits] (s : LiteralStore) (provenance : LiteralProvenance)
    {source : List Char} {value : Nat} (h : numericValue (source.filter (· ≠ '_')) = some value) :
    (NumericOperand.literal source).evaluate s provenance =
      some (s.intern ⟨⟨BitVec.ofNat 64 value⟩, javascriptNumberToString false value⟩
        provenance) := by
  rw [NumericOperand.evaluate, tryNumericLiteral, DisplayedLiteral.fromSource, parseNumberLiteral,
    h]
  rfl

/-- A thousand in two notations. -/
theorem evaluate_identity_thousand :
    letI := ShortestDigits.withPower 3
    ∃ left s right t, (NumericOperand.literal "1e3".toList).evaluate new .fresh = some (left, s) ∧
      (NumericOperand.literal "0x3e8".toList).evaluate s .fresh = some (right, t) ∧
      left = right := by
  let := ShortestDigits.withPower 3
  have hleft : numericValue ("1e3".toList.filter (· ≠ '_')) =
      some (binary64.round (inUnits 1000)) := by decide +kernel
  have hright : numericValue ("0x3e8".toList.filter (· ≠ '_')) =
      some (binary64.round (inUnits 1000)) := by decide +kernel
  have ha := evaluate_literal new .fresh hleft
  refine ⟨_, _, _, _, ha, evaluate_literal _ .fresh hright, ?_⟩
  have hidentity := evaluate_identity .refl ha .refl (evaluate_literal _ .fresh hright) .refl
    (x := (false, binary64.round (inUnits 1000))) (y := (false, binary64.round (inUnits 1000)))
    (by decide +kernel) (by decide +kernel)
  exact (hidentity.mpr ⟨nofun, nofun⟩).1.mpr ⟨rfl, .inl rfl⟩

/-- A zero behind a minus has a type and a text of its own. -/
theorem evaluate_negated_zero :
    letI := ShortestDigits.withPower 0
    ∃ left s right t, (NumericOperand.literal ['0']).evaluate new .fresh = some (left, s) ∧
      (NumericOperand.literal ['0']).minus.evaluate s .fresh = some (right, t) ∧
      SameNumber (false, 0) (true, 0) ∧ left ≠ right ∧ t.display right = some "-0".toList ∧
      doubleToText true 0 = "0".toList := by
  let := ShortestDigits.withPower 0
  have hzero : numericValue (['0'].filter (· ≠ '_')) = some 0 := by decide +kernel
  have hliteral (s : LiteralStore) : (NumericOperand.literal ['0']).evaluate s .fresh =
      some (s.intern ⟨⟨0⟩, ['0']⟩ .fresh) := evaluate_literal s .fresh hzero
  refine ⟨_, _, ⟨14⟩, ((new.intern ⟨⟨0⟩, ['0']⟩ .fresh).2.intern ⟨⟨signBit⟩, "-0".toList⟩ .fresh).2,
    hliteral new, ?_, ⟨rfl, .inr rfl⟩, by decide, by decide, rfl⟩
  rw [NumericOperand.evaluate, hliteral]
  rfl

end Tsz.Semantics
