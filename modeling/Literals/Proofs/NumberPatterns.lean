/-
# Patterns of numbers

The four patterns of numbers, and that the lexer's measurements are theirs: a number is as long as
the first match of its pattern, and there is none where it has no length.  The lexer never gives
anything back.  It need not, for what is given back is a digit or a point, and **where a digit or a
point comes next nothing that may follow can start** (`Refuses`): no exponent, no `j`, no point
behind half of the digits.
-/
import Literals.Proofs.Patterns

namespace Literals.Highlight

open Text

/-! ## 1. Lengths, from spots -/

/-- What the characters of a list have in common is found by trying each. -/
theorem forall_mem_of_all {P : Char → Prop} [DecidablePred P] {cs : List Char}
    (h : cs.all (fun c => decide (P c)) = true) : ∀ c ∈ cs, P c :=
  fun c hc => of_decide_eq_true (List.all_eq_true.mp h c hc)

/-- The marks of an exponent. -/
def isMark (c : Char) : Bool :=
  c == 'e' || c == 'E'

/-- The point. -/
def isPoint (c : Char) : Bool :=
  c == '.'

/-- The letter of an imaginary number. -/
def isUnit (c : Char) : Bool :=
  c == 'j'

/-- The characters of the digits before an exponent, and the point among them. -/
def isMantissa (c : Char) : Bool :=
  isDecimalDigit c || isPoint c

theorem isMantissa_of_digit (c : Char) (h : isDecimalDigit c = true) : isMantissa c = true :=
  Bool.or_eq_true_iff.mpr (Or.inl h)

theorem isMantissa_of_point (c : Char) (h : isPoint c = true) : isMantissa c = true :=
  Bool.or_eq_true_iff.mpr (Or.inr h)

theorem isPoint_of_digit (c : Char) (h : isDecimalDigit c = true) : isPoint c = false := by
  rw [isPoint, beq_eq_false_iff_ne]
  rintro rfl
  revert h
  decide

/-- No exponent starts with a digit or a point. -/
theorem isMark_of_mantissa (c : Char) (h : isMantissa c = true) : isMark c = false := by
  rw [isMark, Bool.or_eq_false_iff, beq_eq_false_iff_ne, beq_eq_false_iff_ne]
  constructor <;> (rintro rfl; revert h; decide)

/-- A digit or a point is not the letter of an imaginary number. -/
theorem isUnit_of_mantissa (c : Char) (h : isMantissa c = true) : isUnit c = false := by
  rw [isUnit, beq_eq_false_iff_ne]
  rintro rfl
  revert h
  decide

theorem isUnit_of_mark (c : Char) (h : isMark c = true) : isUnit c = false := by
  rw [isUnit, beq_eq_false_iff_ne]
  rintro rfl
  revert h
  decide

namespace Spot

variable {x : Spot} {signs : List Char}

/-- The spot behind what has a length, if it has one. -/
def measured (length? : List Char → Option Nat) (x : Spot) : Option Spot :=
  (length? x.rest).map x.forward

theorem signLength_rest (signs : List Char) (x : Spot) :
    signLength signs x.rest = if x.starts signs.contains then 1 else 0 := by
  obtain ⟨b, s⟩ := x
  cases s <;> rfl

/-- The spot behind the sign, if there is one. -/
def pastSign (signs : List Char) (x : Spot) : Spot :=
  x.forward (signLength signs x.rest)

/-- An exponent has a mark and, behind a sign that may be there, digits. -/
theorem measured_exponent (x : Spot) : x.measured exponentLength? =
    if x.starts isMark ∧ ((x.forward 1).pastSign ['+', '-']).starts isDecimalDigit then
      some (((x.forward 1).pastSign ['+', '-']).past isDecimalDigit)
    else none := by
  have hlength : exponentLength? x.rest =
      if x.starts isMark then
        if ((x.forward 1).pastSign ['+', '-']).run isDecimalDigit = 0 then none
        else some (1 + signLength ['+', '-'] (x.forward 1).rest +
          ((x.forward 1).pastSign ['+', '-']).run isDecimalDigit)
      else none := by
    obtain ⟨b, s⟩ := x
    cases s with
    | nil => rfl
    | cons c s => simp [exponentLength?, isMark, pastSign, run]
  rw [measured, hlength]
  simp only [run_eq_zero_iff]
  cases x.starts isMark with
  | false => rfl
  | true =>
    cases ((x.forward 1).pastSign ['+', '-']).starts isDecimalDigit with
    | false => rfl
    | true => simp [past, pastSign, forward_forward]

/-- Digits before an exponent: those before the point, if there is one, and those behind it, of
which one kind may be missing. -/
theorem measured_mantissa (needsPoint : Bool) (x : Spot) : x.measured (mantissaLength? needsPoint) =
    if (x.past isDecimalDigit).starts isPoint then
      if x.starts isDecimalDigit ∨ ((x.past isDecimalDigit).forward 1).starts isDecimalDigit then
        some (((x.past isDecimalDigit).forward 1).past isDecimalDigit)
      else none
    else if x.starts isDecimalDigit ∧ needsPoint = false then some (x.past isDecimalDigit)
    else none := by
  have hlength : mantissaLength? needsPoint x.rest =
      if (x.past isDecimalDigit).starts isPoint then
        if x.run isDecimalDigit + ((x.past isDecimalDigit).forward 1).run isDecimalDigit = 0 then
          none
        else some (x.run isDecimalDigit + 1 +
          ((x.past isDecimalDigit).forward 1).run isDecimalDigit)
      else if x.run isDecimalDigit = 0 || needsPoint then none
      else some (x.run isDecimalDigit) := by
    have hrest : x.rest.drop (countWhile isDecimalDigit x.rest) = (x.past isDecimalDigit).rest := rfl
    unfold mantissaLength?
    dsimp only
    rw [hrest]
    generalize x.past isDecimalDigit = y
    obtain ⟨b, s⟩ := y
    cases s with
    | nil => rfl
    | cons c s =>
      by_cases hc : c = '.'
      · subst hc
        rfl
      · have hpoint : isPoint c = false := beq_eq_false_iff_ne.mpr hc
        rw [starts_cons, hpoint, if_neg Bool.false_ne_true]
        split
        next heq => exact absurd (List.cons.inj heq).1 hc
        next => rfl
  rw [measured, hlength]
  simp only [Nat.add_eq_zero_iff, run_eq_zero_iff]
  cases (x.past isDecimalDigit).starts isPoint with
  | true =>
    cases x.starts isDecimalDigit <;>
      cases ((x.past isDecimalDigit).forward 1).starts isDecimalDigit <;>
        simp [past, forward_forward]
  | false => cases x.starts isDecimalDigit <;> cases needsPoint <;> simp [past]

/-- The spot behind an exponent, if there is one. -/
def pastExponent (x : Spot) : Spot :=
  x.forward ((exponentLength? x.rest).getD 0)

theorem getD_measured_exponent (x : Spot) :
    (x.measured exponentLength?).getD x = x.pastExponent := by
  rw [measured, pastExponent]
  cases exponentLength? x.rest <;> rfl

theorem starts_of_measured_exponent {y : Spot} (h : x.measured exponentLength? = some y) :
    x.starts isMark = true := by
  rw [measured_exponent] at h
  split at h
  next hstarts => exact hstarts.1
  next => cases h

/-- Without a mark there is no exponent. -/
theorem pastExponent_of_not_starts (h : x.starts isMark = false) : x.pastExponent = x := by
  rw [← getD_measured_exponent, measured_exponent, h]
  rfl

/-- An imaginary number is measured part by part: sign, digits, exponent and letter. -/
theorem measured_imaginary (x : Spot) : x.measured imaginaryLength? =
    ((x.pastSign ['+', '-']).measured (mantissaLength? false)).bind fun y =>
      if y.pastExponent.starts isUnit then some (y.pastExponent.forward 1) else none := by
  have hunit : ∀ y : Spot, (y.starts isUnit = true) = (y.rest.head? = some 'j') := fun y => by
    obtain ⟨b, s⟩ := y
    cases s <;> simp [isUnit]
  rw [measured, imaginaryLength?, measured]
  simp only [pastSign, pastExponent, rest_forward, hunit]
  cases mantissaLength? false (x.rest.drop (signLength ['+', '-'] x.rest)) with
  | none => rfl
  | some m =>
    simp only [Option.bind_eq_bind, Option.bind_some, Option.map_some, forward_forward,
      rest_forward, List.drop_drop]
    split <;> rfl

theorem measured_pointed (x : Spot) : x.measured pointedLength? =
    ((x.pastSign ['-']).measured (mantissaLength? true)).map pastExponent := by
  rw [measured, pointedLength?, measured]
  simp only [pastSign, rest_forward]
  cases mantissaLength? true (x.rest.drop (signLength ['-'] x.rest)) with
  | none => rfl
  | some m =>
    simp only [Option.bind_eq_bind, Option.bind_some, Option.map_some, pastExponent,
      forward_forward, rest_forward]

/-- Digits with an exponent: neither of the two may be missing. -/
theorem measured_scaled (x : Spot) : x.measured scaledLength? =
    if (x.pastSign ['-']).starts isDecimalDigit then
      ((x.pastSign ['-']).past isDecimalDigit).measured exponentLength?
    else none := by
  have hlength : scaledLength? x.rest =
      if (x.pastSign ['-']).run isDecimalDigit = 0 then none
      else (exponentLength? ((x.pastSign ['-']).past isDecimalDigit).rest).bind fun n =>
        some (signLength ['-'] x.rest + (x.pastSign ['-']).run isDecimalDigit + n) := by
    simp only [past, pastSign, forward_forward]
    rfl
  rw [measured, hlength]
  simp only [run_eq_zero_iff]
  cases (x.pastSign ['-']).starts isDecimalDigit with
  | false => rfl
  | true =>
    rw [if_neg Bool.false_ne_true.symm, if_pos rfl, measured]
    cases exponentLength? ((x.pastSign ['-']).past isDecimalDigit).rest with
    | none => rfl
    | some n => simp [past, pastSign, forward_forward]

theorem measured_integer (x : Spot) : x.measured integerLength? =
    if (x.pastSign ['-']).starts isDecimalDigit then some ((x.pastSign ['-']).past isDecimalDigit)
    else none := by
  change (if (x.pastSign ['-']).run isDecimalDigit = 0 then none
    else some (signLength ['-'] x.rest + (x.pastSign ['-']).run isDecimalDigit)).map x.forward = _
  simp only [run_eq_zero_iff]
  cases (x.pastSign ['-']).starts isDecimalDigit with
  | false => rfl
  | true => simp [past, pastSign, forward_forward]

end Spot

/-! ## 2. The patterns -/

namespace Pattern

/-- Digits of every script. -/
def digits : Pattern :=
  atLeastOne isDecimalDigit

/-- A point. -/
def point : Pattern :=
  oneOf isPoint

/-- A sign, if there is one. -/
def sign (signs : List Char) : Pattern :=
  (oneOf signs.contains).optional

/-- A mark, and digits that may have a sign. -/
def exponent : Pattern :=
  (oneOf isMark).andThen ((sign ['+', '-']).andThen digits)

/-- Digits with a point among, after or before them, as far as a pattern asks for one among or
after them. -/
def mantissaWith (p : Pattern) : Pattern :=
  (digits.andThen (p.andThen (many isDecimalDigit))).orElse (point.andThen digits)

/-- Digits, which may have a point among, after or before them. -/
def mantissa : Pattern :=
  mantissaWith point.optional

/-- Digits, which have a point among, after or before them. -/
def pointedMantissa : Pattern :=
  mantissaWith point

/-- An imaginary number. -/
def imaginary : Pattern :=
  (sign ['+', '-']).andThen (mantissa.andThen (exponent.optional.andThen (oneOf isUnit)))

/-- A number with a point. -/
def pointed : Pattern :=
  (sign ['-']).andThen (pointedMantissa.andThen exponent.optional)

/-- Digits with an exponent. -/
def scaled : Pattern :=
  (sign ['-']).andThen (digits.andThen exponent)

/-- An integer. -/
def integer : Pattern :=
  (sign ['-']).andThen digits

/-! ## 3. Nothing is given back -/

variable {α : Type} {q : Pattern} {x : Spot} {k : Spot → Option α} {f : Char → Bool}

/-- If a continuation fails at all, it fails before every character of the class. -/
def Refuses (f : Char → Bool) (k : Spot → Option α) : Prop :=
  ∀ y : Spot, y.starts f = true → ∀ z, k z = none → k y = none

/-- What cannot start with a character of the class refuses it. -/
theorem refuses_of_none (h : ∀ y : Spot, y.starts f = true → k y = none) : Refuses f k :=
  fun y hy _ _ => h y hy

theorem refuses_of_ne_none (h : ∀ z, k z ≠ none) : Refuses f k :=
  fun _ _ z hz => absurd hz (h z)

theorem Refuses.digits (h : Refuses isMantissa k) : Refuses isDecimalDigit k :=
  fun y hy => h y (Spot.starts_mono isMantissa_of_digit hy)

/-- **Where what follows refuses the class, a repetition gives nothing back.** -/
theorem first_many_of_refuses (h : Refuses f k) (x : Spot) : (many f).first x k = k (x.past f) :=
  first_many fun hnone _ hn => h _ (Spot.starts_forward_of_lt hn) _ hnone

theorem first_digits (h : Refuses isDecimalDigit k) (x : Spot) :
    digits.first x k = if x.starts isDecimalDigit then k (x.past isDecimalDigit) else none :=
  first_atLeastOne fun hnone _ hn => h _ (Spot.starts_forward_of_lt hn) _ hnone

/-- A sign is taken where it stands, if what follows cannot start with one. -/
theorem first_sign {signs : List Char}
    (h : x.starts signs.contains = true → q.first x k = none) :
    ((sign signs).andThen q).first x k = q.first (x.pastSign signs) k := by
  rw [first_andThen, sign, first_optional, first_oneOf, Spot.pastSign, Spot.signLength_rest]
  cases hx : x.starts signs.contains with
  | true => rw [if_pos rfl, if_pos rfl, h hx, Option.or_none]
  | false =>
    rw [if_neg Bool.false_ne_true, if_neg Bool.false_ne_true, Option.none_or, Spot.forward_zero]

/-- Where a sign comes next, neither a digit nor a point does. -/
theorem not_starts_mantissa {signs : List Char} (hsigns : ∀ c ∈ signs, isMantissa c = false)
    (h : x.starts signs.contains = true) : x.starts isMantissa = false :=
  Spot.starts_eq_false (fun c hc => hsigns c (List.contains_iff_mem.mp hc)) h

theorem not_starts_digit (h : x.starts isMantissa = false) : x.starts isDecimalDigit = false :=
  Bool.eq_false_iff.mpr fun hd =>
    Bool.eq_false_iff.mp h (Spot.starts_mono isMantissa_of_digit hd)

theorem not_starts_point (h : x.starts isMantissa = false) : x.starts isPoint = false :=
  Bool.eq_false_iff.mpr fun hp =>
    Bool.eq_false_iff.mp h (Spot.starts_mono isMantissa_of_point hp)

/-- An exponent is taken as it is measured. -/
theorem first_exponent (h : Refuses isDecimalDigit k) (x : Spot) :
    exponent.first x k = (x.measured exponentLength?).bind k := by
  rw [exponent, first_andThen, first_oneOf, Spot.measured_exponent]
  cases hx : x.starts isMark with
  | false => rfl
  | true =>
    have hsign : ∀ y : Spot, y.starts ['+', '-'].contains = true → digits.first y k = none :=
      fun y hy => first_atLeastOne_of_not_starts
        (not_starts_digit (not_starts_mantissa (forall_mem_of_all (by decide)) hy))
    rw [if_pos rfl, first_sign (hsign _), first_digits h]
    cases ((x.forward 1).pastSign ['+', '-']).starts isDecimalDigit <;> rfl

/-- An exponent that may be there, if what follows cannot start with its mark. -/
theorem first_optional_exponent (hdigit : Refuses isDecimalDigit k) (hmark : Refuses isMark k)
    (x : Spot) : exponent.optional.first x k = k x.pastExponent := by
  rw [first_optional, first_exponent hdigit, ← Spot.getD_measured_exponent]
  cases hx : x.measured exponentLength? with
  | none => rfl
  | some y =>
    rw [Option.bind_some, Option.getD_some]
    cases hk : k y with
    | some a => rfl
    | none => exact hmark x (Spot.starts_of_measured_exponent hx) y hk

theorem first_point_digits (h : Refuses isDecimalDigit k) (x : Spot) :
    (point.andThen digits).first x k =
      if x.starts isPoint ∧ (x.forward 1).starts isDecimalDigit then
        k ((x.forward 1).past isDecimalDigit) else none := by
  rw [first_andThen, point, first_oneOf, first_digits h]
  cases x.starts isPoint with
  | false => rfl
  | true => cases (x.forward 1).starts isDecimalDigit <;> rfl

/-- A point that may be there, and digits. -/
theorem first_optional_point (h : Refuses isDecimalDigit k) (x : Spot) :
    (point.optional.andThen (many isDecimalDigit)).first x k =
      (if x.starts isPoint then k ((x.forward 1).past isDecimalDigit) else none).or
        (k (x.past isDecimalDigit)) := by
  rw [first_andThen, first_optional, point, first_oneOf, first_many_of_refuses h,
    first_many_of_refuses h]

/-- Digits, and a point that may be among or after them. -/
theorem first_digits_point (h : Refuses isMantissa k) (x : Spot) :
    (digits.andThen (point.optional.andThen (many isDecimalDigit))).first x k =
      if x.starts isDecimalDigit then
        if (x.past isDecimalDigit).starts isPoint then
          k (((x.past isDecimalDigit).forward 1).past isDecimalDigit)
        else k (x.past isDecimalDigit)
      else none := by
  have hstop : (x.past isDecimalDigit).past isDecimalDigit = x.past isDecimalDigit :=
    Spot.past_of_not_starts (Spot.starts_past x isDecimalDigit)
  rw [first_andThen, Pattern.digits, first_atLeastOne, first_optional_point h.digits, hstop]
  · cases hpoint : (x.past isDecimalDigit).starts isPoint with
    | false => rfl
    | true =>
      rw [if_pos rfl, if_pos rfl]
      cases hk : k (((x.past isDecimalDigit).forward 1).past isDecimalDigit) with
      | some a => rfl
      | none =>
        rw [h _ (Spot.starts_mono isMantissa_of_point hpoint) _ hk]
        rfl
  · -- With fewer digits in front there is no point, and the same digits are taken.
    intro hnone n hn
    rw [first_optional_point h.digits, hstop, Option.or_eq_none_iff] at hnone
    have hdigit := Spot.starts_eq_false isPoint_of_digit (Spot.starts_forward_of_lt hn)
    rw [first_optional_point h.digits, hdigit, if_neg Bool.false_ne_true, Option.none_or,
      Spot.past_forward (Nat.le_of_lt hn)]
    exact hnone.2

/-- Digits, and a point that must be among or after them. -/
theorem first_digits_pointed (h : Refuses isDecimalDigit k) (x : Spot) :
    (digits.andThen (point.andThen (many isDecimalDigit))).first x k =
      if x.starts isDecimalDigit then
        if (x.past isDecimalDigit).starts isPoint then
          k (((x.past isDecimalDigit).forward 1).past isDecimalDigit)
        else none
      else none := by
  have hpoint : ∀ y : Spot, (point.andThen (many isDecimalDigit)).first y k =
      if y.starts isPoint then k ((y.forward 1).past isDecimalDigit) else none :=
    fun y => by rw [first_andThen, point, first_oneOf, first_many_of_refuses h]
  rw [first_andThen, Pattern.digits, first_atLeastOne, hpoint]
  intro _ n hn
  have hdigit := Spot.starts_eq_false isPoint_of_digit (Spot.starts_forward_of_lt hn)
  rw [hpoint, hdigit, if_neg Bool.false_ne_true]

/-- Both mantissas are measured alike, once it is known what their first alternative comes to. -/
theorem first_mantissaWith {p : Pattern} {needsPoint : Bool} (h : Refuses isDecimalDigit k)
    (hp : (digits.andThen (p.andThen (many isDecimalDigit))).first x k =
      if x.starts isDecimalDigit then
        if (x.past isDecimalDigit).starts isPoint then
          k (((x.past isDecimalDigit).forward 1).past isDecimalDigit)
        else if needsPoint then none else k (x.past isDecimalDigit)
      else none) :
    (mantissaWith p).first x k = (x.measured (mantissaLength? needsPoint)).bind k := by
  rw [mantissaWith, first_orElse, hp, first_point_digits h, Spot.measured_mantissa]
  cases hx : x.starts isDecimalDigit with
  | true =>
    rw [Spot.starts_eq_false isPoint_of_digit hx]
    cases (x.past isDecimalDigit).starts isPoint <;> cases needsPoint <;> simp
  | false =>
    rw [Spot.past_of_not_starts hx]
    cases x.starts isPoint with
    | false => simp
    | true => cases (x.forward 1).starts isDecimalDigit <;> simp

/-- So are the digits before it, with or without a point, -/
theorem first_mantissa (h : Refuses isMantissa k) (x : Spot) :
    mantissa.first x k = (x.measured (mantissaLength? false)).bind k :=
  first_mantissaWith h.digits (first_digits_point h x)

/-- and those that must have a point. -/
theorem first_pointedMantissa (h : Refuses isDecimalDigit k) (x : Spot) :
    pointedMantissa.first x k = (x.measured (mantissaLength? true)).bind k :=
  first_mantissaWith h (first_digits_pointed h x)

/-- No mantissa starts without a digit or a point. -/
theorem first_mantissaWith_of_not_starts {p : Pattern} (h : x.starts isMantissa = false) :
    (mantissaWith p).first x k = none := by
  rw [mantissaWith, first_orElse, digits, atLeastOne, first_andThen,
    first_oneOf_andThen_of_not_starts (not_starts_digit h), point,
    first_oneOf_andThen_of_not_starts (not_starts_point h), Option.or_none]

/-! ## 4. Numbers are as long as the first match of their pattern -/

/-- The length of an imaginary number is that of its match.  An exponent that is not finished, or
has no letter behind it, is not taken for one. -/
theorem match?_imaginary (x : Spot) : imaginary.match? x = x.measured imaginaryLength? := by
  have hunit : ∀ {f : Char → Bool}, (∀ c, f c = true → isUnit c = false) → ∀ y : Spot,
      y.starts f = true → (oneOf isUnit).first y some = none := fun hf y hy => by
    rw [first_oneOf, Spot.starts_eq_false hf hy, if_neg Bool.false_ne_true]
  have hrest : ∀ y : Spot, (exponent.optional.andThen (oneOf isUnit)).first y some =
      if y.pastExponent.starts isUnit then some (y.pastExponent.forward 1) else none := fun y => by
    rw [first_andThen, first_optional_exponent, first_oneOf]
    · exact (refuses_of_none (hunit isUnit_of_mantissa)).digits
    · exact refuses_of_none (hunit isUnit_of_mark)
  have hrefuses : Refuses isMantissa fun y =>
      (exponent.optional.andThen (oneOf isUnit)).first y some := refuses_of_none fun y hy => by
    rw [hrest, Spot.pastExponent_of_not_starts (Spot.starts_eq_false isMark_of_mantissa hy),
      Spot.starts_eq_false isUnit_of_mantissa hy, if_neg Bool.false_ne_true]
  rw [match?_eq_first, imaginary, first_sign, first_andThen, first_mantissa hrefuses,
    Spot.measured_imaginary]
  · simp only [hrest]
  · exact fun h => by
      rw [first_andThen, mantissa,
        first_mantissaWith_of_not_starts (not_starts_mantissa (forall_mem_of_all (by decide)) h)]

theorem match?_pointed (x : Spot) : pointed.match? x = x.measured pointedLength? := by
  have hrest : ∀ y : Spot, exponent.optional.first y some = some y.pastExponent := fun y =>
    first_optional_exponent (refuses_of_ne_none Option.some_ne_none)
      (refuses_of_ne_none Option.some_ne_none) y
  rw [match?_eq_first, pointed, first_sign, first_andThen, first_pointedMantissa,
    Spot.measured_pointed]
  · simp only [hrest, Option.map_eq_bind]
    rfl
  · exact refuses_of_ne_none fun z => by
      rw [hrest]
      exact Option.some_ne_none _
  · exact fun h => by
      rw [first_andThen, pointedMantissa,
        first_mantissaWith_of_not_starts (not_starts_mantissa (forall_mem_of_all (by decide)) h)]

theorem match?_scaled (x : Spot) : scaled.match? x = x.measured scaledLength? := by
  have hrest : ∀ y : Spot, exponent.first y some = y.measured exponentLength? := fun y => by
    rw [first_exponent (refuses_of_ne_none Option.some_ne_none), Option.bind_fun_some]
  rw [match?_eq_first, scaled, first_sign, first_andThen, first_digits, hrest, Spot.measured_scaled]
  · refine refuses_of_none fun y hy => ?_
    have hmark := Spot.starts_eq_false isMark_of_mantissa (Spot.starts_mono isMantissa_of_digit hy)
    rw [hrest, Spot.measured_exponent, hmark]
    rfl
  · exact fun h => by
      rw [first_andThen, digits, first_atLeastOne_of_not_starts
        (not_starts_digit (not_starts_mantissa (forall_mem_of_all (by decide)) h))]

theorem match?_integer (x : Spot) : integer.match? x = x.measured integerLength? := by
  rw [match?_eq_first, integer, first_sign, first_digits, Spot.measured_integer]
  · exact refuses_of_ne_none Option.some_ne_none
  · exact fun h => first_atLeastOne_of_not_starts
      (not_starts_digit (not_starts_mantissa (forall_mem_of_all (by decide)) h))

end Pattern

end Literals.Highlight
