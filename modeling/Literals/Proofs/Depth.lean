/-
# How deep a bracket lies

`openedAt? text i` is the number of brackets that are open behind the one at the offset `i`, where
one opens there outside the strings.  A text `Climbs` from one number of open brackets to another
when no bracket on the way lies deeper than a limit allows; **a literal that is no compound climbs
nowhere**, and a point is `Reached` when the text before it climbs to it.
-/
import Literals.Proofs.Nesting

namespace Literals.Grammar

open Number Reader

/-! ## 1. Brackets and their depth -/

/-- The number of brackets that are open behind the one at an offset, where one opens there outside
the strings. -/
def openedAt? (text : List Char) (i : Nat) : Option Nat :=
  let before := (Scan.outside 0).after (text.take i)
  match text[i]? with
  | some c => if before.mode = .outside ∧ isOpening c then some (before.depth + 1) else none
  | none => none

/-- Whether a limit allows so many open brackets. -/
def Allows (limit : Option Int) (depth : Nat) : Prop :=
  ∀ n ∈ limit, (depth : Int) ≤ n

/-- Every bracket that opens in the text, where a scan goes on from `s`, is allowed. -/
def Shallow (limit : Option Int) : Scan → List Char → Prop
  | _, [] => True
  | s, c :: w =>
    (s.mode = .outside → isOpening c = true → Allows limit (s.depth + 1)) ∧
      Shallow limit (s.step c) w

theorem shallow_append {limit : Option Int} {s : Scan} {u w : List Char} :
    Shallow limit s (u ++ w) ↔ Shallow limit s u ∧ Shallow limit (s.after u) w := by
  induction u generalizing s with
  | nil => simp [Shallow]
  | cons c u ih => simp [Shallow, ih, and_assoc]

theorem shallow_iff_getElem? {limit : Option Int} {s : Scan} {text : List Char} :
    Shallow limit s text ↔ ∀ i c, text[i]? = some c → (s.after (text.take i)).mode = .outside →
      isOpening c = true → Allows limit ((s.after (text.take i)).depth + 1) := by
  induction text generalizing s with
  | nil => simp [Shallow]
  | cons c text ih =>
    rw [Shallow, ih]
    refine Iff.trans ?_ Nat.and_forall_add_one
    simp

/-- **A text is shallow exactly when the limit allows each of its brackets.** -/
theorem shallow_iff {limit : Option Int} {text : List Char} :
    Shallow limit (.outside 0) text ↔ ∀ i d, openedAt? text i = some d → Allows limit d := by
  rw [shallow_iff_getElem?]
  refine forall_congr' fun i => ?_
  rw [openedAt?]
  cases text[i]? with
  | none => simp
  | some c => simp [and_imp]

/-- The brackets before an offset are those of the text before it. -/
theorem openedAt?_append {u w : List Char} {i : Nat} (h : i < u.length) :
    openedAt? (u ++ w) i = openedAt? u i := by
  rw [openedAt?, openedAt?, List.take_append_of_le_length h.le, List.getElem?_append_left h]

/-! ## 2. Climbing -/

/-- The text leads from `d` open brackets to `e`, outside the strings at both ends, and no bracket
on the way is deeper than the limit allows. -/
structure Climbs (limit : Option Int) (d : Nat) (w : List Char) (e : Nat) : Prop where
  after : (Scan.outside d).after w = .outside e
  shallow : Shallow limit (.outside d) w

variable {limit : Option Int} {d e f : Nat} {u w : List Char} {c : Char}

theorem climbs_nil : Climbs limit d [] d :=
  ⟨rfl, trivial⟩

theorem Climbs.append (hu : Climbs limit d u e) (hw : Climbs limit e w f) :
    Climbs limit d (u ++ w) f :=
  ⟨by rw [Scan.after_append, hu.after, hw.after],
    shallow_append.mpr ⟨hu.shallow, by rw [hu.after]; exact hw.shallow⟩⟩

/-- The bracket behind a text that climbs is one deeper. -/
theorem Climbs.openedAt? (h : Climbs limit 0 w d) (hc : isOpening c = true) (t : List Char) :
    openedAt? (w ++ c :: t) w.length = some (d + 1) := by
  have hget : (w ++ c :: t)[w.length]? = some c := by simp
  rw [Grammar.openedAt?, List.take_left, h.after, hget]
  exact if_pos ⟨rfl, hc⟩

theorem climbs_of_inert (h : ∀ c ∈ w, Inert c) : Climbs limit d w d := by
  refine ⟨after_of_inert h d, ?_⟩
  induction w with
  | nil => trivial
  | cons c w ih =>
    obtain ⟨hc, hw⟩ := List.forall_mem_cons.mp h
    refine ⟨fun _ hopen => ?_, ?_⟩
    · rw [hc.1] at hopen
      cases hopen
    · rw [hc.step]
      exact ih hw

theorem climbs_word (h : w.all (fun c => decide (Inert c)) = true) : Climbs limit d w d :=
  climbs_of_inert fun c hc => of_decide_eq_true (List.all_eq_true.mp h c hc)

theorem climbs_of_blank (h : Blank w) : Climbs limit d w d :=
  climbs_of_inert fun c hc => inert_of_isBlank (h c hc)

/-- An opening bracket climbs, where the limit allows it. -/
theorem climbs_opening (hc : isOpening c = true) (h : Allows limit (d + 1)) :
    Climbs limit d [c] (d + 1) :=
  ⟨by simp [Scan.step, Scan.outside, hc], fun _ _ => h, trivial⟩

theorem isOpening_of_isClosing (hc : Scan.isClosing c = true) : isOpening c = false := by
  have hc : (c = ']' ∨ c = '}') ∨ c = ')' := by simpa [Scan.isClosing] using hc
  rcases hc with (rfl | rfl) | rfl <;> rfl

theorem isBlank_of_isClosing (hc : Scan.isClosing c = true) : Text.isBlank c = false := by
  have hc : (c = ']' ∨ c = '}') ∨ c = ')' := by simpa [Scan.isClosing] using hc
  rcases hc with (rfl | rfl) | rfl <;> rfl

theorem climbs_closing (hc : Scan.isClosing c = true) : Climbs limit (d + 1) [c] d := by
  have hopen := isOpening_of_isClosing hc
  exact ⟨by simp [Scan.step, Scan.outside, hc, hopen],
    fun _ h => absurd h (by simp [hopen]), trivial⟩

theorem shallow_body {q : Char} (hq : q ≠ '\\') (h : Body q w) :
    Shallow limit ⟨d, .within q⟩ w := by
  have hmode : Mode.within q ≠ .outside := by simp
  induction h with
  | nil => trivial
  | plain hquote hback _ ih =>
    exact ⟨fun h => absurd h hmode, by simpa [Scan.step, hquote, hback] using ih⟩
  | escaped _ ih =>
    exact ⟨fun h => absurd h hmode, by simpa [Shallow, Scan.step, hq.symm] using ih⟩

/-- The brackets in a string do not count. -/
theorem climbs_string {q : Char} (hq : q = '\'' ∨ q = '"') (h : Body q w) :
    Climbs limit d (q :: (w ++ [q])) d := by
  have hback : q ≠ '\\' := by
    rcases hq with rfl | rfl <;> decide
  have hopen : isOpening q = false := by
    rcases hq with rfl | rfl <;> rfl
  have hstep : (Scan.outside d).step q = ⟨d, .within q⟩ := by
    rcases hq with rfl | rfl <;> rfl
  refine ⟨?_, fun _ hc => ?_, ?_⟩
  · rw [Scan.after_cons, hstep, Scan.after_append, h.after hback]
    simp [Scan.step, Scan.outside]
  · rw [hopen] at hc
    cases hc
  · have hmode : Mode.within q ≠ .outside := by simp
    rw [hstep, shallow_append, h.after hback]
    exact ⟨shallow_body hback h, fun h => absurd h hmode, trivial⟩

theorem climbs_numeral {x : Numeral} (h : x.WellFormed) : Climbs limit d x.text d :=
  climbs_of_inert fun c hc => inert_of_isFloatChar (Numeral.isFloatChar_of_mem_text h c hc)

theorem climbs_integer {minus : Bool} {ds : List Char} (h : Digits ds) :
    Climbs limit d (minusText minus ++ ds) d := by
  refine Climbs.append (e := d) ?_ (climbs_of_inert fun c hc => inert_of_isFloatChar ?_)
  · cases minus <;> exact climbs_word (by decide)
  · simp [isFloatChar, isMantissaChar, h.2 c hc]

theorem climbs_imaginary {x : Numeral} (h : x.WellFormed) : Climbs limit d (x.text ++ ['j']) d :=
  (climbs_numeral h).append (climbs_word (by decide))

/-- **A literal that is no compound climbs nowhere.** -/
theorem climbs_of_item {x : Node} (h : Item w x) (hw : ∀ c ∈ w.head?, isOpening c = false) :
    Climbs limit d w d := by
  have hcompound : ∀ {c : Char} {v : List Char}, w = c :: v → isOpening c = true →
      Climbs limit d w d := by
    rintro c v rfl hc
    rw [hw c rfl] at hc
    cases hc
  cases h with
  | noneLiteral => exact climbs_word (by decide)
  | trueLiteral => exact climbs_word (by decide)
  | falseLiteral => exact climbs_word (by decide)
  | string hq hs => exact climbs_string hq hs
  | integer hds => exact climbs_integer hds
  | float hx _ _ => exact climbs_numeral hx
  | imaginary hx => exact climbs_imaginary hx
  | _ => exact hcompound rfl rfl

/-- The parentheses of a complex number count. -/
theorem climbs_complex {x y : Numeral} (hx : x.WellFormed) (hy : y.WellFormed)
    (h : Allows limit (d + 1)) : Climbs limit d ('(' :: (x.text ++ (y.text ++ ['j', ')']))) d := by
  have hopen : Climbs limit d ['('] (d + 1) := climbs_opening rfl h
  have hclose : Climbs limit (d + 1) [')'] d := climbs_closing rfl
  have hall := hopen.append ((climbs_numeral hx).append ((climbs_imaginary hy).append hclose))
  simpa using hall

end Literals.Grammar

namespace Literals.Reader

open Grammar Rule

/-! ## 3. Points that are reached -/

/-- The point lies in the text, outside its strings and inside `depth` open brackets, and every
bracket before it is allowed. -/
def Reached (limit : Option Int) (text : List Char) (depth : Nat) (p : Point) : Prop :=
  ∃ w, Spans (.start text) w p ∧ Climbs limit 0 w depth

variable {limit : Option Int} {text : List Char} {depth depth' : Nat} {p q : Point}

theorem reached_start : Reached limit text 0 (.start text) :=
  ⟨[], .refl _, climbs_nil⟩

theorem Reached.stands (h : Reached limit text depth p) : Stands text depth p := by
  obtain ⟨w, hw, hclimbs⟩ := h
  exact ⟨w, hw, hclimbs.after⟩

theorem Reached.climb {w : List Char} (h : Reached limit text depth p) (hw : Spans p w q)
    (hclimbs : Climbs limit depth w depth') : Reached limit text depth' q := by
  obtain ⟨u, hu, hclimbs'⟩ := h
  exact ⟨u ++ w, hu.append hw, hclimbs'.append hclimbs⟩

theorem Reached.skipBlanks (h : Reached limit text depth p) :
    Reached limit text depth p.skipBlanks := by
  obtain ⟨u, hu, hus⟩ := spans_skipBlanks p
  exact h.climb hus (climbs_of_blank hu)

/-- Where a compound is entered, the limit allows it. -/
theorem enter_eq_ok {limit : Option Int} {depth : Nat} {u : Unit} {q : Point}
    (h : (enter limit depth : Rule Id Unit) p = .ok u q) : q = p ∧ Allows limit depth := by
  refine ⟨(eq_of_enter h).symm, fun n hn => ?_⟩
  obtain rfl : limit = some n := hn
  rw [enter] at h
  split at h
  next => exact absurd h fail_ne_ok
  next hle => exact not_lt.mp hle

end Literals.Reader
