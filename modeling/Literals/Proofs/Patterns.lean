/-
# Patterns and where they end

The patterns of the lexer's rules, with the meaning that ordered choice gives them: a repetition
takes as many characters as it can, an option is used where it can be, of two alternatives the first
comes first, and **what was taken is given back, step by step, where the rest fails**.  So a pattern
has a list of places where a match can end, the preferred one first (`Pattern.ends`), and a rule
takes the head of it.

To look for the first end from which something goes on is to look through the parts one after the
other (`Pattern.first`).  A repetition then counts with its longest match alone if what follows
either accepts that or refuses all shorter ones (`first_many`).  And **a match that cannot be empty
takes something** (`forward_of_mem_ends`).
-/
import Literals.Highlight.Lexer

namespace Literals.Highlight

open Text

/-! ## 1. Spots -/

/-- A spot in a text: the character before it, if any, and the text behind it. -/
structure Spot where
  before : Option Char
  rest : List Char

namespace Spot

/-- The spot so many characters further on. -/
def forward (x : Spot) (n : Nat) : Spot :=
  ⟨(x.rest.take n).getLast?.or x.before, x.rest.drop n⟩

variable {x : Spot} {m n : Nat} {f : Char → Bool} {c : Char} {s : List Char} {b : Option Char}

@[simp] theorem forward_zero (x : Spot) : x.forward 0 = x :=
  rfl

@[simp] theorem rest_forward (x : Spot) (n : Nat) : (x.forward n).rest = x.rest.drop n :=
  rfl

theorem forward_forward (x : Spot) (m n : Nat) : (x.forward m).forward n = x.forward (m + n) := by
  rw [forward, forward, forward, List.take_add, List.getLast?_append, List.drop_drop,
    Option.or_assoc]

/-- Whether the text behind the spot starts with a character of a class. -/
def starts (f : Char → Bool) (x : Spot) : Bool :=
  x.rest.head?.any f

@[simp] theorem starts_cons : starts f ⟨b, c :: s⟩ = f c :=
  rfl

@[simp] theorem starts_nil : starts f ⟨b, []⟩ = false :=
  rfl

/-- What starts with a character of a class starts with one of every larger class. -/
theorem starts_mono {g : Char → Bool} (hfg : ∀ c, f c = true → g c = true)
    (h : x.starts f = true) : x.starts g = true := by
  obtain ⟨b, s⟩ := x
  cases s with
  | nil => cases h
  | cons c s => exact hfg c h

/-- It starts with none of a class that has no characters in common with the first. -/
theorem starts_eq_false {g : Char → Bool} (hfg : ∀ c, f c = true → g c = false)
    (h : x.starts f = true) : x.starts g = false := by
  obtain ⟨b, s⟩ := x
  cases s with
  | nil => rfl
  | cons c s => exact hfg c h

/-- How many characters of a class come next. -/
def run (f : Char → Bool) (x : Spot) : Nat :=
  countWhile f x.rest

theorem run_cons_of_pos (h : f c = true) : run f ⟨b, c :: s⟩ = 1 + countWhile f s := by
  rw [run, countWhile, List.takeWhile_cons_of_pos h, List.length_cons, Nat.add_comm, countWhile]

theorem run_eq_zero (h : x.starts f = false) : x.run f = 0 := by
  obtain ⟨b, s⟩ := x
  cases s with
  | nil => rfl
  | cons c s =>
    have hc : ¬ f c = true := Bool.eq_false_iff.mp h
    rw [run, countWhile, List.takeWhile_cons_of_neg hc, List.length_nil]

/-- A run is empty where no character of the class comes next, and only there. -/
theorem run_eq_zero_iff : x.run f = 0 ↔ x.starts f = false := by
  refine ⟨fun h => ?_, run_eq_zero⟩
  cases hs : x.starts f with
  | false => rfl
  | true =>
    obtain ⟨b, s⟩ := x
    cases s with
    | nil => cases hs
    | cons c s =>
      rw [run_cons_of_pos hs] at h
      omega

/-- One character into a run, it is shorter by one. -/
theorem run_forward_one (h : x.starts f = true) : x.run f = 1 + (x.forward 1).run f := by
  obtain ⟨b, s⟩ := x
  cases s with
  | nil => cases h
  | cons c s => exact run_cons_of_pos h

theorem starts_of_run_pos (h : 0 < x.run f) : x.starts f = true :=
  Bool.not_eq_false _ ▸ fun hs => Nat.ne_of_gt h (run_eq_zero hs)

/-- Inside a run the run goes on, up to where it ends. -/
theorem run_forward (h : n ≤ x.run f) : x.run f = n + (x.forward n).run f := by
  induction n with
  | zero => rw [forward_zero, Nat.zero_add]
  | succ n ih =>
    have hn := ih (by omega)
    have hstarts : (x.forward n).starts f = true := starts_of_run_pos (by omega)
    rw [hn, run_forward_one hstarts, forward_forward]
    omega

theorem starts_forward_of_lt (h : n < x.run f) : (x.forward n).starts f = true := by
  have hrun := run_forward (Nat.le_of_lt h)
  exact starts_of_run_pos (by omega)

/-- The spot where a run ends. -/
def past (f : Char → Bool) (x : Spot) : Spot :=
  x.forward (x.run f)

/-- From everywhere in a run, it ends at the same spot. -/
theorem past_forward (h : n ≤ x.run f) : (x.forward n).past f = x.past f := by
  rw [past, forward_forward, ← run_forward h, past]

theorem past_of_not_starts (h : x.starts f = false) : x.past f = x := by
  rw [past, run_eq_zero h, forward_zero]

/-- Behind a run there is no character of the class. -/
theorem starts_past (x : Spot) (f : Char → Bool) : (x.past f).starts f = false := by
  have hrun := run_forward (x := x) (f := f) (Nat.le_refl _)
  cases hs : (x.past f).starts f with
  | false => rfl
  | true =>
    have hone := run_forward_one hs
    rw [past] at hone
    omega

end Spot

/-! ## 2. Patterns -/

/-- A pattern. -/
inductive Pattern where
  /-- Nothing at all. -/
  | empty
  /-- One character of a class. -/
  | oneOf (inClass : Char → Bool)
  /-- Any number of characters of a class, as many as there are. -/
  | many (inClass : Char → Bool)
  /-- A place with a character of a word on one side only. -/
  | wordEdge
  /-- One pattern behind another. -/
  | andThen (p q : Pattern)
  /-- The first pattern, or else the second. -/
  | orElse (p q : Pattern)

namespace Pattern

/-- The pattern, if it is there. -/
def optional (p : Pattern) : Pattern :=
  p.orElse .empty

/-- At least one character of a class, as many as there are. -/
def atLeastOne (inClass : Char → Bool) : Pattern :=
  (oneOf inClass).andThen (many inClass)

/-- One character. -/
def char (c : Char) : Pattern :=
  oneOf (· == c)

/-- A word, letter by letter. -/
def word : List Char → Pattern
  | [] => .empty
  | c :: w => (char c).andThen (word w)

/-- One of some words. -/
def words (ws : List (List Char)) : Pattern :=
  ws.foldr (fun w p => (word w).orElse p) (oneOf fun _ => false)

/-- The spots where a match can end, the preferred one first. -/
def ends : Pattern → Spot → List Spot
  | empty, x => [x]
  | oneOf f, x => if x.starts f then [x.forward 1] else []
  | many f, x => (List.range (x.run f + 1)).reverse.map x.forward
  | wordEdge, x =>
    if x.before.any isWordChar = x.starts isWordChar then [] else [x]
  | andThen p q, x => (p.ends x).flatMap q.ends
  | orElse p q, x => p.ends x ++ q.ends x

/-- The spot that a match ends at, if there is one. -/
def match? (p : Pattern) (x : Spot) : Option Spot :=
  (p.ends x).head?

/-! ## 3. The first end that leads on -/

variable {α : Type} {p q : Pattern} {x : Spot} {k : Spot → Option α} {f : Char → Bool} {c : Char}

/-- What the first end gives from which anything is had. -/
def first (p : Pattern) (x : Spot) (k : Spot → Option α) : Option α :=
  (p.ends x).findSome? k

/-- A match is the first end that leads on to anything at all. -/
theorem match?_eq_first (p : Pattern) (x : Spot) : p.match? x = p.first x some := by
  rw [match?, first]
  cases p.ends x <;> rfl

@[simp] theorem first_empty (x : Spot) (k : Spot → Option α) : empty.first x k = k x := by
  rw [first, ends, List.findSome?_singleton]

theorem first_oneOf (f : Char → Bool) (x : Spot) (k : Spot → Option α) :
    (oneOf f).first x k = if x.starts f then k (x.forward 1) else none := by
  rw [first, ends]
  split
  · rw [List.findSome?_singleton]
  · rfl

theorem first_wordEdge (x : Spot) (k : Spot → Option α) : wordEdge.first x k =
    if x.before.any isWordChar = x.starts isWordChar then none else k x := by
  rw [first, ends]
  split
  · rfl
  · rw [List.findSome?_singleton]

/-- **To look through a sequence is to look through its parts, one inside the other.** -/
theorem first_andThen (p q : Pattern) (x : Spot) (k : Spot → Option α) :
    (p.andThen q).first x k = p.first x fun y => q.first y k := by
  rw [first, first, ends]
  induction p.ends x with
  | nil => rfl
  | cons y ys ih =>
    rw [List.flatMap_cons, List.findSome?_append, ih, List.findSome?_cons, first]
    cases (q.ends y).findSome? k <;> rfl

/-- The second alternative counts only where the first leads nowhere. -/
theorem first_orElse (p q : Pattern) (x : Spot) (k : Spot → Option α) :
    (p.orElse q).first x k = (p.first x k).or (q.first x k) := by
  rw [first, ends, List.findSome?_append]
  rfl

theorem first_optional (p : Pattern) (x : Spot) (k : Spot → Option α) :
    p.optional.first x k = (p.first x k).or (k x) := by
  rw [optional, first_orElse, first_empty]

/-- A word has one end, where the text starts with it. -/
theorem first_word (w : List Char) (x : Spot) (k : Spot → Option α) :
    (word w).first x k = if w.isPrefixOf x.rest then k (x.forward w.length) else none := by
  induction w generalizing x with
  | nil => rw [word, first_empty, List.isPrefixOf_nil_left, if_pos rfl]; rfl
  | cons c w ih =>
    rw [word, first_andThen, char, first_oneOf, ih, Spot.forward_forward, Nat.add_comm 1]
    obtain ⟨b, s⟩ := x
    cases s with
    | nil => rfl
    | cons d s =>
      rw [Spot.starts_cons, List.isPrefixOf_cons_cons, BEq.comm]
      cases c == d <;> rfl

/-- Of several words, the first in their order counts that leads on. -/
theorem first_words (ws : List (List Char)) (x : Spot) (k : Spot → Option α) :
    (words ws).first x k =
      ws.findSome? fun w => if w.isPrefixOf x.rest then k (x.forward w.length) else none := by
  induction ws with
  | nil =>
    change (oneOf fun _ => false).first x k = none
    rw [first_oneOf]
    obtain ⟨b, s⟩ := x
    cases s <;> rfl
  | cons w ws ih =>
    change ((word w).orElse (words ws)).first x k = _
    rw [first_orElse, first_word, ih, List.findSome?_cons]
    cases (if w.isPrefixOf x.rest then k (x.forward w.length) else none) <;> rfl

/-- **A repetition counts with its longest match**, if what follows refuses all shorter ones where
it refuses that. -/
theorem first_many (h : k (x.past f) = none → ∀ n < x.run f, k (x.forward n) = none) :
    (many f).first x k = k (x.past f) := by
  rw [first, ends, List.range_succ, List.reverse_append, List.reverse_singleton,
    List.singleton_append, List.map_cons, List.findSome?_cons, ← Spot.past]
  cases hk : k (x.past f) with
  | some a => rfl
  | none =>
    refine List.findSome?_eq_none_iff.mpr fun y hy => ?_
    obtain ⟨n, hn, rfl⟩ := List.mem_map.mp hy
    exact h hk n (List.mem_range.mp (List.mem_reverse.mp hn))

/-- So does one of at least one character. -/
theorem first_atLeastOne (h : k (x.past f) = none → ∀ n < x.run f, k (x.forward n) = none) :
    (atLeastOne f).first x k = if x.starts f then k (x.past f) else none := by
  rw [atLeastOne, first_andThen, first_oneOf]
  cases hstart : x.starts f with
  | false => rfl
  | true =>
    have hrun := Spot.run_forward_one hstart
    have hpast : (x.forward 1).past f = x.past f := Spot.past_forward (by omega)
    rw [if_pos rfl, if_pos rfl, first_many, hpast]
    intro hnone n hn
    rw [hpast] at hnone
    rw [Spot.forward_forward]
    exact h hnone (1 + n) (by omega)

/-- A pattern that starts with a character of a class fails elsewhere. -/
theorem first_oneOf_andThen_of_not_starts (h : x.starts f = false) :
    ((oneOf f).andThen q).first x k = none := by
  rw [first_andThen, first_oneOf, if_neg (Bool.eq_false_iff.mp h)]

theorem first_atLeastOne_of_not_starts (h : x.starts f = false) :
    (atLeastOne f).first x k = none :=
  first_oneOf_andThen_of_not_starts h

/-! ## 4. Matches -/

theorem match?_oneOf (f : Char → Bool) (x : Spot) :
    (oneOf f).match? x = if x.starts f then some (x.forward 1) else none := by
  rw [match?_eq_first, first_oneOf]

/-- With nothing behind it, a repetition matches as far as the run goes. -/
theorem match?_atLeastOne (f : Char → Bool) (x : Spot) :
    (atLeastOne f).match? x = if x.starts f then some (x.past f) else none := by
  rw [match?_eq_first, first_atLeastOne fun h => absurd h (Option.some_ne_none _)]

theorem match?_oneOf_oneOf (f g : Char → Bool) (x : Spot) :
    ((oneOf f).andThen (oneOf g)).match? x =
      if x.starts f ∧ (x.forward 1).starts g then some (x.forward 2) else none := by
  rw [match?_eq_first, first_andThen, first_oneOf, first_oneOf]
  cases x.starts f with
  | false => rfl
  | true => cases (x.forward 1).starts g <;> simp [Spot.forward_forward]

/-! ## 5. How far a match goes -/

/-- Whether a pattern can match nothing. -/
def nullable : Pattern → Bool
  | empty => true
  | oneOf _ => false
  | many _ => true
  | wordEdge => true
  | andThen p q => p.nullable && q.nullable
  | orElse p q => p.nullable || q.nullable

variable {x y : Spot}

/-- **A match takes characters from the text**, and some of them if its pattern cannot match
nothing. -/
theorem forward_of_mem_ends {p : Pattern} (h : y ∈ p.ends x) :
    ∃ n, y = x.forward n ∧ n ≤ x.rest.length ∧ (p.nullable = false → 0 < n) := by
  induction p generalizing x y with
  | empty => exact ⟨0, List.mem_singleton.mp h, Nat.zero_le _, Bool.noConfusion⟩
  | oneOf f =>
    obtain ⟨b, s⟩ := x
    cases s with
    | nil => cases h
    | cons c s =>
      rw [ends] at h
      split at h
      · exact ⟨1, List.mem_singleton.mp h, by simp, fun _ => Nat.one_pos⟩
      · cases h
  | many f =>
    obtain ⟨n, hn, rfl⟩ := List.mem_map.mp h
    have hlt := List.mem_range.mp (List.mem_reverse.mp hn)
    have hrun : x.run f ≤ x.rest.length := (List.takeWhile_sublist f).length_le
    exact ⟨n, rfl, by omega, Bool.noConfusion⟩
  | wordEdge =>
    rw [ends] at h
    split at h
    · cases h
    · exact ⟨0, List.mem_singleton.mp h, Nat.zero_le _, Bool.noConfusion⟩
  | andThen p q ihp ihq =>
    obtain ⟨z, hz, hy⟩ := List.mem_flatMap.mp h
    obtain ⟨m, rfl, hm, hmpos⟩ := ihp hz
    obtain ⟨n, rfl, hn, hnpos⟩ := ihq hy
    rw [Spot.rest_forward, List.length_drop] at hn
    refine ⟨m + n, Spot.forward_forward x m n, by omega, fun hnull => ?_⟩
    rcases Bool.and_eq_false_iff.mp hnull with hp | hq
    · exact Nat.add_pos_left (hmpos hp) n
    · exact Nat.add_pos_right m (hnpos hq)
  | orElse p q ihp ihq =>
    rcases List.mem_append.mp h with h | h
    · obtain ⟨n, hy, hn, hpos⟩ := ihp h
      exact ⟨n, hy, hn, fun hnull => hpos (Bool.or_eq_false_iff.mp hnull).1⟩
    · obtain ⟨n, hy, hn, hpos⟩ := ihq h
      exact ⟨n, hy, hn, fun hnull => hpos (Bool.or_eq_false_iff.mp hnull).2⟩

/-- A match of a pattern that cannot match nothing is not empty. -/
theorem pos_of_match? {p : Pattern} {n : Nat} (hp : p.nullable = false)
    (h : p.match? x = some (x.forward n)) : 0 < n := by
  obtain ⟨n', hn', hle, hpos⟩ := forward_of_mem_ends (List.mem_of_head? h)
  have hlength := congrArg (fun y => y.rest.length) hn'
  simp only [Spot.rest_forward, List.length_drop] at hlength
  have := hpos hp
  omega

end Pattern

end Literals.Highlight
