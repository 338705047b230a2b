/-
# A nesting limit only refuses

The reader with a nesting limit and the one without are read in step.  Where they part, the limited
one stands at a bracket that lies deeper than the limit allows, with none before it, and a
nesting-depth failure is final.  So **a limit changes nothing but too deep a text**, and a text that
is a literal is refused under a limit exactly when it has such a bracket: what the limited reader
accepts it has read to the end, and every bracket on the way was allowed (`holds_document`).

The pairing takes the limited reader as the plain one, since it is the limit that says which points
are reached.
-/
import Mathlib.Order.Bounds.Basic
import Literals.Proofs.Remembering

namespace Literals.Reader

open Grammar Rule

/-! ## 1. Reading in step until too deep a bracket -/

/-- The point is reached within the limit, and the bracket that opens there is beyond it. -/
def TooDeep (n : Int) (text : List Char) (q : Point) : Prop :=
  ∃ depth : Nat, Reached (some n) text depth q ∧ (∃ c ∈ q.rest.head?, isOpening c = true) ∧
    n < (depth + 1 : Nat)

/-- The limited rule `r'` does what `r` does, or fails at a bracket that is too deep. -/
def Limited (n : Int) (text : List Char) {α : Type} (r r' : Rule Id α) (Q : α → Point → Prop)
    (p : Point) : Prop :=
  Reaches p (Outcome.stop (r' p)) ∧
    ((r p = r' p ∧ ∀ a q, r' p = .ok a q → Q a q) ∨
      ∃ q, TooDeep n text q ∧ r' p = .failed (.nestingDepth n) q)

section Limited

variable {n : Int} {text : List Char} {α β : Type} {r s : Rule Id α} {r' s' : Rule Id α}
  {Q R : α → Point → Prop} {p : Point}

theorem Limited.of_quiet (h : Quiet 0 r r' p) (hQ : ∀ a q, r' p = .ok a q → Q a q) :
    Limited n text r r' Q p := by
  refine ⟨h.reaches, Or.inl ⟨?_, hQ⟩⟩
  have hmoved := h.moved
  rw [Point.moved_zero, Outcome.moved_zero] at hmoved
  exact hmoved

theorem Limited.bind {k k' : α → Rule Id β} {Q : β → Point → Prop} (h : Limited n text r r' R p)
    (hk : ∀ a q, R a q → Limited n text (k a) (k' a) Q q) :
    Limited n text (r >>= k) (r' >>= k') Q p := by
  obtain ⟨hreaches, ⟨heq, hR⟩ | ⟨q, hq, hfail⟩⟩ := h
  · cases hr : r' p with
    | ok a q =>
      rw [hr] at hreaches
      obtain ⟨hreaches', hk⟩ := hk a q (hR a q hr)
      rw [Limited, bind_of_ok (heq.trans hr), bind_of_ok hr]
      exact ⟨hreaches.trans hreaches', hk⟩
    | failed c q =>
      rw [hr] at hreaches
      rw [Limited, bind_of_failed (heq.trans hr), bind_of_failed hr]
      exact ⟨hreaches, Or.inl ⟨rfl, nofun⟩⟩
  · rw [hfail] at hreaches
    rw [Limited, bind_of_failed hfail]
    exact ⟨hreaches, Or.inr ⟨q, hq, rfl⟩⟩

/-- Where too deep a bracket is found in the first alternative, the second is not tried. -/
theorem Limited.attempt {trial : Trial} {first first' second second' : Rule Id Node}
    {Q : Node → Point → Prop} (h : Limited n text first first' Q p)
    (h' : Limited n text second second' Q p) :
    Limited n text (attempt Strategy.plain.note trial first second)
      (attempt Strategy.plain.note trial first' second') Q p := by
  refine ⟨Pairing.stop_attempt h.1 h'.1, ?_⟩
  obtain ⟨-, ⟨heq, hQ⟩ | ⟨q, hq, hfail⟩⟩ := h
  · cases hfirst : first' p with
    | ok x q =>
      rw [attempt_of_ok (heq.trans hfirst), attempt_of_ok hfirst]
      exact Or.inl ⟨rfl, fun a m ham => hQ a m (hfirst.trans ham)⟩
    | failed c q =>
      cases hc : c.isFinal with
      | true =>
        rw [attempt_of_final (heq.trans hfirst) hc, attempt_of_final hfirst hc]
        exact Or.inl ⟨rfl, nofun⟩
      | false =>
        rw [attempt_of_failed (heq.trans hfirst) hc, attempt_of_failed hfirst hc]
        exact h'.2
  · rw [attempt_of_final hfail rfl]
    exact Or.inr ⟨q, hq, rfl⟩

theorem limited_enter {depth : Nat} (hp : Reached (some n) text depth p)
    (hopen : ∃ c ∈ p.rest.head?, isOpening c = true) :
    Limited n text (enter none (depth + 1)) (enter (some n) (depth + 1))
      (fun _ q => q = p ∧ Allows (some n) (depth + 1)) p := by
  by_cases hn : n < (depth + 1 : Nat)
  · have hfail : (enter (some n) (depth + 1) : Rule Id Unit) p = .failed (.nestingDepth n) p := by
      rw [enter, if_pos hn]
      rfl
    rw [Limited, hfail]
    exact ⟨.refl p, Or.inr ⟨p, ⟨depth, hp, hopen, hn⟩, rfl⟩⟩
  · have hok : (enter (some n) (depth + 1) : Rule Id Unit) p = .ok () p := by
      rw [enter, if_neg hn]
      rfl
    rw [Limited, hok]
    exact ⟨.refl p, Or.inl ⟨rfl, fun _ q hq => enter_eq_ok (hok.trans hq)⟩⟩

end Limited

/-- The reader without a limit beside the one with the limit `n`. -/
def limited (n : Int) (text : List Char) : Pairing Id where
  strategy := .plain
  spare := rfl
  limit := none
  plainLimit := some n
  text := text
  place := 0
  Holds := Limited n text
  congr hr hr' h := by
    rw [Point.moved_zero] at hr
    rw [Limited, hr, hr']
    exact h
  weaken h hQ := ⟨h.1, h.2.imp_left fun ⟨heq, hQ'⟩ =>
    ⟨heq, fun a q hq => hQ a q hq (hQ' a q hq)⟩⟩
  quiet := .of_quiet
  bind := .bind
  noted _ h := h
  enter := limited_enter
  reaches h := h.1

/-- Expressions and compounds in step are compounds in step. -/
theorem compounds_limited (n : Int) (text : List Char) (total : Nat) :
    (limited n text).Compounds total where
  brace h hp hallow hhead :=
    Limited.attempt (Pairing.opens_set _ h hp hallow hhead).1
      (Pairing.opens_dict _ h hp hallow hhead).1
  compound _ _ h := h.1

/-- **The two readers do the same with a text, or the limited one stops at too deep a bracket.** -/
theorem limited_document (n : Int) (text : List Char) :
    Limited n text (Strategy.plain.document none) (Strategy.plain.document (some n))
      (fun _ q => Reached (some n) text 0 q ∧ q.rest = []) (.start text) :=
  Pairing.holds_document (compounds_limited n text _)

/-! ## 2. What a limit refuses -/

/-- The offset is that of the first bracket that opens deeper than `n`, outside the strings. -/
def FirstTooDeep (n : Int) (text : List Char) (i : Nat) : Prop :=
  IsLeast {j | ∃ d, openedAt? text j = some d ∧ n < d} i

/-- The error about too deep a nesting, found at an offset. -/
def nestingFault (n : Int) (i : Nat) : Fault :=
  (Fault.ofCause (.nestingDepth n)).annotate i

/-- Where the limited rules stop for the depth, the first bracket beyond the limit opens. -/
theorem TooDeep.first {n : Int} {text : List Char} {q : Point} (h : TooDeep n text q) :
    FirstTooDeep n text q.offset := by
  obtain ⟨depth, ⟨w, hw, hclimbs⟩, ⟨c, hc, hopen⟩, hn⟩ := h
  obtain ⟨t, ht⟩ := List.head?_eq_some_iff.mp hc
  have htext : text = w ++ c :: t := ht ▸ hw.rest
  have hoffset : q.offset = w.length := hw.offset.trans (Nat.zero_add _)
  refine ⟨⟨depth + 1, ?_, hn⟩, ?_⟩
  · rw [htext, hoffset]
    exact hclimbs.openedAt? hopen t
  · rintro i ⟨d, hd, hdeep⟩
    by_contra hlt
    rw [htext, openedAt?_append (hoffset ▸ not_le.mp hlt)] at hd
    exact absurd (shallow_iff.mp hclimbs.shallow i d hd n rfl) (not_le.mpr hdeep)

/-- A text with every bracket within the limit has no first one beyond it. -/
theorem shallow_iff_not_tooDeep {n : Int} {text : List Char} :
    Shallow (some n) (.outside 0) text ↔ ¬ ∃ i d, openedAt? text i = some d ∧ n < d := by
  simp [shallow_iff, Allows]

/-- The plain rules with a limit find what the ones without find, or stop at the first bracket
beyond the limit. -/
theorem result_limited (n : Int) (text : String) :
    (read text (some n) = read text none ∧ ∀ t, read text (some n) = .ok t →
        Shallow (some n) (.outside 0) text.toList) ∨
      ∃ i, FirstTooDeep n text.toList i ∧ read text (some n) = .error (nestingFault n i) := by
  rw [read_eq_result, read_eq_result]
  obtain ⟨-, ⟨heq, hok⟩ | ⟨q, hq, hfail⟩⟩ := limited_document n text.toList
  · refine Or.inl ⟨congrArg Outcome.result heq.symm, fun t ht => ?_⟩
    cases hdoc : Strategy.plain.document (some n) (.start text.toList) with
    | ok root q =>
      obtain ⟨⟨w, hw, hclimbs⟩, hend⟩ := hok root q hdoc
      have htext : text.toList = w := by
        have hrest : text.toList = w ++ q.rest := hw.rest
        rwa [hend, List.append_nil] at hrest
      exact htext ▸ hclimbs.shallow
    | failed c q =>
      rw [hdoc] at ht
      cases ht
  · exact Or.inr ⟨q.offset, hq.first, congrArg Outcome.result hfail⟩

/-- What is read under a limit is read without one, and no bracket of it is too deep. -/
theorem accepted_limited {n : Int} {text : String} {t : Tree} (h : read text (some n) = .ok t) :
    read text none = .ok t ∧ Shallow (some n) (.outside 0) text.toList := by
  rcases result_limited n text with ⟨heq, hshallow⟩ | ⟨i, -, hfail⟩
  · exact ⟨heq ▸ h, hshallow t h⟩
  · exact nomatch h.symm.trans hfail

/-- **Under a limit a literal is read where its brackets are shallow**, and as what it is. -/
theorem read_limited_iff {limit : Option Int} {text : String} {t u : Tree}
    (h : read text none = .ok t) :
    read text limit = .ok u ↔ u = t ∧ Shallow limit (.outside 0) text.toList := by
  cases limit with
  | none =>
    rw [h, shallow_iff]
    simp [Allows, eq_comm]
  | some n =>
    constructor
    · intro hu
      obtain ⟨hu, hshallow⟩ := accepted_limited hu
      exact ⟨Except.ok.inj (hu.symm.trans h), hshallow⟩
    · rintro ⟨rfl, hshallow⟩
      rcases result_limited n text with ⟨heq, -⟩ | ⟨i, ⟨hi, -⟩, -⟩
      · exact heq.trans h
      · exact absurd ⟨i, hi⟩ (shallow_iff_not_tooDeep.mp hshallow)

/-- A literal with too deep a bracket is refused for the first of them. -/
theorem result_of_tooDeep {n : Int} {text : String} {t : Tree} (h : read text none = .ok t)
    (hdeep : ∃ i d, openedAt? text.toList i = some d ∧ n < d) :
    ∃ i, FirstTooDeep n text.toList i ∧ read text (some n) = .error (nestingFault n i) := by
  rcases result_limited n text with ⟨heq, hshallow⟩ | hfail
  · exact absurd hdeep (shallow_iff_not_tooDeep.mp (hshallow t (heq.trans h)))
  · exact hfail

theorem nestingFault_injective (n : Int) : Function.Injective (nestingFault n) := by
  intro i j h
  have hposition : some (i : Int) = some (j : Int) := congrArg Fault.position h
  exact Int.ofNat.inj (Option.some.inj hposition)

/-- **A limit changes nothing but too deep a text.**  With a limit the reader gives what it gives
without one, or the error about the depth; this error comes, for a text that is a literal, exactly
where a bracket outside the strings lies deeper than the limit, and names the first such bracket;
and a text that is read under a limit is read as the same tree under every higher one. -/
theorem read_under_limit (text : String) (n : Int) :
    (read text (some n) = read text none ∨
        ∃ i, FirstTooDeep n text.toList i ∧ read text (some n) = .error (nestingFault n i)) ∧
      (∀ t, read text none = .ok t →
        ((∃ f, read text (some n) = .error f ∧ f.kind = .nestingDepth) ↔
            ∃ i d, openedAt? text.toList i = some d ∧ n < d) ∧
          ∀ i, read text (some n) = .error (nestingFault n i) ↔ FirstTooDeep n text.toList i) ∧
      ∀ m t, n ≤ m → read text (some n) = .ok t → read text (some m) = .ok t := by
  refine ⟨(result_limited n text).imp_left And.left, fun t ht => ⟨⟨?_, ?_⟩, fun i => ⟨?_, ?_⟩⟩, ?_⟩
  · rintro ⟨f, hf, -⟩
    rcases result_limited n text with ⟨heq, -⟩ | ⟨i, ⟨hi, -⟩, -⟩
    · exact nomatch (heq.trans ht).symm.trans hf
    · exact ⟨i, hi⟩
  · intro hdeep
    obtain ⟨i, -, hi⟩ := result_of_tooDeep ht hdeep
    exact ⟨_, hi, rfl⟩
  · intro hi
    rcases result_limited n text with ⟨heq, -⟩ | ⟨j, hj, hfail⟩
    · exact nomatch (heq.trans ht).symm.trans hi
    · obtain rfl := nestingFault_injective n (Except.error.inj (hi.symm.trans hfail))
      exact hj
  · intro hi
    obtain ⟨j, hj, hfail⟩ := result_of_tooDeep ht ⟨i, hi.1⟩
    obtain rfl := hi.unique hj
    exact hfail
  · intro m t hnm ht
    obtain ⟨hunlimited, hshallow⟩ := accepted_limited ht
    rcases result_limited m text with ⟨heq, -⟩ | ⟨i, ⟨⟨d, hd, hdeep⟩, -⟩, -⟩
    · exact heq.trans hunlimited
    · exact absurd ⟨i, d, hd, hnm.trans_lt hdeep⟩ (shallow_iff_not_tooDeep.mp hshallow)

end Literals.Reader
