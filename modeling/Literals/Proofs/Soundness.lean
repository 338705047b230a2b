/-
# What is read is in the grammar

Every text that a rule reads successfully is derived by the production of that rule, with the tree
that the rule returns.  **The nesting limit plays no part**: it only makes more texts fail.

The statements are about the rules without memory.  Each takes what it needs of the expressions
inside as a hypothesis `Sound expr`, and the recursion is closed once, in `sound_expression`, by
induction on the number of characters left.
-/
import Literals.Proofs.Leaf

namespace Literals.Reader

open Number Grammar Rule

variable {p q : Point} {n : Node}

/-- The rule reads nothing but expressions. -/
def Sound (expr : Rule Id Node) : Prop :=
  ∀ {p q : Point} {x : Node}, expr p = .ok x q → ∃ w, Expr w x ∧ Spans p w q

/-! ## 1. Closing brackets and sequences -/

/-- The character that comes next is the one that is read. -/
theorem spans_of_head {c d : Char} (h : p.rest.head? = some c)
    (hd : (next : Rule Id Char) p = .ok d q) : Spans p [c] q := by
  have hd := next_eq_ok.mp hd
  obtain rfl : c = d := by simpa [hd.head] using h.symm
  exact hd

/-- A closing bracket; where a comma is allowed, it may stand before the bracket with blanks
after it. -/
theorem close_eq_ok {c : Char} (hc : c ≠ ',') (hblank : Text.isBlank c = false)
    {trailing : Bool} {u : Unit} :
    (close c trailing : Rule Id Unit) p = .ok u q ↔
      Spans p [c] q ∨ (trailing = true ∧ ∃ v, Blank v ∧ Spans p (',' :: (v ++ [c])) q) := by
  rw [close, bind_of_ok ahead_eq]
  constructor
  · intro h
    cases hp : p.rest.head? with
    | none => rw [hp] at h; exact absurd h fail_ne_ok
    | some d =>
      simp only [hp] at h
      obtain ⟨d', a, ha, h⟩ := bind_eq_ok.mp h
      have ha := spans_of_head hp ha
      split at h
      next hcomma =>
        have ha : Spans p [','] a := hcomma.1 ▸ ha
        rw [bind_of_ok blanks_eq, bind_of_ok ahead_eq] at h
        obtain ⟨v, hv, hvs⟩ := spans_skipBlanks a
        cases ha' : a.skipBlanks.rest.head? with
        | none => rw [ha'] at h; exact absurd h fail_ne_ok
        | some e =>
          simp only [ha'] at h
          obtain ⟨e', b, hb, h⟩ := bind_eq_ok.mp h
          have hb := spans_of_head ha' hb
          split at h
          next heq =>
            obtain ⟨-, rfl⟩ := pure_eq_ok.mp h
            exact Or.inr ⟨hcomma.2, v, hv, ha.cons (hvs.append (heq ▸ hb))⟩
          next => exact absurd h fail_ne_ok
      next =>
        split at h
        next heq =>
          obtain ⟨-, rfl⟩ := pure_eq_ok.mp h
          exact Or.inl (heq ▸ ha)
        next => exact absurd h fail_ne_ok
  · rintro (h | ⟨htrail, v, hv, h⟩)
    · rw [h.head]
      refine (bind_of_ok (next_eq_ok.mpr h)).trans ?_
      rw [if_neg fun hcomma => hc hcomma.1, if_pos rfl]
      exact pure_eq_ok.mpr ⟨rfl, rfl⟩
    · obtain ⟨a, ha, h⟩ := h.uncons
      obtain ⟨b, hb, h⟩ := h.split
      have hskip : a.skipBlanks = b := skipBlanks_eq hb hv fun d hd => by
        obtain rfl : c = d := by simpa [h.head] using hd
        exact hblank
      rw [ha.head]
      refine (bind_of_ok (next_eq_ok.mpr ha)).trans ?_
      rw [if_pos ⟨rfl, htrail⟩, bind_of_ok blanks_eq, bind_of_ok ahead_eq, hskip, h.head]
      refine (bind_of_ok (next_eq_ok.mpr h)).trans ?_
      rw [if_pos rfl]
      exact pure_eq_ok.mpr ⟨rfl, rfl⟩

/-- What may stand after the first of several parts: nothing, or a comma and more of them. -/
def Tail {α : Type} (parts : List Char → List α → Prop) (w : List Char) (xs : List α) : Prop :=
  (w = [] ∧ xs = []) ∨ ∃ v, w = ',' :: v ∧ parts v xs

/-- Behind a first expression, more of them make a sequence. -/
theorem exprs_of_tail {u w : List Char} {x : Node} {xs : List Node} (hx : Expr u x)
    (h : Tail Exprs w xs) : Exprs (u ++ w) (x :: xs) := by
  rcases h with ⟨rfl, rfl⟩ | ⟨v, rfl, hxs⟩
  · simpa using Exprs.one hx
  · exact .cons hx hxs

/-- Behind a first entry, more of them make the inside of a dictionary. -/
theorem entries_of_tail {u v w : List Char} {k x : Node} {es : List (Node × Node)}
    (hk : Expr u k) (hx : Expr v x) (h : Tail Entries w es) :
    Entries (u ++ ':' :: (v ++ w)) ((k, x) :: es) := by
  rcases h with ⟨rfl, rfl⟩ | ⟨t, rfl, hes⟩
  · simpa using Entries.one hk hx
  · exact .cons hk hx hes

section Parts

variable {expr : Rule Id Node} (hexpr : Sound expr)
include hexpr

/-- **What the loop over a sequence reads is nothing, or a comma and more expressions**; a comma
that is given back before the closing bracket is not part of it. -/
theorem tail_of_more {closing : Option Char} {count : Nat} {xs : List Node}
    (h : more expr closing count p = .ok xs q) : ∃ w, Tail Exprs w xs ∧ Spans p w q := by
  induction count generalizing p xs with
  | zero =>
    obtain ⟨rfl, rfl⟩ := pure_eq_ok.mp h
    exact ⟨[], Or.inl ⟨rfl, rfl⟩, .refl _⟩
  | succ count ih =>
    rw [more, bind_of_ok ahead_eq] at h
    split at h
    next hcomma =>
      rw [bind_of_ok here_eq] at h
      obtain ⟨d, a, ha, h⟩ := bind_eq_ok.mp h
      have ha := spans_of_head hcomma ha
      rw [bind_of_ok blanks_eq, bind_of_ok ahead_eq] at h
      split at h
      next =>
        rw [bind_of_ok goTo_eq] at h
        obtain ⟨rfl, rfl⟩ := pure_eq_ok.mp h
        exact ⟨[], Or.inl ⟨rfl, rfl⟩, .refl _⟩
      next =>
        obtain ⟨x, b, hx, h⟩ := bind_eq_ok.mp h
        obtain ⟨ys, c, hys, h⟩ := bind_eq_ok.mp h
        obtain ⟨rfl, rfl⟩ := pure_eq_ok.mp h
        obtain ⟨u, hu, hblank⟩ := spans_skipBlanks a
        obtain ⟨v, hv, hvs⟩ := hexpr hx
        obtain ⟨w, hw, hws⟩ := ih hys
        exact ⟨_, Or.inr ⟨_, rfl, exprs_of_tail (hv.blank_append hu) hw⟩,
          ha.cons ((hblank.append hvs).append hws)⟩
    next =>
      obtain ⟨rfl, rfl⟩ := pure_eq_ok.mp h
      exact ⟨[], Or.inl ⟨rfl, rfl⟩, .refl _⟩

/-- The elements of a sequence are expressions with commas between them. -/
theorem exprs_of_elements {closing : Option Char} {xs : List Node}
    (h : elements expr closing p = .ok xs q) : ∃ w, Exprs w xs ∧ Spans p w q := by
  obtain ⟨x, a, hx, h⟩ := bind_eq_ok.mp h
  rw [bind_of_ok here_eq] at h
  obtain ⟨ys, b, hys, h⟩ := bind_eq_ok.mp h
  obtain ⟨rfl, rfl⟩ := pure_eq_ok.mp h
  obtain ⟨u, hu, hus⟩ := hexpr hx
  obtain ⟨w, hw, hws⟩ := tail_of_more hexpr hys
  exact ⟨_, exprs_of_tail hu hw, hus.append hws⟩

/-- An entry is two expressions with a colon between them. -/
theorem exprs_of_entry {e : Node × Node} (h : entry expr p = .ok e q) :
    ∃ u v, Expr u e.1 ∧ Expr v e.2 ∧ Spans p (u ++ ':' :: v) q := by
  obtain ⟨k, a, hk, h⟩ := bind_eq_ok.mp h
  rw [bind_of_ok ahead_eq] at h
  split at h
  next hcolon =>
    obtain ⟨d, b, hb, h⟩ := bind_eq_ok.mp h
    obtain ⟨x, c, hx, h⟩ := bind_eq_ok.mp h
    obtain ⟨rfl, rfl⟩ := pure_eq_ok.mp h
    obtain ⟨u, hu, hus⟩ := hexpr hk
    obtain ⟨v, hv, hvs⟩ := hexpr hx
    exact ⟨u, v, hu, hv, hus.append ((spans_of_head hcolon hb).cons hvs)⟩
  next => exact absurd h fail_ne_ok

theorem tail_of_moreEntries {count : Nat} {es : List (Node × Node)}
    (h : moreEntries expr count p = .ok es q) : ∃ w, Tail Entries w es ∧ Spans p w q := by
  induction count generalizing p es with
  | zero =>
    obtain ⟨rfl, rfl⟩ := pure_eq_ok.mp h
    exact ⟨[], Or.inl ⟨rfl, rfl⟩, .refl _⟩
  | succ count ih =>
    rw [moreEntries, bind_of_ok ahead_eq] at h
    split at h
    next hcomma =>
      obtain ⟨d, a, ha, h⟩ := bind_eq_ok.mp h
      obtain ⟨e, b, he, h⟩ := bind_eq_ok.mp h
      obtain ⟨fs, c, hfs, h⟩ := bind_eq_ok.mp h
      obtain ⟨rfl, rfl⟩ := pure_eq_ok.mp h
      obtain ⟨u, v, hu, hv, huv⟩ := exprs_of_entry hexpr he
      obtain ⟨w, hw, hws⟩ := ih hfs
      refine ⟨_, Or.inr ⟨_, rfl, entries_of_tail hu hv hw⟩, ?_⟩
      simpa using (spans_of_head hcomma ha).cons (huv.append hws)
    next =>
      obtain ⟨rfl, rfl⟩ := pure_eq_ok.mp h
      exact ⟨[], Or.inl ⟨rfl, rfl⟩, .refl _⟩

/-! ## 2. Compounds -/

/-- A list that is read is an item, and so is a set, a dictionary and a tuple below. -/
theorem item_of_list (hp : p.rest.head? = some '[') (h : list expr p = .ok n q) :
    ∃ w, Item w n ∧ Spans p w q := by
  obtain ⟨d, a, ha, h⟩ := bind_eq_ok.mp h
  have ha := spans_of_head hp ha
  rw [bind_of_ok blanks_eq] at h
  obtain ⟨u, hu, hblank⟩ := spans_skipBlanks a
  obtain ⟨c, b, hb, h⟩ := bind_eq_ok.mp h
  obtain ⟨hc, rfl⟩ := peek_eq_ok.mp hb
  split at h
  next heq =>
    subst heq
    obtain ⟨d, b, hb, h⟩ := bind_eq_ok.mp h
    obtain ⟨rfl, rfl⟩ := pure_eq_ok.mp h
    exact ⟨_, .emptyList hu, ha.cons (hblank.append (spans_of_head hc hb))⟩
  next =>
    obtain ⟨xs, b, hxs, h⟩ := bind_eq_ok.mp h
    obtain ⟨_, e, he, h⟩ := bind_eq_ok.mp h
    obtain ⟨rfl, rfl⟩ := pure_eq_ok.mp h
    obtain ⟨w, hw, hws⟩ := exprs_of_elements hexpr hxs
    rcases (close_eq_ok (by decide) (by decide)).mp he with he | ⟨hfalse, -⟩
    · exact ⟨_, .list (hw.blank_append hu), ha.cons ((hblank.append hws).append he)⟩
    · cases hfalse

theorem item_of_set (hp : p.rest.head? = some '{') (h : set expr p = .ok n q) :
    ∃ w, Item w n ∧ Spans p w q := by
  obtain ⟨d, a, ha, h⟩ := bind_eq_ok.mp h
  have ha := spans_of_head hp ha
  obtain ⟨xs, b, hxs, h⟩ := bind_eq_ok.mp h
  obtain ⟨_, e, he, h⟩ := bind_eq_ok.mp h
  obtain ⟨rfl, rfl⟩ := pure_eq_ok.mp h
  obtain ⟨w, hw, hws⟩ := exprs_of_elements hexpr hxs
  rcases (close_eq_ok (by decide) (by decide)).mp he with he | ⟨hfalse, -⟩
  · exact ⟨_, .set hw, ha.cons (hws.append he)⟩
  · cases hfalse

theorem item_of_dict (hp : p.rest.head? = some '{') (h : dict expr p = .ok n q) :
    ∃ w, Item w n ∧ Spans p w q := by
  obtain ⟨d, a, ha, h⟩ := bind_eq_ok.mp h
  have ha := spans_of_head hp ha
  rw [bind_of_ok blanks_eq] at h
  obtain ⟨u, hu, hblank⟩ := spans_skipBlanks a
  obtain ⟨c, b, hb, h⟩ := bind_eq_ok.mp h
  obtain ⟨hc, rfl⟩ := peek_eq_ok.mp hb
  split at h
  next heq =>
    subst heq
    obtain ⟨d, b, hb, h⟩ := bind_eq_ok.mp h
    obtain ⟨rfl, rfl⟩ := pure_eq_ok.mp h
    exact ⟨_, .emptyDict hu, ha.cons (hblank.append (spans_of_head hc hb))⟩
  next =>
    obtain ⟨e, b, he, h⟩ := bind_eq_ok.mp h
    rw [bind_of_ok here_eq] at h
    obtain ⟨es, f, hes, h⟩ := bind_eq_ok.mp h
    obtain ⟨_, g, hg, h⟩ := bind_eq_ok.mp h
    obtain ⟨rfl, rfl⟩ := pure_eq_ok.mp h
    obtain ⟨v, w, hv, hw, hvw⟩ := exprs_of_entry hexpr he
    obtain ⟨t, ht, hts⟩ := tail_of_moreEntries hexpr hes
    rcases (close_eq_ok (by decide) (by decide)).mp hg with hg | ⟨hfalse, -⟩
    · refine ⟨_, .dict (Entries.blank_append hu (entries_of_tail hv hw ht)), ?_⟩
      simpa using ha.cons ((hblank.append (hvw.append hts)).append hg)
    · cases hfalse

/-- Of tuples there are four forms: empty, with one part, and with more, with or without a last
comma. -/
theorem item_of_tuple (hp : p.rest.head? = some '(') (h : tuple expr p = .ok n q) :
    ∃ w, Item w n ∧ Spans p w q := by
  obtain ⟨d, a, ha, h⟩ := bind_eq_ok.mp h
  have ha := spans_of_head hp ha
  rw [bind_of_ok blanks_eq] at h
  obtain ⟨u, hu, hblank⟩ := spans_skipBlanks a
  obtain ⟨c, b, hb, h⟩ := bind_eq_ok.mp h
  obtain ⟨hc, rfl⟩ := peek_eq_ok.mp hb
  split at h
  next heq =>
    subst heq
    obtain ⟨d, b, hb, h⟩ := bind_eq_ok.mp h
    obtain ⟨rfl, rfl⟩ := pure_eq_ok.mp h
    exact ⟨_, .emptyTuple hu, ha.cons (hblank.append (spans_of_head hc hb))⟩
  next =>
    obtain ⟨x, b, hx, h⟩ := bind_eq_ok.mp h
    obtain ⟨w, hw, hws⟩ := hexpr hx
    have hw := hw.blank_append hu
    rw [bind_of_ok ahead_eq] at h
    cases hcomma : b.rest.head? with
    | none => rw [hcomma] at h; exact absurd h fail_ne_ok
    | some c =>
      simp only [hcomma] at h
      split at h
      next heq =>
        subst heq
        obtain ⟨d, e, he, h⟩ := bind_eq_ok.mp h
        have he := spans_of_head hcomma he
        rw [bind_of_ok blanks_eq, bind_of_ok ahead_eq] at h
        obtain ⟨u', hu', hblank'⟩ := spans_skipBlanks e
        split at h
        next hclose =>
          obtain ⟨d, f, hf, h⟩ := bind_eq_ok.mp h
          obtain ⟨rfl, rfl⟩ := pure_eq_ok.mp h
          refine ⟨_, .singleton hw hu', ?_⟩
          simpa using ha.cons
            ((hblank.append hws).append (he.cons (hblank'.append (spans_of_head hclose hf))))
        next =>
          obtain ⟨xs, f, hxs, h⟩ := bind_eq_ok.mp h
          obtain ⟨_, g, hg, h⟩ := bind_eq_ok.mp h
          obtain ⟨rfl, rfl⟩ := pure_eq_ok.mp h
          obtain ⟨v, hv, hvs⟩ := exprs_of_elements hexpr hxs
          have hv := hv.blank_append hu'
          have hspan := ha.cons ((hblank.append hws).append (he.cons (hblank'.append hvs)))
          rcases (close_eq_ok (by decide) (by decide)).mp hg with hg | ⟨-, t, ht, hg⟩
          · exact ⟨_, .tuple hw hv, by simpa using hspan.append hg⟩
          · exact ⟨_, .tupleComma hw hv ht, by simpa using hspan.append hg⟩
      next => exact absurd h fail_ne_ok

end Parts

/-! ## 3. Expressions -/

theorem item_of_complex (h : complex p = .ok n q) : ∃ w, Item w n ∧ Spans p w q := by
  rcases complex_eq_ok.mp h with ⟨x, hx, hspan, rfl⟩ | ⟨x, y, hx, hy, hjoin, hspan, rfl⟩
  · exact ⟨_, .imaginary hx, hspan⟩
  · exact ⟨_, .complex hx hy hjoin, hspan⟩

theorem item_of_bracketed {note : Retry → Id Unit} {expr : Rule Id Node} (hexpr : Sound expr)
    {c : Char} (hp : p.rest.head? = some c) (hc : isOpening c = true)
    (h : bracketed note expr p = .ok n q) : ∃ w, Item w n ∧ Spans p w q := by
  rw [bracketed, bind_of_ok (peek_of_head hp)] at h
  split at h
  next heq => exact item_of_list hexpr (heq ▸ hp) h
  next hlist =>
    split at h
    next heq =>
      rcases attempt_eq_ok h with h | h
      · exact item_of_set hexpr (heq ▸ hp) h
      · exact item_of_dict hexpr (heq ▸ hp) h
    next hbrace =>
      rcases attempt_eq_ok h with h | h
      · exact item_of_complex h
      · have heq : c = '(' := by simpa [isOpening, hlist, hbrace] using hc
        exact item_of_tuple hexpr (heq ▸ hp) h

/-- A literal without parts is an item, whichever of the alternatives has read it. -/
theorem item_of_single {note : Retry → Id Unit} (h : single note p = .ok n q) :
    ∃ w, Item w n ∧ Spans p w q := by
  obtain ⟨c, a, ha, h⟩ := bind_eq_ok.mp h
  obtain ⟨hc, rfl⟩ := peek_eq_ok.mp ha
  split at h
  next =>
    obtain ⟨hspan, rfl⟩ := noneLiteral_eq_ok.mp h
    exact ⟨_, .noneLiteral, hspan⟩
  next =>
    split at h
    next =>
      rcases bool_eq_ok.mp h with ⟨hspan, rfl⟩ | ⟨hspan, rfl⟩
      · exact ⟨_, .trueLiteral, hspan⟩
      · exact ⟨_, .falseLiteral, hspan⟩
    next =>
      split at h
      next hquote =>
        have hquote : c = '\'' ∨ c = '"' := by simpa [isQuote] using hquote
        obtain ⟨quote, raw, hq, hraw, hspan, rfl⟩ :=
          (string_eq_ok fun d hd => by
            obtain rfl : c = d := by simpa [hc] using hd
            exact hquote).mp h
        exact ⟨_, .string hq hraw, hspan⟩
      next =>
        rcases attempt_eq_ok h with h | h
        · exact item_of_complex h
        · rcases attempt_eq_ok h with h | h
          · obtain ⟨x, hx, hsign, hmark, hspan, -, rfl⟩ := float_eq_ok.mp h
            exact ⟨_, .float hx hsign hmark, hspan⟩
          · obtain ⟨minus, ds, hds, hspan, -, rfl⟩ := integer_eq_ok.mp h
            exact ⟨_, .integer hds, hspan⟩

/-- Entering a compound reads nothing. -/
theorem eq_of_enter {limit : Option Int} {depth : Nat} {u : Unit}
    (h : (enter limit depth : Rule Id Unit) p = .ok u q) : p = q := by
  cases limit with
  | none => exact (pure_eq_ok.mp h).2
  | some n =>
    rw [enter] at h
    split at h
    next => exact absurd h fail_ne_ok
    next => exact (pure_eq_ok.mp h).2

/-- **Whatever is read as an expression is one**, under every limit and at every depth. -/
theorem sound_expression (limit : Option Int) (count depth : Nat) :
    Sound (Strategy.plain.expression limit count depth) := by
  induction count generalizing depth with
  | zero => exact fun h => absurd h fail_ne_ok
  | succ count ih =>
    intro p q x h
    rw [Strategy.expression, bind_of_ok blanks_eq] at h
    obtain ⟨u, hu, hus⟩ := spans_skipBlanks p
    obtain ⟨c, a, ha, h⟩ := bind_eq_ok.mp h
    obtain ⟨hc, rfl⟩ := peek_eq_ok.mp ha
    have hfinish : ∀ {y : Node} {m : Point},
        (do Rule.blanks; pure y : Rule Id Node) m = .ok x q →
          (∃ w, Item w y ∧ Spans p.skipBlanks w m) → ∃ w, Expr w x ∧ Spans p w q := by
      rintro y m h ⟨w, hw, hws⟩
      rw [bind_of_ok blanks_eq] at h
      obtain ⟨rfl, rfl⟩ := pure_eq_ok.mp h
      obtain ⟨v, hv, hvs⟩ := spans_skipBlanks m
      exact ⟨_, .blanks hu hw hv, hus.append (hws.append hvs)⟩
    simp only at h
    split at h
    next hopen =>
      obtain ⟨_, b, hb, h⟩ := bind_eq_ok.mp h
      obtain rfl := eq_of_enter hb
      obtain ⟨y, m, hy, h⟩ := bind_eq_ok.mp h
      exact hfinish h (item_of_bracketed (ih (depth + 1)) hc hopen hy)
    next =>
      obtain ⟨y, m, hy, h⟩ := bind_eq_ok.mp h
      exact hfinish h (item_of_single hy)

end Literals.Reader
