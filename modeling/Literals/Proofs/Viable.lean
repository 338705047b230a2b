/-
# What has been read where a rule fails

A rule that fails has read some text, and this text is nearly always the beginning of something that
the rule would accept.  `Viable r C p` says so of one rule at one point, with `C` for what the text
can be made into: **up to what the failure refuses, more text makes what was read one of `C`**.  What
is refused is nothing, except that two failures stop behind it: where a closing bracket had to come,
the wrong character has been read, and a run of digits and minuses is read before it is judged
(`Cause.Refuses`).  Where the text ended too soon, everything has been read.

Rules are put together as they are read, and the text that completes them is put together on the
way: `None` where an expression is missing, and then, from the inside out, what each open compound
lacks.  Where a rule is tried after another one, only the later failure is seen, so **nothing has to
be known of why the earlier one failed**.
-/
import Literals.Proofs.Acceptance

namespace Literals

namespace Cause

/-! ## 1. What is refused -/

/-- Whether the cause says that the text ended too soon. -/
def isEarly : Cause → Bool
  | .endOfInput | .unclosedString | .missingClose _ => true
  | _ => false

/-- The text `v` is what has been read of the text that the cause refuses, and `rest` is left. -/
def Refuses : Cause → List Char → List Char → Prop
  | .expectedClose c, v, _ => c ∈ [']', ')', '}'] ∧ ∃ d, v = [d]
  | .badInteger, v, _ =>
    v = [] ∨ ∃ s, v = '-' :: s ∧ ∀ c ∈ s, Reader.isIntegerChar c = true
  | e, v, rest => v = [] ∧ (e.isEarly = true → rest = [])

end Cause

namespace Reader

open Grammar Rule

variable {α β : Type} {p q : Point} {c d : Char} {C D : List Char → Prop} {e : Cause}

/-! ## 2. Rules that fail -/

/-- From `p` to `q` lies a text that more text makes one of `C`, and then what the cause refuses. -/
def Stopped (C : List Char → Prop) (e : Cause) (p q : Point) : Prop :=
  ∃ w v, Spans p (w ++ v) q ∧ e.Refuses v q.rest ∧ ∃ s, C (w ++ s)

/-- Where the rule fails and does not end the reading at once, more text makes what it has read one
of `C`, up to what is refused. -/
def Viable (r : Rule Id α) (C : List Char → Prop) (p : Point) : Prop :=
  ∀ ⦃e : Cause⦄ ⦃q : Point⦄, r p = .failed e q → e.isFinal = false → Stopped C e p q

theorem stopped_here (hrefuses : e.Refuses [] p.rest) {s : List Char} (hs : C s) :
    Stopped C e p p :=
  ⟨[], [], .refl p, hrefuses, s, hs⟩

/-- What is completed behind a text completes both. -/
theorem Stopped.behind {m : Point} {u : List Char} (hu : Spans p u m)
    (h : Stopped (fun t => C (u ++ t)) e m q) : Stopped C e p q := by
  obtain ⟨w, v, hwv, hrefuses, s, hs⟩ := h
  refine ⟨u ++ w, v, ?_, hrefuses, s, ?_⟩
  · rw [List.append_assoc]
    exact hu.append hwv
  · rwa [List.append_assoc]

section Sequence

variable {r s : Rule Id α} {k : α → Rule Id β}

/-- What is completed to one of `C` is completed further to one of `D`. -/
theorem Viable.extend (h : Viable r C p) (hCD : ∀ t, C t → ∃ s, D (t ++ s)) : Viable r D p := by
  intro e q he hfinal
  obtain ⟨w, v, hwv, hrefuses, s, hs⟩ := h he hfinal
  obtain ⟨s', hs'⟩ := hCD _ hs
  refine ⟨w, v, hwv, hrefuses, s ++ s', ?_⟩
  rwa [← List.append_assoc]

theorem Viable.mono (h : Viable r C p) (hCD : ∀ t, C t → D t) : Viable r D p :=
  h.extend fun t ht => ⟨[], by rw [List.append_nil]; exact hCD t ht⟩

theorem viable_pure (a : α) : Viable (pure a) C p :=
  fun _ _ he => absurd he pure_ne_failed

/-- A failure that has refused nothing yet needs some text of `C`. -/
theorem viable_fail (hrefuses : e.Refuses [] p.rest) {s : List Char} (hs : C s) :
    Viable (fail e : Rule Id α) C p := by
  intro e' q he _
  obtain ⟨rfl, rfl⟩ := fail_eq_failed.mp he
  exact stopped_here hrefuses hs

/-- At the end of the text, all that is missing is a text of `C`. -/
theorem viable_missingClose (hp : p.rest.head? = none) {s : List Char} (hs : C s) :
    Viable (fail (.missingClose c) : Rule Id α) C p :=
  viable_fail ⟨rfl, fun _ => List.head?_eq_none_iff.mp hp⟩ hs

theorem Viable.ite {t : Prop} [Decidable t] (hr : t → Viable r C p) (hs : ¬ t → Viable s C p) :
    Viable (if t then r else s) C p := by
  split
  next ht => exact hr ht
  next ht => exact hs ht

/-- **A sequence is completed in its second part behind the text of the first one**, and in its
first part by whatever the second one still needs. -/
theorem Viable.bind (hr : Viable r C p)
    (hk : ∀ a m, r p = .ok a m → ∃ w, Spans p w m ∧ Viable (k a) (fun t => C (w ++ t)) m) :
    Viable (r >>= k) C p := by
  intro e q he hfinal
  rcases bind_eq_failed.mp he with he | ⟨a, m, ha, he⟩
  · exact hr he hfinal
  · obtain ⟨w, hw, hviable⟩ := hk a m ha
    exact (hviable he hfinal).behind hw

/-- Only the first part is completed where the second one never fails. -/
theorem Viable.bind_left (hr : Viable r C p) (hk : ∀ a m, Viable (k a) (fun _ => False) m) :
    Viable (r >>= k) C p := by
  intro e q he hfinal
  rcases bind_eq_failed.mp he with he | ⟨a, m, -, he⟩
  · exact hr he hfinal
  · obtain ⟨_, _, _, _, s, hs⟩ := hk a m he hfinal
    exact hs.elim

/-- After a rule that does not fail, the other one is completed behind its text. -/
theorem Viable.of_bind_ok {a : α} {m : Point} {w : List Char} (h : r p = .ok a m)
    (hw : Spans p w m) (hk : Viable (k a) (fun t => C (w ++ t)) m) : Viable (r >>= k) C p := by
  intro e q he hfinal
  rw [bind_of_ok h] at he
  exact (hk he hfinal).behind hw

end Sequence

section Characters

theorem viable_next {k : Char → Rule Id α} (hc : p.rest.head? = some c)
    (hk : ∀ a, Spans p [c] a → Viable (k c) (fun t => C (c :: t)) a) :
    Viable (next >>= k) C p := by
  obtain ⟨a, ha⟩ := exists_spans_of_head hc
  exact .of_bind_ok (next_eq_ok.mpr ha) ha (hk a ha)

theorem viable_ahead {k : Option Char → Rule Id α} (hk : Viable (k p.rest.head?) C p) :
    Viable (ahead >>= k) C p :=
  .of_bind_ok ahead_eq (.refl p) hk

theorem viable_here {k : Point → Rule Id α} (hk : Viable (k p) C p) :
    Viable (here >>= k) C p :=
  .of_bind_ok here_eq (.refl p) hk

theorem viable_blanks {k : Unit → Rule Id α}
    (hk : ∀ u, Blank u → Viable (k ()) (fun t => C (u ++ t)) p.skipBlanks) :
    Viable (blanks >>= k) C p := by
  obtain ⟨u, hu, hus⟩ := spans_skipBlanks p
  exact .of_bind_ok blanks_eq hus (hk u hu)

theorem viable_peek {k : Char → Rule Id α} {s : List Char} (hs : C s)
    (hk : ∀ c, p.rest.head? = some c → Viable (k c) C p) : Viable (peek >>= k) C p := by
  cases hc : p.rest.head? with
  | none =>
    intro e q he _
    have hnil := List.head?_eq_none_iff.mp hc
    rw [bind_of_failed (Pairing.peek_of_nil hnil)] at he
    obtain ⟨rfl, rfl⟩ := Outcome.failed.inj he
    exact stopped_here ⟨rfl, fun _ => hnil⟩ hs
  | some c => exact .of_bind_ok (peek_of_head hc) (.refl p) (hk c hc)

/-- A word that does not come next is no failure of its own. -/
theorem viable_word {w : List Char} {k : Bool → Rule Id α}
    (htrue : ∀ m, Viable (k true) (fun _ => False) m) (hfalse : Viable (k false) C p) :
    Viable (word w >>= k) C p := by
  cases hpre : w.isPrefixOf p.rest with
  | true =>
    obtain ⟨t, ht⟩ := List.isPrefixOf_iff_prefix.mp hpre
    have hspans : Spans p w ⟨p.offset + w.length, t⟩ := ⟨ht.symm, rfl⟩
    exact .of_bind_ok (word_of_spans hspans) hspans ((htrue _).mono fun _ => False.elim)
  | false => exact .of_bind_ok (word_of_not_isPrefix hpre) (.refl p) hfalse

end Characters

/-- **Of two alternatives the second one is completed**: the failure that is seen is not the first
one's, unless that ends the reading at once. -/
theorem viable_attempt {note : Retry → Id Unit} {trial : Trial} {first second : Rule Id Node}
    (h : Viable second C p) : Viable (attempt note trial first second) C p := by
  intro e q he hnot
  cases hfirst : first p with
  | ok x m => exact nomatch (attempt_of_ok hfirst).symm.trans he
  | failed e' m =>
    cases hfinal : e'.isFinal with
    | false => exact h ((attempt_of_failed hfirst hfinal).symm.trans he) hnot
    | true =>
      obtain ⟨rfl, -⟩ := Outcome.failed.inj ((attempt_of_final hfirst hfinal).symm.trans he)
      rw [hfinal] at hnot
      cases hnot

/-! ## 3. Literals without parts -/

/-- An open string is closed by a quote, and a backslash at its end by any character before it. -/
theorem viable_stringBody (quote : Char) (o : Nat) (s : List Char) :
    Viable (fun p => stringBody quote p.offset p.rest) (Body quote) ⟨o, s⟩ := by
  have hstep : ∀ {o o' : Nat} {w s : List Char} {e : Cause} {q : Point}, o' = o + w.length →
      (∀ t, Body quote t → Body quote (w ++ t)) → Stopped (Body quote) e ⟨o', s⟩ q →
        Stopped (Body quote) e ⟨o, w ++ s⟩ q := by
    rintro o o' w s e q rfl hw ⟨w', v, hspans, hrefuses, t, ht⟩
    exact Stopped.behind (m := ⟨o + w.length, s⟩) ⟨rfl, rfl⟩
      ⟨w', v, hspans, hrefuses, t, hw _ ht⟩
  intro e q he hfinal
  replace he : stringBody quote o s = .failed e q := he
  fun_induction stringBody quote o s with
  | case1 o =>
    obtain ⟨rfl, rfl⟩ := Outcome.failed.inj he
    exact stopped_here ⟨rfl, fun _ => rfl⟩ .nil
  | case2 => cases he
  | case3 o =>
    -- A closing quote would be escaped by the backslash, so the completion is a second one.
    obtain ⟨rfl, rfl⟩ := Outcome.failed.inj he
    exact ⟨['\\'], [], ⟨rfl, rfl⟩, ⟨rfl, fun _ => rfl⟩, ['\\'], .escaped .nil⟩
  | case4 => cases he
  | case5 o e' rest cause stop heq _ ih =>
    obtain ⟨rfl, rfl⟩ := Outcome.failed.inj he
    exact hstep (w := ['\\', e']) rfl (fun t ht => .escaped ht) (ih heq)
  | case6 => cases he
  | case7 o c rest hquote hback cause stop heq ih =>
    obtain ⟨rfl, rfl⟩ := Outcome.failed.inj he
    exact hstep (w := [c]) rfl (fun t ht => .plain hquote hback ht) (ih heq)

/-- A string in quotes, at one of them. -/
theorem viable_string (hc : p.rest.head? = some c) (hquote : isQuote c = true) :
    Viable string (fun t => ∃ x, Item t x) p := by
  have hq : c = '\'' ∨ c = '"' := by simpa [isQuote] using hquote
  refine viable_next hc fun a _ => Viable.bind_left ?_ fun _ _ => viable_pure _
  refine Viable.extend (viable_stringBody c a.offset a.rest) fun t ht => ⟨[c], ?_⟩
  exact ⟨_, .string hq ht⟩

theorem viable_bool : Viable bool (fun t => ∃ x, Item t x) p := by
  refine viable_word (fun _ => viable_pure _) (viable_word (fun _ => viable_pure _) ?_)
  exact viable_fail ⟨rfl, nofun⟩ ⟨_, .trueLiteral⟩

theorem viable_noneLiteral : Viable noneLiteral (fun t => ∃ x, Item t x) p :=
  viable_word (fun _ => viable_pure _) (viable_fail ⟨rfl, nofun⟩ ⟨_, .noneLiteral⟩)

/-- Digits, one more at the end, are an integer, with a minus or without one. -/
theorem item_digits (minus : Bool) {ds : List Char} (h : ∀ c ∈ ds, c.isDigit = true) :
    ∃ x, Item (minusText minus ++ ds ++ ['0']) x := by
  have hdigits : Digits (ds ++ ['0']) := by
    refine ⟨by simp, List.forall_mem_append.mpr ⟨h, ?_⟩⟩
    exact List.forall_mem_singleton.mpr rfl
  rw [List.append_assoc]
  exact ⟨_, .integer hdigits⟩

/-- A run of digits and minuses goes well up to a minus that is not at its start. -/
theorem exists_bad_minus {u : List Char} (h : ∀ c ∈ u, isIntegerChar c = true) :
    ∃ w v, u = w ++ v ∧ (∃ x, Item (w ++ ['0']) x) ∧
      (v = [] ∨ ∃ s, v = '-' :: s ∧ ∀ c ∈ s, isIntegerChar c = true) := by
  have hsign : ∃ minus s, u = minusText minus ++ s := by
    rcases u with _ | ⟨c, s⟩
    · exact ⟨false, [], rfl⟩
    · by_cases hc : c = '-'
      · subst hc
        exact ⟨true, s, rfl⟩
      · exact ⟨false, c :: s, rfl⟩
  obtain ⟨minus, s, rfl⟩ := hsign
  refine ⟨minusText minus ++ s.takeWhile Char.isDigit, s.dropWhile Char.isDigit, ?_, ?_, ?_⟩
  · rw [List.append_assoc, List.takeWhile_append_dropWhile]
  · exact item_digits minus fun c hc => List.mem_takeWhile_imp hc
  · have hrest : ∀ c ∈ s.dropWhile Char.isDigit, isIntegerChar c = true := fun c hc =>
      h c (List.mem_append_right _ ((List.dropWhile_sublist _).mem hc))
    cases hv : s.dropWhile Char.isDigit with
    | nil => exact .inl rfl
    | cons c t =>
      rw [hv] at hrest
      obtain ⟨hc, ht⟩ := List.forall_mem_cons.mp hrest
      have hdigit : c.isDigit = false := by
        have hhead := List.head?_dropWhile_not Char.isDigit s
        rw [hv] at hhead
        simpa using hhead
      have hminus : c = '-' := by simpa [isIntegerChar, hdigit] using hc
      exact .inr ⟨t, by rw [hminus], ht⟩

theorem viable_integer : Viable integer (fun t => ∃ x, Item t x) p := by
  intro e q he _
  have hspans := spans_span p isIntegerChar
  rw [integer, bind_of_ok takeWhile_eq] at he
  split at he
  next hnil =>
    obtain ⟨rfl, rfl⟩ := fail_eq_failed.mp he
    rw [hnil] at hspans
    have hnone : ∀ c ∈ ([] : List Char), c.isDigit = true := List.forall_mem_nil _
    exact ⟨[], [], hspans, ⟨rfl, fun h => absurd h (by decide)⟩, ['0'], item_digits false hnone⟩
  next =>
    cases hread : integer? (p.span isIntegerChar).1 with
    | some x =>
      rw [hread] at he
      exact absurd he pure_ne_failed
    | none =>
      rw [hread] at he
      obtain ⟨rfl, rfl⟩ := fail_eq_failed.mp he
      obtain ⟨w, v, hrun, hitem, hv⟩ :=
        exists_bad_minus (u := (p.span isIntegerChar).1) fun c hc => List.mem_takeWhile_imp hc
      rw [hrun] at hspans
      exact ⟨w, v, hspans, hv, ['0'], hitem⟩

/-- A literal without parts is not one for the last rule that is tried. -/
theorem viable_single {note : Retry → Id Unit} (hc : p.rest.head? = some c) :
    Viable (single note) (fun t => ∃ x, Item t x) p := by
  refine .of_bind_ok (peek_of_head hc) (.refl p) ?_
  refine .ite (fun _ => viable_noneLiteral) fun _ => .ite (fun _ => viable_bool) fun _ =>
    .ite (fun hquote => viable_string hc hquote) fun _ => ?_
  exact viable_attempt (viable_attempt viable_integer)

/-! ## 4. Parts of compounds -/

/-- A wrong character has been read when it is refused. -/
theorem viable_bracket (hclosing : c ∈ [']', ')', '}']) (hd : p.rest.head? = some d) (hc : C [c]) :
    Viable (do
      let _ ← next
      if d = c then pure () else fail (.expectedClose c)) C p := by
  intro e q he _
  obtain ⟨a, ha⟩ := exists_spans_of_head hd
  rw [bind_of_ok (next_eq_ok.mpr ha)] at he
  split at he
  next => exact absurd he pure_ne_failed
  next =>
    obtain ⟨rfl, rfl⟩ := fail_eq_failed.mp he
    exact ⟨[], [d], ha, ⟨hclosing, d, rfl⟩, [c], hc⟩

/-- What completes a closing bracket. -/
theorem viable_close (hclosing : c ∈ [']', ')', '}']) (trailing : Bool) :
    Viable (close c trailing) (fun t => t = [c] ∨
      (trailing = true ∧ ∃ v, Blank v ∧ t = ',' :: (v ++ [c]))) p := by
  refine viable_ahead ?_
  cases hd : p.rest.head? with
  | none => exact viable_missingClose hd (Or.inl rfl)
  | some d =>
    by_cases hcomma : d = ',' ∧ trailing = true
    · obtain ⟨rfl, htrailing⟩ := hcomma
      refine viable_next hd fun a _ => ?_
      rw [if_pos ⟨rfl, htrailing⟩]
      refine viable_blanks fun v hv => viable_ahead ?_
      have hcomplete : [','] ++ (v ++ [c]) = [c] ∨
          (trailing = true ∧ ∃ u, Blank u ∧ [','] ++ (v ++ [c]) = ',' :: (u ++ [c])) :=
        Or.inr ⟨htrailing, v, hv, rfl⟩
      cases he : a.skipBlanks.rest.head? with
      | none => exact viable_missingClose he hcomplete
      | some e => exact viable_bracket hclosing he hcomplete
    · simp only [if_neg hcomma]
      exact viable_bracket hclosing hd (Or.inl rfl)

/-- A text that is left behind leaves no more than there was. -/
theorem Spans.length_le {w : List Char} (h : Spans p w q) : q.rest.length ≤ p.rest.length := by
  rw [h.length_rest]
  exact Nat.le_add_left _ _

section Parts

variable {expr : Rule Id Node} {bound : Nat} (hsound : Sound expr)
  (hexpr : ∀ p, p.rest.length ≤ bound → Viable expr (fun t => ∃ x, Expr t x) p)
include hsound hexpr

theorem viable_more (closing : Option Char) (count : Nat) (hp : p.rest.length ≤ bound) :
    Viable (more expr closing count) (fun t => ∃ xs, Tail Exprs t xs) p := by
  induction count generalizing p with
  | zero => exact viable_pure _
  | succ count ih =>
    refine viable_ahead (.ite (fun hcomma => ?_) fun _ => viable_pure _)
    refine viable_here (viable_next hcomma fun a ha => viable_blanks fun u hu => ?_)
    have ha : a.skipBlanks.rest.length ≤ bound :=
      (length_skipBlanks a).trans (ha.length_le.trans hp)
    refine viable_ahead (.ite (fun _ => ?_) fun _ => ?_)
    · exact nofun
    · refine Viable.bind ((hexpr _ ha).mono ?_) fun x b hx => ?_
      · rintro t ⟨x, hx⟩
        exact ⟨[x], Or.inr ⟨_, rfl, .one (hx.blank_append hu)⟩⟩
      · obtain ⟨w, hw, hws⟩ := hsound hx
        refine ⟨w, hws, Viable.bind_left ((ih (hws.length_le.trans ha)).mono ?_)
          fun _ _ => viable_pure _⟩
        rintro t ⟨xs, hxs⟩
        refine ⟨x :: xs, Or.inr ⟨_, rfl, ?_⟩⟩
        simpa using exprs_of_tail (hw.blank_append hu) hxs

theorem viable_elements (closing : Option Char) (hp : p.rest.length ≤ bound) :
    Viable (elements expr closing) (fun t => ∃ xs, Exprs t xs) p := by
  refine Viable.bind ((hexpr p hp).mono ?_) fun x a hx => ?_
  · rintro t ⟨x, hx⟩
    exact ⟨[x], .one hx⟩
  · obtain ⟨w, hw, hws⟩ := hsound hx
    refine ⟨w, hws, viable_here (Viable.bind_left
      ((viable_more hsound hexpr closing _ (hws.length_le.trans hp)).mono ?_)
        fun _ _ => viable_pure _)⟩
    rintro t ⟨xs, hxs⟩
    exact ⟨x :: xs, exprs_of_tail hw hxs⟩

/-- An entry without a value gets one together with its colon. -/
theorem viable_entry (hp : p.rest.length ≤ bound) :
    Viable (entry expr) (fun t => ∃ u v k x, Expr u k ∧ Expr v x ∧ t = u ++ ':' :: v) p := by
  have hnone : Expr ['N', 'o', 'n', 'e'] .none := Item.noneLiteral.toExpr
  refine Viable.bind ((hexpr p hp).extend ?_) fun k a hk => ?_
  · rintro t ⟨k, hk⟩
    exact ⟨':' :: ['N', 'o', 'n', 'e'], t, _, k, .none, hk, hnone, rfl⟩
  · obtain ⟨u, hu, hus⟩ := hsound hk
    refine ⟨u, hus, viable_ahead (.ite (fun hcolon => ?_) fun _ => ?_)⟩
    · refine viable_next hcolon fun b hb => Viable.bind_left
        ((hexpr b (hb.length_le.trans (hus.length_le.trans hp))).mono ?_)
          fun _ _ => viable_pure _
      rintro t ⟨x, hx⟩
      exact ⟨u, t, k, x, hu, hx, rfl⟩
    · exact viable_fail ⟨rfl, nofun⟩ (s := ':' :: ['N', 'o', 'n', 'e'])
        ⟨u, _, k, .none, hu, hnone, rfl⟩

theorem viable_moreEntries (count : Nat) (hp : p.rest.length ≤ bound) :
    Viable (moreEntries expr count) (fun t => ∃ es, Tail Entries t es) p := by
  induction count generalizing p with
  | zero => exact viable_pure _
  | succ count ih =>
    refine viable_ahead (.ite (fun hcomma => ?_) fun _ => viable_pure _)
    refine viable_next hcomma fun a ha => ?_
    have ha := ha.length_le.trans hp
    refine Viable.bind ((viable_entry hsound hexpr ha).mono ?_) fun e b he => ?_
    · rintro _ ⟨u, v, k, x, hk, hx, rfl⟩
      exact ⟨[(k, x)], Or.inr ⟨_, rfl, .one hk hx⟩⟩
    · obtain ⟨u, v, hu, hv, huv⟩ := exprs_of_entry hsound he
      refine ⟨_, huv, Viable.bind_left ((ih (huv.length_le.trans ha)).mono ?_)
        fun _ _ => viable_pure _⟩
      rintro t ⟨es, hes⟩
      refine ⟨e :: es, Or.inr ⟨_, rfl, ?_⟩⟩
      simpa using entries_of_tail hu hv hes

end Parts

/-! ## 5. Compounds -/

/-- Inside a list, a dictionary or a tuple, behind the opening bracket and the blanks after it. -/
theorem viable_opened {x : Node} {inside : Rule Id Node} (hc : p.rest.head? = some c)
    (hempty : ∀ u, Blank u → C (c :: (u ++ [d])))
    (hinside : ∀ b u, Blank u → b.rest.length < p.rest.length →
      Viable inside (fun t => C (c :: (u ++ t))) b) :
    Viable (do
      let _ ← next
      blanks
      if (← peek) = d then
        let _ ← next
        pure x
      else inside) C p := by
  refine viable_next hc fun a ha => viable_blanks fun u hu => ?_
  have hlen : a.skipBlanks.rest.length < p.rest.length := by
    have hle := length_skipBlanks a
    rw [ha.length_rest, List.length_singleton]
    omega
  refine viable_peek (hempty u hu) fun e he => .ite (fun hd => ?_) fun _ => ?_
  · exact viable_next he fun _ _ => viable_pure _
  · exact hinside _ u hu hlen

/-- Parts and the bracket after them. -/
theorem viable_closed {body : Rule Id α} {f : α → Node} {parts : List Char → α → Prop}
    {trailing : Bool} (hclosing : c ∈ [']', ')', '}'])
    (hbody : Viable body (fun t => ∃ a, parts t a) p)
    (hparts : ∀ a m, body p = .ok a m → ∃ w, parts w a ∧ Spans p w m)
    (hclose : ∀ w a, parts w a → C (w ++ [c]))
    (hcomma : trailing = true → ∀ w a v, parts w a → Blank v → C (w ++ ',' :: (v ++ [c]))) :
    Viable (do
      let a ← body
      close c trailing
      pure (f a)) C p := by
  refine Viable.bind (hbody.extend ?_) fun a m ha => ?_
  · rintro t ⟨a, ha⟩
    exact ⟨[c], hclose t a ha⟩
  · obtain ⟨w, hw, hws⟩ := hparts a m ha
    refine ⟨w, hws, Viable.bind_left ((viable_close hclosing trailing).mono ?_)
      fun _ _ => viable_pure _⟩
    rintro t (rfl | ⟨htrailing, v, hv, rfl⟩)
    · exact hclose w a hw
    · exact hcomma htrailing w a v hw hv

section Compounds

variable {expr : Rule Id Node} {bound : Nat} (hsound : Sound expr)
  (hexpr : ∀ p, p.rest.length ≤ bound → Viable expr (fun t => ∃ x, Expr t x) p)
include hsound hexpr

theorem viable_list (hc : p.rest.head? = some '[') (hp : p.rest.length ≤ bound + 1) :
    Viable (list expr) (fun t => ∃ x, Item t x) p := by
  refine viable_opened hc (fun u hu => ⟨_, .emptyList hu⟩) fun b u hu hb => ?_
  refine viable_closed (by simp) (viable_elements hsound hexpr none (by omega))
    (fun _ _ => exprs_of_elements hsound) (fun w xs hw => ⟨.list xs, ?_⟩) nofun
  rw [← List.append_assoc]
  exact .list (hw.blank_append hu)

theorem viable_dict (hc : p.rest.head? = some '{') (hp : p.rest.length ≤ bound + 1) :
    Viable (dict expr) (fun t => ∃ x, Item t x) p := by
  refine viable_opened hc (fun u hu => ⟨_, .emptyDict hu⟩) fun b u hu hb => ?_
  have hb : b.rest.length ≤ bound := by omega
  refine Viable.bind ((viable_entry hsound hexpr hb).extend ?_) fun e m he => ?_
  · rintro _ ⟨v, w, k, x, hk, hx, rfl⟩
    refine ⟨['}'], .dict [(k, x)], ?_⟩
    rw [← List.append_assoc]
    exact .dict (Entries.blank_append hu (.one hk hx))
  · obtain ⟨v, w, hv, hw, hvw⟩ := exprs_of_entry hsound he
    refine ⟨_, hvw, viable_here ?_⟩
    refine viable_closed (by simp)
      (viable_moreEntries hsound hexpr _ (hvw.length_le.trans hb))
      (fun _ _ => tail_of_moreEntries hsound) (fun t es ht => ⟨.dict (e :: es), ?_⟩) nofun
    have hentries := Entries.blank_append hu (entries_of_tail hv hw ht)
    simpa using Item.dict hentries

theorem viable_tuple (hc : p.rest.head? = some '(') (hp : p.rest.length ≤ bound + 1) :
    Viable (tuple expr) (fun t => ∃ x, Item t x) p := by
  refine viable_opened hc (fun u hu => ⟨_, .emptyTuple hu⟩) fun b u hu hb => ?_
  have hb : b.rest.length ≤ bound := by omega
  have hnil : Blank [] := nofun
  have hsingleton : ∀ {t x v}, Expr t x → Blank v →
      ∃ y, Item ('(' :: (u ++ (t ++ ',' :: (v ++ [')'])))) y := by
    intro t x v hx hv
    refine ⟨.tuple [x], ?_⟩
    rw [← List.append_assoc]
    exact .singleton (hx.blank_append hu) hv
  refine Viable.bind ((hexpr b hb).extend ?_) fun x m hx => ?_
  · rintro t ⟨x, hx⟩
    exact ⟨[',', ')'], hsingleton hx hnil⟩
  obtain ⟨w, hw, hws⟩ := hsound hx
  refine ⟨w, hws, viable_ahead ?_⟩
  cases hhead : m.rest.head? with
  | none => exact viable_missingClose hhead (s := [',', ')']) (hsingleton hw hnil)
  | some e =>
    refine .ite (fun hcomma => ?_) fun _ => ?_
    · subst hcomma
      refine viable_next hhead fun a ha => viable_blanks fun v hv => viable_ahead ?_
      refine .ite (fun hclose => viable_next hclose fun _ _ => viable_pure _) fun _ => ?_
      have ha : a.skipBlanks.rest.length ≤ bound :=
        (length_skipBlanks a).trans (ha.length_le.trans (hws.length_le.trans hb))
      refine viable_closed (by simp) (viable_elements hsound hexpr _ ha)
        (fun _ _ => exprs_of_elements hsound) (fun t xs ht => ⟨.tuple (x :: xs), ?_⟩)
        (fun _ t xs s ht hs => ⟨.tuple (x :: xs), ?_⟩)
      · have hitem := Item.tuple (hw.blank_append hu) (ht.blank_append hv)
        simpa using hitem
      · have hitem := Item.tupleComma (hw.blank_append hu) (ht.blank_append hv) hs
        simpa using hitem
    · exact viable_fail ⟨rfl, nofun⟩ (s := [',', ')']) (hsingleton hw hnil)

/-- For `{` and `(` only the second of the two rules counts. -/
theorem viable_bracketed {note : Retry → Id Unit} (hc : p.rest.head? = some c)
    (hopen : isOpening c = true) (hp : p.rest.length ≤ bound + 1) :
    Viable (bracketed note expr) (fun t => ∃ x, Item t x) p := by
  refine .of_bind_ok (peek_of_head hc) (.refl p) ?_
  refine .ite (fun hlist => ?_) fun hlist => .ite (fun hbrace => ?_) fun hbrace => ?_
  · exact viable_list hsound hexpr (hlist ▸ hc) hp
  · exact viable_attempt (viable_dict hsound hexpr (hbrace ▸ hc) hp)
  · have hparen : c = '(' := by simpa [isOpening, hlist, hbrace] using hopen
    exact viable_attempt (viable_tuple hsound hexpr (hparen ▸ hc) hp)

end Compounds

/-! ## 6. Expressions and whole texts -/

theorem viable_enter (limit : Option Int) (depth : Nat) : Viable (enter limit depth) C p := by
  cases limit with
  | none => exact viable_pure ()
  | some n =>
    refine .ite (fun _ => ?_) fun _ => viable_pure ()
    intro e q he hfinal
    obtain ⟨rfl, -⟩ := fail_eq_failed.mp he
    cases hfinal

/-- **An expression can be completed from where it failed.**  The induction is on the number of
characters left; where none is, everything is missing. -/
theorem viable_expression (limit : Option Int) (count depth : Nat) (hp : p.rest.length ≤ count) :
    Viable (Strategy.plain.expression limit count depth) (fun t => ∃ x, Expr t x) p := by
  induction count generalizing depth p with
  | zero =>
    have hnil : p.rest = [] := List.eq_nil_of_length_eq_zero (Nat.le_zero.mp hp)
    exact viable_fail ⟨rfl, fun _ => hnil⟩ ⟨.none, Item.noneLiteral.toExpr⟩
  | succ count ih =>
    refine viable_blanks fun u hu => ?_
    have hitem : ∀ t, (∃ x, Item t x) → ∃ x, Expr (u ++ t) x := by
      rintro t ⟨x, hx⟩
      exact ⟨x, hx.toExpr.blank_append hu⟩
    have hfinish : ∀ (x : Node) (m : Point),
        Viable (do blanks; pure x) (fun _ => False) m := fun x m =>
      viable_blanks fun _ _ => viable_pure x
    refine viable_peek (hitem _ ⟨_, .noneLiteral⟩) fun c hc =>
      .ite (fun hopen => ?_) fun _ => ?_
    · refine Viable.bind ?_ fun _ m hm => ?_
      · exact viable_enter limit (depth + 1)
      · obtain rfl := eq_of_enter hm
        refine ⟨[], .refl _, Viable.bind_left ?_ hfinish⟩
        exact (viable_bracketed (sound_expression limit count (depth + 1))
          (fun q hq => ih (depth + 1) hq) hc hopen ((length_skipBlanks p).trans hp)).mono hitem
    · exact Viable.bind_left ((viable_single hc).mono hitem) hfinish

/-- **What has been read of a text that is refused is the beginning of one that is not.** -/
theorem viable_document (limit : Option Int) :
    Viable (Strategy.plain.document limit) (fun t => ∃ x, Expr t x) p := by
  refine viable_blanks fun u hu => viable_here ?_
  refine .ite (fun _ => ?_) fun _ => ?_
  · exact viable_fail ⟨rfl, nofun⟩ ⟨_, Item.noneLiteral.toExpr.blank_append hu⟩
  refine Viable.bind ((viable_expression limit _ 0 le_rfl).mono ?_) fun x m hx => ?_
  · rintro t ⟨x, hx⟩
    exact ⟨x, hx.blank_append hu⟩
  · obtain ⟨w, hw, hws⟩ := sound_expression _ _ _ hx
    refine ⟨w, hws, viable_ahead (.ite (fun _ => viable_pure _) fun _ => ?_)⟩
    refine viable_fail ⟨rfl, nofun⟩ (s := []) ⟨x, ?_⟩
    rw [List.append_nil]
    exact hw.blank_append hu

end Reader

end Literals
