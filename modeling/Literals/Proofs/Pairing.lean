/-
# Two readers in step

Several facts compare a reader with the plain one, rule by rule and point by point: the reader that
remembers, one with a nesting limit, one that starts further on.  They differ in what they allow
for and agree in how the rules are gone through, so that is done here once.  A `Pairing` is a
comparison that is closed under the few ways in which rules are made; **whatever it is, it passes
from the expressions inside a compound to the compound** (`Compounds`), and so to every expression
and to whole texts (`holds_expression`, `holds_document`).

What a pairing says of a rule it says at one point, together with what is known where the rule
succeeds.  Here that is how many brackets are open (`Inside`).
-/
import Literals.Proofs.Place
import Literals.Proofs.Depth

namespace Literals.Reader

open Grammar Rule

/-! ## 1. Pairings -/

/-- A way to compare a reader that runs in `m` with the plain one. -/
structure Pairing (m : Type → Type) [Monad m] [LawfulMonad m] where
  /-- What the reader in `m` does beside following the rules. -/
  strategy : Strategy m
  /-- It fails as the plain one does where nothing is left. -/
  spare : strategy.spare = fail .endOfInput
  /-- The nesting limit of the reader in `m`. -/
  limit : Option Int
  /-- The nesting limit of the plain reader. -/
  plainLimit : Option Int
  /-- The text that the plain reader reads. -/
  text : List Char
  /-- How much further on the reader in `m` finds the same text. -/
  place : Nat
  /-- The rules do the same at the point, up to what the comparison allows for, and what the plain
  one finds is as required. -/
  Holds {α : Type} : Rule m α → Rule Id α → (α → Point → Prop) → Point → Prop
  /-- Only what the rules do at the point matters. -/
  congr {α : Type} {r t : Rule m α} {r' t' : Rule Id α} {Q : α → Point → Prop} {p : Point} :
    r (p.moved place) = t (p.moved place) → r' p = t' p → Holds t t' Q p → Holds r r' Q p
  /-- What is known of what the plain rule finds may be weakened, given that it finds it. -/
  weaken {α : Type} {r : Rule m α} {r' : Rule Id α} {Q R : α → Point → Prop} {p : Point} :
    Holds r r' Q p → (∀ a q, r' p = .ok a q → Q a q → R a q) → Holds r r' R p
  /-- Rules without effects do the same. -/
  quiet {α : Type} {r : Rule m α} {r' : Rule Id α} {Q : α → Point → Prop} {p : Point} :
    Quiet place r r' p → (∀ a q, r' p = .ok a q → Q a q) → Holds r r' Q p
  bind {α β : Type} {r : Rule m α} {r' : Rule Id α} {k : α → Rule m β} {k' : α → Rule Id β}
      {R : α → Point → Prop} {Q : β → Point → Prop} {p : Point} :
    Holds r r' R p → (∀ a q, R a q → Holds (k a) (k' a) Q q) → Holds (r >>= k) (r' >>= k') Q p
  /-- To note a retry changes nothing. -/
  noted {α : Type} {r : Rule m α} {r' : Rule Id α} {Q : α → Point → Prop} {p : Point}
      (retry : Retry) :
    Holds r r' Q p → Holds (fun q => strategy.note retry >>= fun _ => r q) r' Q p
  /-- A compound is entered where the plain reader's limit allows one bracket more. -/
  enter {depth : Nat} {p : Point} :
    Reached plainLimit text depth p → (∃ c ∈ p.rest.head?, isOpening c = true) →
      Holds (enter limit (depth + 1)) (enter plainLimit (depth + 1))
        (fun _ q => q = p ∧ Allows plainLimit (depth + 1)) p
  /-- The plain rule does not stop before the point. -/
  reaches {α : Type} {r : Rule m α} {r' : Rule Id α} {Q : α → Point → Prop} {p : Point} :
    Holds r r' Q p → Reaches p (Outcome.stop (r' p))

namespace Pairing

variable {m : Type → Type} [Monad m] [LawfulMonad m] (P : Pairing m)

/-- The point is reached inside so many brackets. -/
abbrev Inside (depth : Nat) (p : Point) : Prop :=
  Reached P.plainLimit P.text depth p

variable {α β : Type} {r s : Rule m α} {r' s' : Rule Id α} {k : α → Rule m β} {k' : α → Rule Id β}
  {Q : α → Point → Prop} {R : β → Point → Prop} {p : Point} {c : Char} {depth : Nat}

/-! ## 2. Single characters -/

theorem holds_pure {a : α} (h : Q a p) : P.Holds (pure a) (pure a) Q p := by
  refine P.quiet (quiet_pure a) fun b q hb => ?_
  obtain ⟨rfl, rfl⟩ := pure_eq_ok.mp hb
  exact h

theorem holds_fail (e : Cause) : P.Holds (fail e) (fail e) Q p :=
  P.quiet (quiet_fail e) fun _ _ h => absurd h fail_ne_ok

theorem holds_ite {t : Prop} [Decidable t] (h : t → P.Holds r r' Q p)
    (h' : ¬ t → P.Holds s s' Q p) :
    P.Holds (if t then r else s) (if t then r' else s') Q p := by
  by_cases ht : t
  · rw [if_pos ht, if_pos ht]
    exact h ht
  · rw [if_neg ht, if_neg ht]
    exact h' ht

/-- A quiet rule is left behind. -/
theorem holds_bind_quiet (hr : Quiet P.place r r' p)
    (hk : ∀ a q, r' p = .ok a q → P.Holds (k a) (k' a) R q) :
    P.Holds (r >>= k) (r' >>= k') R p :=
  P.bind (P.quiet hr fun _ _ h => h) hk

theorem holds_next {k : Char → Rule m β} {k' : Char → Rule Id β} (hc : p.rest.head? = some c)
    (hk : ∀ q, Spans p [c] q → P.Holds (k c) (k' c) R q) :
    P.Holds (next >>= k) (next >>= k') R p := by
  refine P.holds_bind_quiet quiet_next fun d q hd => ?_
  have hq : Spans p [c] q := spans_of_head hc hd
  obtain rfl : c = d := by simpa [(next_eq_ok.mp hd).head] using hc.symm
  exact hk q hq

theorem holds_peek {k : Char → Rule m β} {k' : Char → Rule Id β}
    (hk : ∀ c, p.rest.head? = some c → P.Holds (k c) (k' c) R p) :
    P.Holds (peek >>= k) (peek >>= k') R p := by
  refine P.holds_bind_quiet quiet_peek fun c q hq => ?_
  obtain ⟨hhead, rfl⟩ := peek_eq_ok.mp hq
  exact hk c hhead

theorem holds_ahead {k : Option Char → Rule m β} {k' : Option Char → Rule Id β}
    (hk : P.Holds (k p.rest.head?) (k' p.rest.head?) R p) :
    P.Holds (ahead >>= k) (ahead >>= k') R p := by
  refine P.holds_bind_quiet quiet_ahead fun a q h => ?_
  obtain ⟨rfl, rfl⟩ := Outcome.ok.inj (ahead_eq.symm.trans h)
  exact hk

theorem holds_blanks {k : Unit → Rule m β} {k' : Unit → Rule Id β}
    (hk : P.Holds (k ()) (k' ()) R p.skipBlanks) :
    P.Holds (blanks >>= k) (blanks >>= k') R p := by
  refine P.holds_bind_quiet quiet_blanks fun a q h => ?_
  obtain ⟨rfl, rfl⟩ := Outcome.ok.inj (blanks_eq.symm.trans h)
  exact hk

/-- The two readers know the same point under different offsets. -/
theorem holds_here {k : Point → Rule m β} {k' : Point → Rule Id β}
    (hk : P.Holds (k (p.moved P.place)) (k' p) R p) :
    P.Holds (here >>= k) (here >>= k') R p :=
  P.congr (bind_of_pure_ok rfl) (bind_of_ok here_eq) hk

/-- After a rule without effects that never fails finally, the second alternative is what has to be
compared. -/
theorem holds_attempt_lift {trial : Trial} {first : Rule Id Node} {second : Rule m Node}
    {second' : Rule Id Node} {Q : Node → Point → Prop} (hquiet : Quiet P.place first first p)
    (hfinal : NeverFinal first) (hok : ∀ x q, first p = .ok x q → Q x q)
    (h : P.Holds second second' Q p) :
    P.Holds (attempt P.strategy.note trial (Rule.lift first) second)
      (attempt Strategy.plain.note trial first second') Q p := by
  have hmoved : (Rule.lift first : Rule m Node) (p.moved P.place) =
      pure (Outcome.moved P.place (first p)) := hquiet.lift.moved
  cases hp : first p with
  | ok x q =>
    rw [hp] at hmoved
    have hattempt : attempt Strategy.plain.note trial first second' p = .ok x q := attempt_of_ok hp
    refine P.quiet ⟨?_, ?_⟩ fun y m hy => ?_
    · rw [hattempt]
      simp [attempt, hmoved, Outcome.moved]
    · rw [hattempt]
      exact hp ▸ hquiet.reaches
    · exact hok y m (hp.trans (hattempt.symm.trans hy))
  | failed c q =>
    rw [hp] at hmoved
    have hc := hfinal hp
    refine P.congr ?_ (attempt_of_failed hp hc)
      (P.noted ⟨trial, (q.moved P.place).offset, c, (p.moved P.place).offset⟩ h)
    simp [attempt, hmoved, Outcome.moved, hc]

/-! ## 3. Inside brackets -/

variable {expr : Rule m Node} {expr' : Rule Id Node}

variable {P} in
/-- A character without a role is read at the same depth. -/
theorem Inside.next {q : Point} (hp : P.Inside depth p) (hc : Inert c) (hq : Spans p [c] q) :
    P.Inside depth q :=
  hp.climb hq (climbs_of_inert (by simpa using hc))

variable {P} in
/-- Behind an opening bracket one more is open. -/
theorem Inside.enter {q : Point} (hp : P.Inside depth p) (hallow : Allows P.plainLimit (depth + 1))
    (hc : isOpening c = true) (hq : Spans p [c] q) : P.Inside (depth + 1) q :=
  hp.climb hq (climbs_opening hc hallow)

variable {P} in
/-- Behind a closing bracket one less is open. -/
theorem Inside.leave {q : Point} (hp : P.Inside (depth + 1) p) (hc : Scan.isClosing c = true)
    (hq : Spans p [c] q) : P.Inside depth q :=
  hp.climb hq (climbs_closing hc)

/-- What is needed of the expressions inside: they are read in step, and what they read are
expressions; blanks in front of one, if it skips them, are no part of what it does; and it does not
go over a character that ends one. -/
structure Inner (depth : Nat) (expr : Rule m Node) (expr' : Rule Id Node) : Prop where
  holds {p : Point} : P.Inside depth p → P.Holds expr expr' (fun _ => P.Inside depth) p
  sound : Sound expr'
  skipBlanks (p : Point) : expr' p.skipBlanks = expr' p ∨ Outcome.stop (expr' p) = p
  stop {p : Point} : Follows p.rest → Outcome.stop (expr' p) = p

/-- A closing bracket, at the end of a compound. -/
theorem holds_close {x : α} {trailing : Bool} (hc : Scan.isClosing c = true)
    (hp : P.Inside (depth + 1) p) (hQ : ∀ q, P.Inside depth q → Q x q) :
    P.Holds (do close c trailing; pure x) (do close c trailing; pure x) Q p := by
  refine P.holds_bind_quiet (quiet_close c trailing) fun u q hq => P.holds_pure (hQ q ?_)
  have hcomma : c ≠ ',' := by
    rintro rfl
    cases hc
  rcases (close_eq_ok hcomma (isBlank_of_isClosing hc)).mp hq with hq | ⟨-, v, hv, hq⟩
  · exact hp.leave hc hq
  · obtain ⟨a, ha, hq⟩ := hq.uncons
    obtain ⟨b, hb, hq⟩ := hq.split
    have ha : P.Inside (depth + 1) a := hp.next (by decide) ha
    exact Inside.leave (ha.climb hb (climbs_of_blank hv)) hc hq

/-- Where the closing bracket comes after a comma, nothing more is read. -/
theorem more_of_closing {n : Type → Type} [Monad n] [LawfulMonad n] {expr : Rule n Node}
    {closing : Option Char} {a : Point} (ha : Spans p [','] a)
    (h : closing.isSome ∧ a.skipBlanks.rest.head? = closing) (count : Nat) :
    more expr closing (count + 1) p = pure (.ok [] p) := by
  have hnext : (next : Rule n Char) p = pure (.ok ',' a) := congrArg pure (next_eq_ok.mpr ha)
  rw [more, bind_of_pure_ok (q := p) (a := some ',') (congrArg pure (by rw [← ha.head])),
    if_pos rfl, bind_of_pure_ok (q := p) (a := p) rfl, bind_of_pure_ok hnext,
    bind_of_pure_ok (q := a.skipBlanks) (a := ()) rfl,
    bind_of_pure_ok (q := a.skipBlanks) (a := a.skipBlanks.rest.head?) rfl, if_pos h,
    bind_of_pure_ok (q := p) (a := ()) rfl]
  rfl

theorem holds_more (h : P.Inner depth expr expr') (closing : Option Char) (count : Nat)
    (hp : P.Inside depth p) :
    P.Holds (more expr closing count) (more expr' closing count) (fun _ => P.Inside depth) p := by
  induction count generalizing p with
  | zero => exact P.holds_pure hp
  | succ count ih =>
    by_cases hcomma : p.rest.head? = some ','
    · obtain ⟨a, ha⟩ := exists_spans_of_head hcomma
      by_cases hclose : closing.isSome ∧ a.skipBlanks.rest.head? = closing
      · have hright : more expr' closing (count + 1) p = Outcome.ok [] p :=
          more_of_closing ha hclose count
        have hclose' : closing.isSome ∧ (a.moved P.place).skipBlanks.rest.head? = closing := by
          rwa [Point.skipBlanks_moved]
        refine P.quiet ⟨?_, ?_⟩ fun xs q hq => ?_
        · rw [more_of_closing (ha.moved P.place) hclose', hright]
          rfl
        · rw [hright]
          exact .refl p
        · obtain ⟨rfl, rfl⟩ := Outcome.ok.inj (hright.symm.trans hq)
          exact hp
      · refine P.holds_ahead ?_
        rw [if_pos hcomma, if_pos hcomma]
        refine P.holds_here (P.holds_next hcomma fun q hq => P.holds_blanks (P.holds_ahead ?_))
        obtain rfl := ha.right_unique hq
        rw [if_neg hclose, if_neg hclose]
        have ha : P.Inside depth a.skipBlanks := (Inside.next hp (by decide) ha).skipBlanks
        exact P.bind (h.holds ha) fun x a hx => P.bind (ih hx) fun xs b hxs => P.holds_pure hxs
    · refine P.holds_ahead ?_
      rw [if_neg hcomma, if_neg hcomma]
      exact P.holds_pure hp

theorem holds_elements (h : P.Inner depth expr expr') (closing : Option Char)
    (hp : P.Inside depth p) :
    P.Holds (elements expr closing) (elements expr' closing) (fun _ => P.Inside depth) p := by
  refine P.bind (h.holds hp) fun x a hx => P.holds_here ?_
  exact P.bind (P.holds_more h closing _ hx) fun xs b hxs => P.holds_pure hxs

/-- What is read of an entry after its key. -/
def afterKey {n : Type → Type} [Monad n] (expr : Rule n Node) (key : Node) :
    Rule n (Node × Node) := do
  if (← Rule.ahead) = some ':' then
    let _ ← Rule.next
    let value ← expr
    pure (key, value)
  else Rule.fail .expectedColon

/-- What is read of a dictionary after its first entry. -/
def afterEntry {n : Type → Type} [Monad n] (expr : Rule n Node) (e : Node × Node) :
    Rule n Node := do
  let p ← Rule.here
  let es ← moreEntries expr p.rest.length
  close '}' false
  pure (.dict (e :: es))

/-- What is read of a dictionary behind its bracket and the blanks after it. -/
def dictBody {n : Type → Type} [Monad n] (expr : Rule n Node) : Rule n Node := do
  if (← Rule.peek) = '}' then
    let _ ← Rule.next
    pure (.dict [])
  else
    let e ← entry expr
    afterEntry expr e

theorem holds_afterKey (h : P.Inner depth expr expr') (hp : P.Inside depth p) (key : Node) :
    P.Holds (afterKey expr key) (afterKey expr' key) (fun _ => P.Inside depth) p := by
  refine P.holds_ahead (P.holds_ite (fun hcolon => ?_) fun _ => P.holds_fail _)
  refine P.holds_next hcolon fun q hq => ?_
  exact P.bind (h.holds (Inside.next hp (by decide) hq)) fun x a hx => P.holds_pure hx

theorem holds_entry (h : P.Inner depth expr expr') (hp : P.Inside depth p) :
    P.Holds (entry expr) (entry expr') (fun _ => P.Inside depth) p :=
  P.bind (h.holds hp) fun key _ hkey => P.holds_afterKey h hkey key

theorem holds_moreEntries (h : P.Inner depth expr expr') (count : Nat) (hp : P.Inside depth p) :
    P.Holds (moreEntries expr count) (moreEntries expr' count) (fun _ => P.Inside depth) p := by
  induction count generalizing p with
  | zero => exact P.holds_pure hp
  | succ count ih =>
    refine P.holds_ahead (P.holds_ite (fun hcomma => ?_) fun _ => P.holds_pure hp)
    refine P.holds_next hcomma fun q hq => ?_
    refine P.bind (P.holds_entry h (Inside.next hp (by decide) hq)) fun e a he => ?_
    exact P.bind (ih he) fun es b hes => P.holds_pure hes

theorem holds_afterEntry (h : P.Inner (depth + 1) expr expr') (hp : P.Inside (depth + 1) p)
    (e : Node × Node) :
    P.Holds (afterEntry expr e) (afterEntry expr' e) (fun _ => P.Inside depth) p := by
  refine P.holds_here (P.bind (P.holds_moreEntries h _ hp) fun es q hes => ?_)
  exact P.holds_close rfl hes fun _ h => h

theorem holds_dictBody (h : P.Inner (depth + 1) expr expr') (hp : P.Inside (depth + 1) p) :
    P.Holds (dictBody expr) (dictBody expr') (fun _ => P.Inside depth) p := by
  refine P.holds_peek fun c hc => P.holds_ite (fun hclose => ?_) fun _ => ?_
  · exact P.holds_next (hclose ▸ hc) fun a ha => P.holds_pure (Inside.leave hp rfl ha)
  · exact P.bind (P.holds_entry h hp) fun e a ha => P.holds_afterEntry h ha e

/-! ## 4. Compounds -/

/-- The rules hold, and the plain one stops behind the first character. -/
def Opens (r : Rule m α) (r' : Rule Id α) (Q : α → Point → Prop) (p : Point) : Prop :=
  P.Holds r r' Q p ∧ ∃ c w, Spans p (c :: w) (Outcome.stop (r' p))

/-- Behind its opening bracket, a compound is read inside one bracket more. -/
theorem opens_next {k : Char → Rule m α} {k' : Char → Rule Id α} (hp : P.Inside depth p)
    (hallow : Allows P.plainLimit (depth + 1)) (hc : p.rest.head? = some c)
    (hopen : isOpening c = true)
    (hk : ∀ q, P.Inside (depth + 1) q → P.Holds (k c) (k' c) Q q) :
    P.Opens (next >>= k) (next >>= k') Q p := by
  have hholds : ∀ q, Spans p [c] q → P.Holds (k c) (k' c) Q q :=
    fun q hq => hk q (Inside.enter hp hallow hopen hq)
  refine ⟨P.holds_next hc hholds, ?_⟩
  obtain ⟨q, hq⟩ := exists_spans_of_head hc
  obtain ⟨w, hw⟩ := P.reaches (hholds _ hq)
  rw [bind_of_ok (next_eq_ok.mpr hq)]
  exact ⟨c, w, hq.cons hw⟩

theorem opens_list (h : P.Inner (depth + 1) expr expr') (hp : P.Inside depth p)
    (hallow : Allows P.plainLimit (depth + 1)) (hhead : p.rest.head? = some '[') :
    P.Opens (list expr) (list expr') (fun _ => P.Inside depth) p := by
  refine P.opens_next hp hallow hhead rfl fun q hq => P.holds_blanks (P.holds_peek fun c hc => ?_)
  refine P.holds_ite (fun hclose => ?_) fun _ => ?_
  · exact P.holds_next (hclose ▸ hc) fun a ha =>
      P.holds_pure (Inside.leave hq.skipBlanks rfl ha)
  · refine P.bind (P.holds_elements h none hq.skipBlanks) fun xs a ha => ?_
    exact P.holds_close rfl ha fun _ h => h

theorem opens_set (h : P.Inner (depth + 1) expr expr') (hp : P.Inside depth p)
    (hallow : Allows P.plainLimit (depth + 1)) (hhead : p.rest.head? = some '{') :
    P.Opens (set expr) (set expr') (fun _ => P.Inside depth) p := by
  refine P.opens_next hp hallow hhead rfl fun q hq => ?_
  refine P.bind (P.holds_elements h none hq) fun xs a ha => ?_
  exact P.holds_close rfl ha fun _ h => h

theorem opens_dict (h : P.Inner (depth + 1) expr expr') (hp : P.Inside depth p)
    (hallow : Allows P.plainLimit (depth + 1)) (hhead : p.rest.head? = some '{') :
    P.Opens (dict expr) (dict expr') (fun _ => P.Inside depth) p :=
  P.opens_next hp hallow hhead rfl fun _ hq =>
    P.holds_blanks (P.holds_dictBody h hq.skipBlanks)

theorem opens_tuple (h : P.Inner (depth + 1) expr expr') (hp : P.Inside depth p)
    (hallow : Allows P.plainLimit (depth + 1)) (hhead : p.rest.head? = some '(') :
    P.Opens (tuple expr) (tuple expr') (fun _ => P.Inside depth) p := by
  refine P.opens_next hp hallow hhead rfl fun q hq => P.holds_blanks (P.holds_peek fun c hc => ?_)
  refine P.holds_ite (fun hclose => ?_) fun _ => ?_
  · exact P.holds_next (hclose ▸ hc) fun a ha =>
      P.holds_pure (Inside.leave hq.skipBlanks rfl ha)
  refine P.bind (h.holds hq.skipBlanks) fun x a ha => P.holds_ahead ?_
  cases hcomma : a.rest.head? with
  | none => exact P.holds_fail _
  | some d =>
    refine P.holds_ite (fun hd => ?_) fun _ => P.holds_fail _
    refine P.holds_next (hd ▸ hcomma) fun b hb => P.holds_blanks (P.holds_ahead ?_)
    have hb : P.Inside (depth + 1) b.skipBlanks := (Inside.next ha (by decide) hb).skipBlanks
    refine P.holds_ite (fun hclose => ?_) fun _ => ?_
    · exact P.holds_next hclose fun e he => P.holds_pure (Inside.leave hb rfl he)
    · refine P.bind (P.holds_elements h (some ')') hb) fun xs e he => ?_
      exact P.holds_close rfl he fun _ h => h

/-- After a character that is only looked at. -/
theorem opens_peek {k : Char → Rule m α} {k' : Char → Rule Id α} (hc : p.rest.head? = some c)
    (h : P.Opens (k c) (k' c) Q p) : P.Opens (peek >>= k) (peek >>= k') Q p := by
  refine ⟨P.holds_peek fun d hd => ?_, ?_⟩
  · obtain rfl : c = d := Option.some.inj (hc.symm.trans hd)
    exact h.1
  · rw [bind_of_ok (peek_of_head hc)]
    exact h.2

/-- An alternative stops where one of the two rules does. -/
theorem stop_attempt {trial : Trial} {first second : Rule Id Node} {T : Point → Prop}
    (h : T (Outcome.stop (first p))) (h' : T (Outcome.stop (second p))) :
    T (Outcome.stop ((attempt Strategy.plain.note trial first second : Rule Id Node) p)) := by
  cases hp : first p with
  | ok x q =>
    rw [hp] at h
    rwa [attempt_of_ok hp]
  | failed e q =>
    rw [hp] at h
    cases he : e.isFinal with
    | true => rwa [attempt_of_final hp he]
    | false => rwa [attempt_of_failed hp he]

/-- What a comparison has to show by itself: how it stands with the two rules for `{`, and with
a compound that the reader may know already.  The number of characters left and the number of
open brackets make the same total everywhere. -/
structure Compounds (total : Nat) : Prop where
  brace {depth : Nat} {p : Point} {expr : Rule m Node} {expr' : Rule Id Node} :
    P.Inner (depth + 1) expr expr' → P.Inside depth p → Allows P.plainLimit (depth + 1) →
      p.rest.head? = some '{' →
        P.Holds (attempt P.strategy.note .set (set expr) (dict expr))
          (attempt Strategy.plain.note .set (set expr') (dict expr')) (fun _ => P.Inside depth) p
  compound {depth count : Nat} {p : Point} {r : Rule m Node} {Q : Node → Point → Prop} :
    count + (depth + 1) = total → P.Inside depth p →
      P.Opens r (bracketed Strategy.plain.note
        (Strategy.plain.expression P.plainLimit count (depth + 1))) Q p →
        P.Holds (P.strategy.compound r) (bracketed Strategy.plain.note
          (Strategy.plain.expression P.plainLimit count (depth + 1))) Q p

variable {P} {total : Nat}

/-- **A compound is read in step** when the expressions inside are. -/
theorem opens_bracketed (hP : P.Compounds total) (h : P.Inner (depth + 1) expr expr')
    (hp : P.Inside depth p) (hallow : Allows P.plainLimit (depth + 1)) (hc : p.rest.head? = some c)
    (hopen : isOpening c = true) :
    P.Opens (bracketed P.strategy.note expr) (bracketed Strategy.plain.note expr')
      (fun _ => P.Inside depth) p := by
  refine P.opens_peek hc ?_
  by_cases hlist : c = '['
  · rw [if_pos hlist, if_pos hlist]
    exact P.opens_list h hp hallow (hlist ▸ hc)
  rw [if_neg hlist, if_neg hlist]
  by_cases hbrace : c = '{'
  · rw [if_pos hbrace, if_pos hbrace]
    have hhead : p.rest.head? = some '{' := hbrace ▸ hc
    exact ⟨hP.brace h hp hallow hhead,
      stop_attempt (T := fun q => ∃ c w, Spans p (c :: w) q) (P.opens_set h hp hallow hhead).2
        (P.opens_dict h hp hallow hhead).2⟩
  rw [if_neg hbrace, if_neg hbrace]
  obtain rfl : c = '(' := by simpa [isOpening, hlist, hbrace] using hopen
  obtain ⟨hholds, hstop⟩ := P.opens_tuple h hp hallow hc
  refine ⟨P.holds_attempt_lift quiet_complex neverFinal_complex (fun x q hx => ?_) hholds, ?_⟩
  · rcases complex_eq_ok.mp hx with ⟨x, hwf, hspan, rfl⟩ | ⟨x, y, hwf, hwf', -, hspan, rfl⟩
    · exact hp.climb hspan (climbs_imaginary hwf)
    · exact hp.climb hspan (climbs_complex hwf hwf' hallow)
  · change ∃ c w, Spans p (c :: w)
      (Outcome.stop ((attempt Strategy.plain.note .complex complex (tuple expr') : Rule Id Node) p))
    cases hcomplex : complex p with
    | ok x q =>
      obtain ⟨w, hw, hspan⟩ := item_of_complex hcomplex
      obtain ⟨c, t, rfl, -⟩ := hw.exists_head
      rw [attempt_of_ok hcomplex]
      exact ⟨c, t, hspan⟩
    | failed e q =>
      rw [attempt_of_failed hcomplex (neverFinal_complex hcomplex)]
      exact hstop

/-! ## 5. Expressions and whole texts -/

variable (P) in
theorem holds_single (hp : P.Inside depth p) (hc : p.rest.head? = some c)
    (hclosed : isOpening c = false) :
    P.Holds (single P.strategy.note) (single Strategy.plain.note) (fun _ => P.Inside depth) p := by
  have h : P.Holds (single P.strategy.note) (single Strategy.plain.note) (fun _ _ => True) p := by
    refine P.holds_peek fun c _ => ?_
    refine P.holds_ite (fun _ => P.quiet quiet_noneLiteral.lift fun _ _ _ => trivial) fun _ => ?_
    refine P.holds_ite (fun _ => P.quiet quiet_bool.lift fun _ _ _ => trivial) fun _ => ?_
    refine P.holds_ite (fun _ => P.quiet quiet_string.lift fun _ _ _ => trivial) fun _ => ?_
    refine P.holds_attempt_lift quiet_complex neverFinal_complex (fun _ _ _ => trivial) ?_
    refine P.holds_attempt_lift quiet_float neverFinal_float (fun _ _ _ => trivial) ?_
    exact P.quiet quiet_integer.lift fun _ _ _ => trivial
  refine P.weaken h fun x q hx _ => ?_
  obtain ⟨w, hw, hspan⟩ := item_of_single hx
  refine hp.climb hspan (climbs_of_item hw fun d hd => ?_)
  obtain ⟨c', t, rfl, -⟩ := hw.exists_head
  have hd : c' = d := by simpa using hd
  obtain rfl : c = c' := Option.some.inj (hc.symm.trans hspan.head)
  exact hd ▸ hclosed

theorem isOpening_of_isStop (h : isStop c = true) : isOpening c = false := by
  simp only [isStop, Bool.or_eq_true, beq_iff_eq] at h
  rcases h with (((rfl | rfl) | rfl) | rfl) | rfl <;> rfl

theorem peek_of_nil (h : p.rest = []) : (peek : Rule Id Char) p = .failed .endOfInput p := by
  obtain ⟨o, s⟩ := p
  obtain rfl : s = [] := h
  rfl

/-- Where no literal can start, a literal without parts fails at once. -/
theorem single_of_isStop (hc : p.rest.head? = some c) (hstop : isStop c = true) :
    single Strategy.plain.note p = .failed .noInteger p := by
  obtain ⟨o, s⟩ := p
  obtain ⟨t, rfl⟩ := List.head?_eq_some_iff.mp hc
  simp only [isStop, Bool.or_eq_true, beq_iff_eq] at hstop
  rcases hstop with (((rfl | rfl) | rfl) | rfl) | rfl <;> rfl

/-- The expressions inside brackets are as is needed, once they are read in step. -/
theorem inner_expression {count : Nat}
    (h : ∀ {p}, P.Inside depth p → P.Holds expr
      (Strategy.plain.expression P.plainLimit count depth) (fun _ => P.Inside depth) p) :
    P.Inner depth expr (Strategy.plain.expression P.plainLimit count depth) := by
  refine ⟨h, sound_expression _ _ _, fun p => ?_, fun {p} hfollows => ?_⟩
  · cases count with
    | zero => exact Or.inr rfl
    | succ count =>
      refine Or.inl ?_
      rw [Strategy.expression, bind_of_ok blanks_eq, bind_of_ok blanks_eq,
        Point.skipBlanks_skipBlanks]
  · cases count with
    | zero => rfl
    | succ count =>
      have hskip : p.skipBlanks = p :=
        skipBlanks_of_head fun c hc => isBlank_of_isStop (hfollows c hc)
      rw [Strategy.expression, bind_of_ok blanks_eq, hskip]
      cases hc : p.rest.head? with
      | none => rw [bind_of_failed (peek_of_nil (List.head?_eq_none_iff.mp hc))]; rfl
      | some c =>
        have hstop : isStop c = true := hfollows c hc
        have hclosed : isOpening c = false := isOpening_of_isStop hstop
        rw [bind_of_ok (peek_of_head hc), if_neg (by simp [hclosed]),
          bind_of_failed (single_of_isStop hc hstop)]
        rfl

/-- **One expression, in step.**  The induction is on the number of characters left. -/
theorem holds_expression (hP : P.Compounds total) (count : Nat) (hcount : count + depth = total)
    (hp : P.Inside depth p) :
    P.Holds (P.strategy.expression P.limit count depth)
      (Strategy.plain.expression P.plainLimit count depth) (fun _ => P.Inside depth) p := by
  induction count generalizing depth p with
  | zero =>
    rw [Strategy.expression, P.spare]
    exact P.holds_fail _
  | succ count ih =>
    have hp := hp.skipBlanks
    refine P.holds_blanks (P.holds_peek fun c hc => P.holds_ite (fun hopen => ?_) fun hclosed => ?_)
    · refine P.bind (P.enter hp ⟨c, hc, hopen⟩) fun _ q hq => ?_
      obtain ⟨rfl, hallow⟩ := hq
      have hinner : P.Inner (depth + 1) (P.strategy.expression P.limit count (depth + 1)) _ :=
        inner_expression fun hq => ih (by omega) hq
      refine P.bind (hP.compound (by omega) hp (opens_bracketed hP hinner hp hallow hc hopen))
        fun x q hq => ?_
      exact P.holds_blanks (P.holds_pure hq.skipBlanks)
    · refine P.bind (P.holds_single hp hc (by simpa using hclosed)) fun x q hq => ?_
      exact P.holds_blanks (P.holds_pure hq.skipBlanks)

/-- **A whole text, in step.** -/
theorem holds_document (hP : P.Compounds (Point.start P.text).skipBlanks.rest.length) :
    P.Holds (P.strategy.document P.limit) (Strategy.plain.document P.plainLimit)
      (fun _ q => P.Inside 0 q ∧ q.rest = []) (.start P.text) := by
  refine P.holds_blanks (P.holds_here (P.holds_ite (fun _ => P.holds_fail _) fun _ => ?_))
  refine P.bind (holds_expression hP _ rfl reached_start.skipBlanks) fun x q hq => P.holds_ahead ?_
  refine P.holds_ite (fun hend => P.holds_pure ⟨hq, ?_⟩) fun _ => P.holds_fail _
  exact List.head?_eq_none_iff.mp hend

end Pairing

end Literals.Reader
