/-
# The reader that keeps account does the same

Rule by rule, the reader that keeps account does what the one that only remembers does.  The
induction is on the number of characters left.  The two may be given different numbers, and the
loops inside different numbers of rounds: **whatever is enough for the text that is left gives the
same**, so that nothing ever ends because a number is used up.

From readings it passes to sessions (`Follows`): one with an account stands where the one without
stands, and knows the same.  With nothing open between two readings, whatever was open at a moment
was opened by the reading that went on then.
-/
import Literals.Proofs.Accounting

namespace Literals.Reader

open Grammar Rule

/-! ## 1. Loops -/

section Loops

variable {m : Type → Type} [Monad m] {β : Type}

/-- A loop by the number of its rounds.  Where no comma comes next, it ends.  Before one it ends as
well, if it `halts` at what comes behind; else it reads one more there, from where it wants to `go`
on. -/
structure Loops (halts : Point → Prop) (go : Point → Point) (body : Rule m β)
    (loop : Nat → Rule m (List β)) : Prop where
  stop {p : Point} (count : Nat) : p.rest.head? ≠ some ',' → loop count p = pure (.ok [] p)
  halt {p a : Point} (count : Nat) : Spans p [','] a → halts a →
    loop (count + 1) p = pure (.ok [] p)
  round {p a : Point} (count : Nat) : Spans p [','] a → ¬ halts a →
    loop (count + 1) p = (do
      let x ← body
      let xs ← loop count
      pure (x :: xs) : Rule m (List β)) (go a)

theorem ahead_of_comma {p a : Point} (ha : Spans p [','] a) :
    (ahead : Rule m (Option Char)) p = pure (.ok (some ',') p) :=
  congrArg (fun c => pure (Outcome.ok c p)) ha.head

variable [LawfulMonad m]

/-- The elements of a list, up to a comma with the closing bracket behind it. -/
theorem loops_more (expr : Rule m Node) (closing : Option Char) :
    Loops (fun a => closing.isSome ∧ a.skipBlanks.rest.head? = closing) Point.skipBlanks expr
      (more expr closing) where
  stop count hp := more_of_not_comma hp count
  halt count ha h := Pairing.more_of_closing ha h count
  round {p a} count ha h := by
    have hnext : (next : Rule m Char) p = pure (.ok ',' a) := congrArg pure (next_eq_ok.mpr ha)
    rw [more, bind_of_pure_ok (ahead_of_comma ha), if_pos rfl,
      bind_of_pure_ok (q := p) (a := p) rfl, bind_of_pure_ok hnext,
      bind_of_pure_ok (q := a.skipBlanks) (a := ()) rfl,
      bind_of_pure_ok (q := a.skipBlanks) (a := a.skipBlanks.rest.head?) rfl, if_neg h]

/-- The entries of a dictionary. -/
theorem loops_moreEntries (expr : Rule m Node) :
    Loops (fun _ => False) id (entry expr) (moreEntries expr) where
  stop {p} count hp := by
    cases count with
    | zero => rfl
    | succ count =>
      rw [moreEntries, bind_of_pure_ok (q := p) (a := p.rest.head?) rfl, if_neg hp]
      rfl
  halt _ _ h := h.elim
  round {p a} count ha _ := by
    have hnext : (next : Rule m Char) p = pure (.ok ',' a) := congrArg pure (next_eq_ok.mpr ha)
    rw [moreEntries, bind_of_pure_ok (ahead_of_comma ha), if_pos rfl, bind_of_pure_ok hnext]
    rfl

end Loops

/-- A point of the text, not before the offset. -/
structure Since (text : List Char) (low : Nat) (p : Point) : Prop where
  reaches : Reaches (.start text) p
  le : low ≤ p.offset

theorem Since.trans {text : List Char} {low : Nat} {p q : Point} (h : Since text low p)
    (hq : Reaches p q) : Since text low q :=
  ⟨h.reaches.trans hq, h.le.trans hq.offset_le⟩

/-- The further on, the less is left. -/
theorem Since.length_lt {text : List Char} {low : Nat} {p q : Point} (hp : Since text low p)
    (hq : Since text low q) (h : p.offset < q.offset) : q.rest.length < p.rest.length := by
  have := hp.reaches.length
  have := hq.reaches.length
  omega

/-- **However many rounds more than enough a loop may make, it makes the same.**  The induction is
on the characters left: a round begins at a comma, and the next one behind what it has read. -/
theorem accounts_loop {β : Type} {text : List Char} {depth low : Nat} {p : Point}
    {halts : Point → Prop} {go : Point → Point} {body : Rule (StateM Account) β}
    {body₀ : Rule (StateM Memory) β} {loop : Nat → Rule (StateM Account) (List β)}
    {loop₀ : Nat → Rule (StateM Memory) (List β)} (hloop : Loops halts go body loop)
    (hloop₀ : Loops halts go body₀ loop₀) (hgo : ∀ a, Reaches a (go a))
    (hbody : ∀ ⦃q⦄, Since text low q → Accounts text depth low body body₀ (Beyond q) q)
    {count count₀ : Nat} (hp : Since text low p) (hcount : p.rest.length ≤ count)
    (hcount₀ : p.rest.length ≤ count₀) :
    Accounts text depth low (loop count) (loop₀ count₀) (fun _ _ => True) p := by
  have hend (p : Point) :
      Accounts text depth low (pure ([] : List β)) (pure []) (fun _ _ => True) p :=
    accounts_pure trivial
  induction hn : p.rest.length using Nat.strong_induction_on generalizing p count count₀ with
  | _ n ih =>
    by_cases hcomma : p.rest.head? = some ','
    · obtain ⟨a, ha⟩ := exists_spans_of_head hcomma
      have hlength : p.rest.length = 1 + a.rest.length := ha.length_rest
      obtain ⟨count, rfl⟩ : ∃ k, count = k + 1 := ⟨count - 1, by omega⟩
      obtain ⟨count₀, rfl⟩ : ∃ k, count₀ = k + 1 := ⟨count₀ - 1, by omega⟩
      by_cases hhalts : halts a
      · exact (hend p).congr (hloop.halt count ha hhalts) (hloop₀.halt count₀ ha hhalts) (.refl p)
      · have hb : Reaches p (go a) := ha.reaches.trans (hgo a)
        refine Accounts.congr ?_ (hloop.round count ha hhalts) (hloop₀.round count₀ ha hhalts) hb
        refine (hbody (hp.trans hb)).bind fun x q hq hbeyond => ?_
        have hq : Since text low q := (hp.trans hb).trans hq
        have hshort : q.rest.length < p.rest.length :=
          hp.length_lt hq (hb.offset_le.trans_lt hbeyond)
        refine (ih _ (hn ▸ hshort) hq (by omega) (by omega) rfl).bind fun xs _ _ _ => ?_
        exact accounts_pure trivial
    · exact (hend p).congr (hloop.stop count hcomma) (hloop₀.stop count₀ hcomma) (.refl p)

section Rules

variable {text : List Char} {depth low : Nat} {a p q : Point} {expr : Rule (StateM Account) Node}
  {expr₀ : Rule (StateM Memory) Node}

/-- What is needed of the expressions inside a rule. -/
def Nested (text : List Char) (depth low : Nat) (expr : Rule (StateM Account) Node)
    (expr₀ : Rule (StateM Memory) Node) : Prop :=
  ∀ ⦃q⦄, Since text low q → Accounts text depth low expr expr₀ (Beyond q) q

theorem accounts_more (h : Nested text depth low expr expr₀) (closing : Option Char)
    {count count₀ : Nat} (hp : Since text low p) (hcount : p.rest.length ≤ count)
    (hcount₀ : p.rest.length ≤ count₀) :
    Accounts text depth low (more expr closing count) (more expr₀ closing count₀)
      (fun _ _ => True) p :=
  accounts_loop (loops_more expr closing) (loops_more expr₀ closing) reaches_skipBlanks h hp hcount
    hcount₀

/-! ## 2. Parts of compounds -/

theorem accounts_elements (h : Nested text depth low expr expr₀) (closing : Option Char)
    (hp : Since text low p) :
    Accounts text depth low (elements expr closing) (elements expr₀ closing) (Beyond p) p := by
  refine (h hp).bind fun x q hq hbeyond => accounts_here ?_
  refine Accounts.beyond (R := fun _ _ => True) ?_ hbeyond
  exact (accounts_more h closing (hp.trans hq) le_rfl le_rfl).bind fun xs _ _ _ =>
    accounts_pure trivial

theorem accounts_entry (h : Nested text depth low expr expr₀) (hp : Since text low p) :
    Accounts text depth low (entry expr) (entry expr₀) (Beyond p) p := by
  refine (h hp).bind fun key q hq hbeyond => Accounts.beyond (R := fun _ _ => True) ?_ hbeyond
  refine accounts_ahead.bind fun c a ha _ => .ite (fun _ => ?_) fun _ => accounts_fail _
  refine accounts_next.bind fun _ b hb _ => ?_
  exact (h (((hp.trans hq).trans ha).trans hb)).bind fun value _ _ _ => accounts_pure trivial

theorem accounts_moreEntries (h : Nested text depth low expr expr₀) {count count₀ : Nat}
    (hp : Since text low p) (hcount : p.rest.length ≤ count) (hcount₀ : p.rest.length ≤ count₀) :
    Accounts text depth low (moreEntries expr count) (moreEntries expr₀ count₀)
      (fun _ _ => True) p :=
  accounts_loop (loops_moreEntries expr) (loops_moreEntries expr₀) .refl
    (fun _ hq => accounts_entry h hq) hp hcount hcount₀

theorem accounts_close (c : Char) (trailing : Bool) :
    Accounts text depth low (close c trailing) (close c trailing) (Beyond p) p := by
  refine accounts_ahead.bind fun d q _ hd => ?_
  obtain ⟨-, rfl⟩ := hd
  cases d with
  | none => exact accounts_fail _
  | some d =>
    refine accounts_next.bind fun _ a _ ha => Accounts.beyond (R := fun _ _ => True) ?_ ha
    have hend {t : Prop} [Decidable t] {a : Point} : Accounts text depth low
        (if t then pure () else fail (.expectedClose c))
        (if t then pure () else fail (.expectedClose c)) (fun _ _ => True) a :=
      .ite (fun _ => accounts_pure trivial) fun _ => accounts_fail _
    refine .ite (fun _ => accounts_blanks.bind fun _ _ _ _ => ?_) fun _ => hend
    refine accounts_ahead.bind fun e b _ _ => ?_
    cases e with
    | none => exact accounts_fail _
    | some e => exact accounts_next.bind fun _ _ _ _ => hend

/-- A closing bracket, at the end of a compound. -/
theorem accounts_end (c : Char) (trailing : Bool) (x : Node) :
    Accounts text depth low (do close c trailing; pure x) (do close c trailing; pure x)
      (fun _ _ => True) p :=
  (accounts_close c trailing).bind fun _ _ _ _ => accounts_pure trivial

/-- The first character of a compound, and what is behind it. -/
theorem accounts_behind {k : Char → Rule (StateM Account) Node}
    {k₀ : Char → Rule (StateM Memory) Node} (hp : Reaches (.start text) p)
    (hlow : low ≤ p.offset + 1)
    (hk : ∀ c a, Since text low a → Accounts text depth low (k c) (k₀ c) (fun _ _ => True) a) :
    Accounts text depth low (next >>= k) (next >>= k₀) (Beyond p) p :=
  accounts_next.bind fun c a ha hbeyond =>
    (hk c a ⟨hp.trans ha, hlow.trans hbeyond⟩).beyond hbeyond

/-- Blanks may follow the bracket, and then either the closing one or what is inside. -/
theorem accounts_inside {d : Char} {empty : Node} {k : Rule (StateM Account) Node}
    {k₀ : Rule (StateM Memory) Node} (hp : Since text low p)
    (hk : ∀ q, Since text low q → Accounts text depth low k k₀ (fun _ _ => True) q) :
    Accounts text depth low
      (do
        Rule.blanks
        if (← Rule.peek) = d then
          let _ ← Rule.next
          pure empty
        else k)
      (do
        Rule.blanks
        if (← Rule.peek) = d then
          let _ ← Rule.next
          pure empty
        else k₀) (fun _ _ => True) p := by
  refine accounts_blanks.bind fun _ a ha _ => accounts_peek.bind fun c b hb _ => ?_
  refine .ite (fun _ => ?_) fun _ => hk b ((hp.trans ha).trans hb)
  exact accounts_next.bind fun _ _ _ _ => accounts_pure trivial

/-! ## 3. Compounds and expressions -/

section Compounds

variable (h : Nested text depth low expr expr₀) (hp : Reaches (.start text) p)
  (hlow : low ≤ p.offset + 1)
include h hp hlow

theorem accounts_list : Accounts text depth low (list expr) (list expr₀) (Beyond p) p :=
  accounts_behind hp hlow fun _ _ ha => accounts_inside ha fun _ hb =>
    (accounts_elements h none hb).bind fun _ _ _ _ => accounts_end _ _ _

theorem accounts_set : Accounts text depth low (set expr) (set expr₀) (Beyond p) p :=
  accounts_behind hp hlow fun _ _ ha =>
    (accounts_elements h none ha).bind fun _ _ _ _ => accounts_end _ _ _

theorem accounts_dict : Accounts text depth low (dict expr) (dict expr₀) (Beyond p) p :=
  accounts_behind hp hlow fun _ _ ha => accounts_inside ha fun _ hb =>
    (accounts_entry h hb).bind fun _ _ hq _ => accounts_here <|
      (accounts_moreEntries h (hb.trans hq) le_rfl le_rfl).bind fun _ _ _ _ => accounts_end _ _ _

theorem accounts_tuple : Accounts text depth low (tuple expr) (tuple expr₀) (Beyond p) p := by
  refine accounts_behind hp hlow fun _ _ ha => accounts_inside ha fun _ hb => ?_
  refine (h hb).bind fun x q hq _ => accounts_ahead.bind fun d a ha _ => ?_
  have ha : Since text low a := (hb.trans hq).trans ha
  cases d with
  | none => exact accounts_fail _
  | some d =>
    refine .ite (fun _ => ?_) fun _ => accounts_fail _
    refine accounts_next.bind fun _ b hb _ => accounts_blanks.bind fun _ c hc _ => ?_
    refine accounts_ahead.bind fun _ e he _ => .ite (fun _ => ?_) fun _ => ?_
    · exact accounts_next.bind fun _ _ _ _ => accounts_pure trivial
    · have he : Since text low e := ((ha.trans hb).trans hc).trans he
      exact (accounts_elements h _ he).bind fun _ _ _ _ => accounts_end _ _ _

/-- **A compound does the same** when the expressions behind its bracket do. -/
theorem accounts_bracketed : Accounts text depth low (bracketed Account.note expr)
    (bracketed Strategy.remembering.note expr₀) (Beyond p) p := by
  refine accounts_peek.bind fun c q _ hc => ?_
  obtain ⟨-, rfl⟩ := hc
  refine .ite (fun _ => accounts_list h hp hlow) fun _ => .ite (fun _ => ?_) fun _ => ?_
  · exact (accounts_set h hp hlow).attempt (accounts_dict h hp hlow)
  · exact (accounts_lift quiet_complex advances_complex).attempt (accounts_tuple h hp hlow)

end Compounds

/-- A number: a complex one, one with a point, or an integer. -/
theorem accounts_number : Accounts text depth low
    (attempt Account.note .complex (Rule.lift complex)
      (attempt Account.note .float (Rule.lift float) (Rule.lift integer)))
    (attempt Strategy.remembering.note .complex (Rule.lift complex)
      (attempt Strategy.remembering.note .float (Rule.lift float) (Rule.lift integer)))
    (Beyond p) p := by
  refine (accounts_lift quiet_complex advances_complex).attempt ?_
  exact (accounts_lift quiet_float advances_float).attempt
    (accounts_lift quiet_integer advances_integer)

theorem accounts_single : Accounts text depth low (single Account.note)
    (single Strategy.remembering.note) (Beyond p) p := by
  refine accounts_peek.bind fun c q _ hc => ?_
  obtain ⟨-, rfl⟩ := hc
  refine .ite (fun _ => accounts_lift quiet_noneLiteral advances_noneLiteral) fun _ => ?_
  refine .ite (fun _ => accounts_lift quiet_bool advances_bool) fun _ => ?_
  exact .ite (fun _ => accounts_lift quiet_string advances_string) fun _ => accounts_number

/-- Where nothing is left, an expression fails, with whatever number of characters it is given. -/
theorem Strategy.expression_of_nil {σ : Type} {τ : Strategy (StateM σ)} (hp : p.rest = [])
    (hspare : τ.spare p = pure (.failed .endOfInput p)) (limit : Option Int) (count depth : Nat) :
    τ.expression limit count depth p = pure (.failed .endOfInput p) := by
  obtain ⟨o, s⟩ := p
  obtain rfl : s = [] := hp
  cases count with
  | zero => exact hspare
  | succ count => rfl

/-- **Every expression does the same**, however much more than the characters left the two readers
are given.  The induction is on these characters: inside a bracket there is one less.  How many
compounds the rules take for open does not matter to the reader that counts them itself. -/
theorem accounts_expression (spare : Rule (StateM Account) Node) (limit : Option Int)
    {count count₀ : Nat} (around : Nat) (hp : Reaches (.start text) p)
    (hcount : p.rest.length ≤ count) (hcount₀ : p.rest.length ≤ count₀) :
    Accounts text depth p.offset ((Account.strategy spare limit).expression none count around)
      (Strategy.remembering.expression limit count₀ depth) (Beyond p) p := by
  induction hn : p.rest.length using Nat.strong_induction_on
    generalizing p count count₀ depth around with
  | _ n ih =>
    by_cases hnil : p.rest = []
    · exact (accounts_fail .endOfInput).congr
        (Strategy.expression_of_nil hnil (if_pos hnil) none count around)
        (Strategy.expression_of_nil hnil rfl limit count₀ depth) (.refl p)
    have hpos : 0 < p.rest.length := List.length_pos_of_ne_nil hnil
    obtain ⟨count, rfl⟩ : ∃ k, count = k + 1 := ⟨count - 1, by omega⟩
    obtain ⟨count₀, rfl⟩ : ∃ k, count₀ = k + 1 := ⟨count₀ - 1, by omega⟩
    refine accounts_blanks.bind fun _ q hq _ => accounts_peek.bind fun c q' _ hc => ?_
    obtain ⟨-, rfl⟩ := hc
    have hend : ∀ (x : Node) b, Reaches q' b → Beyond q' x b → Accounts text depth p.offset
        (do Rule.blanks; pure x) (do Rule.blanks; pure x) (Beyond p) b := fun x b _ hb =>
      Accounts.beyond (R := fun _ _ => True)
        (accounts_blanks.bind fun _ _ _ _ => accounts_pure trivial) (hq.offset_le.trans_lt hb)
    refine .ite (fun _ => ?_) fun _ => accounts_single.bind hend
    -- Behind the bracket less is left, so both numbers are still enough there.
    have hnested : Nested text (depth + 1) (q'.offset + 1)
        ((Account.strategy spare limit).expression none count (around + 1))
        (Strategy.remembering.expression limit count₀ (depth + 1)) := by
      intro a ha
      have hshort : a.rest.length < p.rest.length := by
        have := hp.length
        have := ha.reaches.length
        have := hq.offset_le
        have := ha.le
        omega
      exact (ih _ (hn ▸ hshort) _ ha.reaches (by omega) (by omega) rfl).mono ha.le
    have hbracketed := accounts_bracketed hnested (hp.trans hq) le_rfl
    have hcompound := (hbracketed.compound limit (hp.trans hq)).mono hq.offset_le
    exact (hcompound.bind hend).congr rfl (bind_assoc_apply _ _ _ _).symm (.refl _)

/-- **A whole reading does the same.** -/
theorem accounts_document (spare : Rule (StateM Account) Node) (limit : Option Int)
    (hp : Reaches (.start text) p) :
    Accounts text 0 p.offset (Account.document spare limit)
      (Strategy.remembering.document limit) (Beyond p) p := by
  refine accounts_blanks.bind fun _ q hq _ => accounts_here ?_
  refine .ite (fun _ => accounts_fail _) fun _ => ?_
  have hroot : Accounts text 0 p.offset _ _ (Beyond q) q :=
    (accounts_expression spare limit 0 (hp.trans hq) le_rfl le_rfl).mono hq.offset_le
  refine hroot.bind fun root a _ hbeyond => ?_
  refine Accounts.beyond (R := fun _ _ => True) ?_ (hq.offset_le.trans_lt hbeyond)
  exact accounts_ahead.bind fun _ _ _ _ => .ite (fun _ => accounts_pure trivial)
    fun _ => accounts_fail _

end Rules

/-! ## 4. Sessions -/

namespace Account

variable {text : List Char} {w : Account} {c : Cause} {q : Point}

/-- The copy that the caller gets is made last, and the error that it is made from stays. -/
theorem annotating_spec (low : Nat) (hsound : w.toSnapshot.Sound text w.errors)
    (hmatches : Matches w.errors (some (.failed c q)) w.raised) (position : Int) :
    w.Leads text low (w.annotating position) ∧
      (w.annotating position).errors[w.errors.length]? =
        some ((Fault.ofCause c).annotate position) := by
  obtain ⟨i, hi, hf⟩ := hmatches
  have herrors : (w.annotating position).errors =
      w.errors ++ [(Fault.ofCause c).annotate position] := by
    simp [annotating, hi, hf]
  have hgrown : w.errors <+: (w.annotating position).errors :=
    herrors ▸ List.prefix_append _ _
  refine ⟨.of_past ((hsound.congr rfl rfl).mono hgrown) rfl rfl hgrown rfl, ?_⟩
  rw [herrors]
  exact List.getElem?_concat_length

end Account

/-- What two readings give: the same tree, or an error by its number and that error. -/
def Answers (errors : List Fault) : Except Nat Tree → Except Fault Tree → Prop
  | .ok x, y => y = .ok x
  | .error e, y => ∃ f, errors[e]? = some f ∧ y = .error f

namespace AccountedSession

/-- The session with an account stands where the other one stands, and knows the same. -/
structure Beside (s : AccountedSession) (t : Session) : Prop where
  limit : s.limit = t.limit
  point : s.point = t.point
  memory : s.account.memory = t.memory

/-- The session with an account stands where the other one stands.  Nothing is open; and at every
moment so far, what was open and what was kept was as it should be. -/
structure Follows (text : List Char) (s : AccountedSession) (t : Session) : Prop
    extends s.Beside t where
  reaches : Reaches (.start text) s.point
  ready : s.account.Ready text 0
  opened : s.account.opened = []
  snapshots : ∀ m ∈ s.account.snapshots, m.Sound text s.account.errors ∧ m.Above text 0 0 []

variable {text : List Char} {s : AccountedSession} {t : Session}

theorem follows_start (text : String) (limit : Option Int) :
    (start text limit).Follows text.toList (Session.start text limit) := by
  have hsound : Account.empty.toSnapshot.Sound text.toList [] :=
    ⟨fun _ _ _ h => by simp [Account.empty, Memory.empty] at h,
      fun _ _ _ _ h => by simp [Account.empty, Memory.empty] at h,
      fun o => by simp [Account.empty, Memory.empty, Matches]⟩
  refine ⟨⟨rfl, rfl, rfl⟩, .refl _, ⟨hsound, rfl, rfl⟩, rfl, fun m hm => ?_⟩
  obtain rfl := List.mem_singleton.mp hm
  exact ⟨hsound, .of_eq rfl rfl⟩

/-- Where an account leads with everything closed, a session goes on. -/
theorem Follows.go {found : Outcome Node} {w : Account} {memory : Memory}
    (h : s.Follows text t) (hleads : s.account.Leads text 0 w) (hraised : w.raised = none)
    (hreaches : Reaches s.point found.stop) (hmemory : w.memory = memory) :
    Follows text ⟨s.limit, found.stop, w⟩ ⟨t.limit, found.stop, memory⟩ := by
  refine ⟨⟨h.limit, rfl, hmemory⟩, h.reaches.trans hreaches,
    ⟨hleads.sound, hleads.depth.trans h.ready.depth, hraised⟩, hleads.opened.trans h.opened, ?_⟩
  refine hleads.forall_snapshots (fun m hm => ?_) fun m hsound habove => ?_
  · exact (h.snapshots m (List.mem_cons_of_mem _ hm)).imp_left (·.mono hleads.errors)
  · rw [h.opened, h.ready.depth] at habove
    exact ⟨hsound, habove⟩

/-- **A reading with an account gives what one without gives**, and goes on from there. -/
theorem Follows.next (h : s.Follows text t) (spare : Rule (StateM Account) Node) :
    (s.read spare).2.Follows text t.read.2 ∧
      Answers (s.read spare).2.account.errors (s.read spare).1 t.read.1 := by
  obtain ⟨found, w, hrun, hrun₀, hreaches, -, hleads, hraises⟩ :=
    accounts_document spare s.limit h.reaches s.account h.ready
  rw [h.limit, h.point, h.memory] at hrun₀
  have hleads : s.account.Leads text 0 w := hleads.mono (Nat.zero_le _)
  rw [Session.read_eq hrun₀]
  have hrun : (Account.document spare s.limit s.point).run s.account = (found, w) := hrun
  unfold read
  rw [hrun]
  cases found with
  | ok root q => exact ⟨h.go hleads hraises hreaches rfl, rfl⟩
  | failed c q =>
    obtain ⟨hraised, hmemory, hmatches⟩ := Account.raising_spec 0 hleads.sound hraises
    obtain ⟨hannotated, hcopy⟩ := Account.annotating_spec 0 hraised.sound hmatches q.offset
    exact ⟨h.go (hleads.trans (hraised.trans hannotated)) rfl hreaches hmemory, _, hcopy, rfl⟩

/-- **After any number of readings** the two sessions stand at the same point. -/
theorem follows_after (text : String) (limit : Option Int) (spare : Rule (StateM Account) Node)
    (count : Nat) : ((start text limit).after spare count).Follows text.toList
      ((Session.start text limit).after count) := by
  induction count with
  | zero => exact follows_start text limit
  | succ count ih => exact (ih.next spare).1

end AccountedSession

end Literals.Reader
